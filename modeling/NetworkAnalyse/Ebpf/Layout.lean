import NetworkAnalyse.Ebpf.Callbacks

/-!
# The events in memory

A handler gives the bytes of its `struct event` to `bpf_perf_event_output`, and the callback
of the tool reads them through a pointer of that type.  The struct of the service ends with
four bytes of padding; that of the client has `tcp_connect_time` behind them.

* `Event.ofBytes_padded`, `ClientEvent.ofBytes_bytes`: what the callback reads is what the
  handler stored, whatever the padding holds and whatever lies behind the event.
-/

namespace NetworkAnalyse.Ebpf

open Lib Bytes

/-! ### The members -/

/-- The sixteen bytes of a union at its offset. -/
def U6Addr.ofBytes (l : List UInt8) (a : Nat) : U6Addr where
  w0 := load32 l a
  w1 := load32 l (a + 4)
  w2 := load32 l (a + 8)
  w3 := load32 l (a + 12)

/-- The members up to the padding. -/
def Event.bytes (e : Event) : List UInt8 :=
  e.saddr.bytes ++ (e.daddr.bytes ++ (e.comm.toList ++ (e.func.toList ++ (e.tcpState.toList ++
    (e.tcpDescription.toList ++ (bytes64 e.deltaUs ++ (bytes64 e.tsUs ++ (bytes32 e.tgid ++
      (bytes32 (.ofNat e.af) ++ (bytes16 e.lport ++ bytes16 e.dport))))))))))

/-- `const struct event* e = data`. -/
def Event.ofBytes (data : List UInt8) : Event where
  saddr := .ofBytes data 0
  daddr := .ofBytes data 16
  comm := chars data 32 _
  func := chars data 48 _
  tcpState := chars data 80 _
  tcpDescription := chars data 112 _
  deltaUs := load64 data 240
  tsUs := load64 data 248
  tgid := load32 data 256
  af := (load32 data 260).toNat
  lport := load16 data 264
  dport := load16 data 266

def ClientEvent.ofBytes (data : List UInt8) : ClientEvent where
  toEvent := .ofBytes data
  tcpConnectTime := load64 data 272

/-- The bytes of the client's event, with those of its padding. -/
def ClientEvent.bytes (e : ClientEvent) (gap : Vector UInt8 4) : List UInt8 :=
  e.toEvent.bytes ++ (gap.toList ++ bytes64 e.tcpConnectTime)

@[simp] theorem length_u6bytes (u : U6Addr) : u.bytes.length = 16 := rfl

@[simp] theorem Event.length_bytes (e : Event) : e.bytes.length = 268 := by
  simp only [Event.bytes, List.length_append, length_u6bytes, Vector.length_toList, length_bytes64,
    length_bytes32, length_bytes16]
  rfl

/-! ### Round trips -/

theorem U6Addr.ofBytes_skip {pre post : List UInt8} {a : Nat} (h : pre.length ≤ a) :
    U6Addr.ofBytes (pre ++ post) a = U6Addr.ofBytes post (a - pre.length) := by
  simp only [U6Addr.ofBytes, U6Addr.mk.injEq]
  refine ⟨load32_skip h, ?_, ?_, ?_⟩ <;>
    rw [load32_skip (by omega), Nat.sub_add_comm h]

theorem U6Addr.ofBytes_bytes (u : U6Addr) (post : List UInt8) :
    U6Addr.ofBytes (u.bytes ++ post) 0 = u := by
  obtain ⟨w0, w1, w2, w3⟩ := u
  have hskip : ∀ (w : UInt32) (l : List UInt8) (a : Nat),
      load32 (bytes32 w ++ l) (a + 4) = load32 l a := fun w l a =>
    load32_skip (Nat.le_add_left 4 a)
  simp only [U6Addr.ofBytes, U6Addr.bytes, U6Addr.mk.injEq, List.append_assoc]
  refine ⟨load32_bytes32 w0 _, ?_, ?_, ?_⟩
  · exact (hskip w0 _ 0).trans (load32_bytes32 w1 _)
  · exact (hskip w0 _ 4).trans ((hskip w1 _ 0).trans (load32_bytes32 w2 _))
  · exact (hskip w0 _ 8).trans ((hskip w1 _ 4).trans ((hskip w2 _ 0).trans (load32_bytes32 w3 _)))

theorem Event.ofBytes_bytes (e : Event) (haf : e.af < 65536) (rest : List UInt8) :
    Event.ofBytes (e.bytes ++ rest) = e := by
  have haf' : (UInt32.ofNat e.af).toNat = e.af :=
    UInt32.toNat_ofNat_of_lt' (by simp only [UInt32.size]; omega)
  -- a load skips the members before its own
  simp (disch := first | exact Nat.le_of_ble_eq_true rfl |
      exact (Vector.length_toList).trans_le (Nat.le_of_ble_eq_true rfl)) only [Event.ofBytes,
    Event.bytes, List.append_assoc, load16_skip, load32_skip, load64_skip, chars_skip,
    U6Addr.ofBytes_skip, length_u6bytes, length_bytes16, length_bytes32, length_bytes64,
    Vector.length_toList, taskCommLen, taskFuncLen, tcpStateLen, tcpDescriptionLen, Nat.reduceSub,
    load16_bytes16, load32_bytes32, load64_bytes64, chars_toList, U6Addr.ofBytes_bytes, haf']

/-- The service's event: what the callback reads is what the handler stored. -/
theorem Event.ofBytes_padded (e : Event) (gap : Vector UInt8 4) (rest : List UInt8)
    (haf : e.af < 65536) : Event.ofBytes (e.bytes ++ gap.toList ++ rest) = e := by
  rw [List.append_assoc, Event.ofBytes_bytes e haf]

/-- The client's event. -/
theorem ClientEvent.ofBytes_bytes (e : ClientEvent) (gap : Vector UInt8 4) (rest : List UInt8)
    (haf : e.af < 65536) : ClientEvent.ofBytes (e.bytes gap ++ rest) = e := by
  have htime : load64 (e.bytes gap ++ rest) 272 = e.tcpConnectTime := by
    rw [ClientEvent.bytes, List.append_assoc, List.append_assoc,
      load64_skip (e.toEvent.length_bytes.trans_le (Nat.le_of_ble_eq_true rfl)), Event.length_bytes,
      load64_skip ((Vector.length_toList).trans_le (Nat.le_of_ble_eq_true rfl)),
      Vector.length_toList]
    exact load64_bytes64 _ _
  rw [ClientEvent.ofBytes, htime, ClientEvent.bytes, List.append_assoc, Event.ofBytes_bytes _ haf]

end NetworkAnalyse.Ebpf
