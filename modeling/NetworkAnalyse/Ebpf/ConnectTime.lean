import NetworkAnalyse.Ebpf.Client
import NetworkAnalyse.Lib.Interleave
import NetworkAnalyse.Lib.Stopwatch

/-!
# The connect time over interleaved handlers

The client's handlers run on any number of sockets at once, interleaved at their
helper calls; two handlers on one socket do not overlap, since the kernel holds
the socket lock (`tracker`).  To each socket the `connect` map is a stopwatch:
`handle_tcp_v4_connect` starts it and `handle_tcp_rcv_state_process` in
`TCP_SYN_SENT` stops it.

* `LawAt`: what the event of an invocation carries, given the invocations
  before it.
* `watch`: the outline that ties the map entry of a socket to its stopwatch.
* `connectTime_law`: every event of every run carries what `LawAt` says.
-/

namespace NetworkAnalyse.Ebpf.Client

open Lib

/-- A handler being called. -/
structure Invocation where
  hook : Hook
  call : Call
  deriving DecidableEq

/-- An invocation that has returned, with the helper calls it made. -/
abbrev Finished := Entry (Op ClientEvent) Op.Res Invocation Int

/-- The handlers, interleaved at their helper calls.  The input of a step is the
reading of the clock, for the step that reads it. -/
def tracker (P : Image) :
    System SockPtr (Op ClientEvent) Op.Res UInt64 Empty (Kern ClientEvent) Invocation Int where
  key i := i.call.sk
  body i := fentry P i.call i.hook
  exec := exec
  env e _ := e.elim

/-! ### Reading a trace -/

section Traces

variable {ε : Type}

/-- What the helper call says about the clock. -/
def readingOf : (Σ op : Op ε, op.Res) → Option UInt64
  | ⟨.ktimeGetNs, t⟩ => some t
  | _ => none

def outputOf : (Σ op : Op ε, op.Res) → Option (PerfBuf × ε)
  | ⟨.perfEventOutput buf event, _⟩ => some (buf, event)
  | _ => none

/-- The helper call is an update that failed. -/
def isRefusal : (Σ op : Op ε, op.Res) → Bool
  | ⟨.mapUpdateElem _ _, r⟩ => decide (r ≠ 0)
  | _ => false

/-- The clock reading of an invocation. -/
def reading (tr : Trace (Op ε) Op.Res) : Option UInt64 := tr.findSome? readingOf

/-- The events an invocation emitted. -/
def emitted (tr : Trace (Op ε) Op.Res) : List (PerfBuf × ε) := tr.filterMap outputOf

/-- An update of the map failed for lack of room. -/
def refused (tr : Trace (Op ε) Op.Res) : Bool := tr.any isRefusal

end Traces

/-- The map never needed more room than it has. -/
def Fits (h : List Finished) : Prop := ∀ i ∈ h, refused i.trace = false

/-- An invocation of `handle_tcp_rcv_state_process` that reads `TCP_SYN_SENT`. -/
def Invocation.SynSent (i : Invocation) : Prop :=
  i.hook = .tcpRcvStateProcess ∧ i.call.sock.skcState = tcpSynSent

instance (i : Invocation) : Decidable i.SynSent := inferInstanceAs (Decidable (_ ∧ _))

/-- What an invocation does to the stopwatch of its socket. -/
def lap (i : Finished) : Lap SockPtr UInt64 :=
  match i.tag.hook, reading i.trace with
  | .tcpV4Connect, some t => .start i.tag.call.sk t
  | .tcpRcvStateProcess, _ =>
    if i.tag.call.sock.skcState = tcpSynSent then .stop i.tag.call.sk else .idle
  | _, _ => .idle

/-- What a firing of a hook does to the stopwatch, when its handler reads `t`. -/
def Hook.lap (c : Call) (t : UInt64) : Hook → Lap SockPtr UInt64
  | .tcpV4Connect => .start c.sk t
  | .tcpRcvStateProcess => if c.sock.skcState = tcpSynSent then .stop c.sk else .idle
  | .tcpSendmsg => .idle

/-- The connect time that is due at `t` when the stopwatch was last started at `t₀`. -/
def Due (t : UInt64) (dt : UInt64) (t₀ : UInt64) : Prop :=
  t₀.toNat / 1000 ≤ t.toNat / 1000 ∧ dt.toNat = t.toNat / 1000 - t₀.toNat / 1000

theorem us_le_us {t t₀ : UInt64} (h : t₀ ≤ t) : t₀ / 1000 ≤ t / 1000 := by
  rw [UInt64.le_iff_toNat_le, UInt64.toNat_div, UInt64.toNat_div]
  exact Nat.div_le_div_right (UInt64.le_iff_toNat_le.mp h)

/-- A time that was noted in the past is due, and the subtraction does not wrap. -/
theorem due_of_le {t t₀ : UInt64} (h : t₀ ≤ t) : Due t (t / 1000 - t₀ / 1000) t₀ := by
  refine ⟨Nat.div_le_div_right (UInt64.le_iff_toNat_le.mp h), ?_⟩
  rw [UInt64.toNat_sub_of_le _ _ (us_le_us h), UInt64.toNat_div, UInt64.toNat_div]
  rfl

/-- **The law.**  An invocation reads the clock, emits one event, and in
`TCP_SYN_SENT` that event carries the time since the latest connect of the same
socket that no invocation in `TCP_SYN_SENT` has used up, `0` if there is none.
Any other event carries `0`. -/
def LawAt (pre : List Finished) (i : Finished) : Prop :=
  ∃ t buf event, reading i.trace = some t ∧ emitted i.trace = [(buf, event)] ∧
    (i.tag.SynSent →
      (∀ t₀, Latest (pre.map lap) i.tag.call.sk t₀ → Due t event.tcpConnectTime t₀) ∧
      ((¬ ∃ t₀, Latest (pre.map lap) i.tag.call.sk t₀) → event.tcpConnectTime = 0)) ∧
    (¬ i.tag.SynSent → event.tcpConnectTime = 0)

/-! ### The stopwatch of one socket -/

/-- What is known of the shared state about one socket: its map entry, the
invocations on it that have returned, and a time the clock has passed. -/
structure Watch where
  entry : Option Piddata
  past : List Finished
  bound : UInt64

/-- The view is right, and the law holds of the invocations that have returned. -/
def Watch.View (k : SockPtr) (s : Kern ClientEvent) (h : List Finished) (v : Watch) : Prop :=
  v.entry = s.connect.lookup k ∧ v.past = h.filter (·.tag.call.sk = k) ∧ v.bound ≤ s.clock ∧
    Lawful (fun pre i => Fits pre → LawAt pre i) v.past

/-- The map entry is the stopwatch: it holds the microsecond at which the watch
was started, and this time has passed. -/
def Watch.InStep (k : SockPtr) (v : Watch) : Prop :=
  (Fits v.past → v.entry.map (·.ts) = (pending (v.past.map lap) k).map (· / 1000)) ∧
    ∀ t₀, pending (v.past.map lap) k = some t₀ → t₀ ≤ v.bound

/-- A handler uses the map entry of its own socket only. -/
def Watch.Can (k : SockPtr) : Op ClientEvent → Watch → Prop
  | .mapLookupElem key, _ => key = k
  | .mapUpdateElem key _, _ => key = k
  | .mapDeleteElem key, _ => key = k
  | _, _ => True

def Watch.Next : (op : Op ClientEvent) → Watch → op.Res → Watch → Prop
  | .ktimeGetNs, v, t, v' => v.bound ≤ t ∧ v' = { v with bound := t }
  | .mapLookupElem _, v, r, v' => r = v.entry ∧ v' = v
  | .mapUpdateElem _ value, v, r, v' =>
    (r = 0 ∧ v' = { v with entry := some value }) ∨ (r ≠ 0 ∧ v' = v)
  | .mapDeleteElem _, v, _, v' => v' = { v with entry := none }
  | _, v, _, v' => v' = v

/-- When a handler returns, its event obeys the law and the watch is in step. -/
def Watch.Done (k : SockPtr) (i : Invocation) (tr : Trace (Op ClientEvent) Op.Res) (a : Int)
    (v : Watch) : Prop :=
  (Fits v.past → LawAt v.past ⟨i, tr, a⟩) ∧ InStep k { v with past := v.past ++ [⟨i, tr, a⟩] }

theorem fits_snoc {h : List Finished} {i : Finished} :
    Fits (h ++ [i]) ↔ Fits h ∧ refused i.trace = false := by
  constructor
  · intro hf
    exact ⟨fun j hj => hf j (by simp [hj]), hf i (by simp)⟩
  · intro hf j hj
    rcases List.mem_append.mp hj with hj | hj
    · exact hf.1 j hj
    · rw [List.mem_singleton.mp hj]
      exact hf.2

theorem fits_filter {h : List Finished} (hf : Fits h) (p : Finished → Bool) : Fits (h.filter p) :=
  fun i hi => hf i (List.mem_of_mem_filter hi)

namespace Watch

variable {k : SockPtr} {v : Watch} {i : Finished} {t : UInt64}

/-- An invocation that is no lap leaves the watch in step. -/
theorem inStep_snoc_idle (hv : v.InStep k) (hb : v.bound ≤ t) (hi : lap i = .idle) :
    InStep k ⟨v.entry, v.past ++ [i], t⟩ := by
  have hp : pending ((v.past ++ [i]).map lap) k = pending (v.past.map lap) k := by
    rw [List.map_append, List.map_singleton, pending_snoc, hi]
    rfl
  refine ⟨fun hf => ?_, fun t₀ ht₀ => ?_⟩
  · show v.entry.map (·.ts) = _
    rw [hp]
    exact hv.1 (fits_snoc.mp hf).1
  · rw [hp] at ht₀
    exact UInt64.le_trans (hv.2 t₀ ht₀) hb

/-- A connect starts the watch, if its note found room. -/
theorem inStep_snoc_start {e : Option Piddata} (hi : lap i = .start k t)
    (he : refused i.trace = false → e.map (·.ts) = some (t / 1000)) :
    InStep k ⟨e, v.past ++ [i], t⟩ := by
  have hp : pending ((v.past ++ [i]).map lap) k = some t := by
    rw [List.map_append, List.map_singleton, pending_snoc, hi, Lap.next, if_pos rfl]
  refine ⟨fun hf => ?_, fun t₀ ht₀ => ?_⟩
  · show e.map (·.ts) = _
    rw [hp]
    exact he (fits_snoc.mp hf).2
  · rw [hp] at ht₀
    rw [← Option.some.inj ht₀]
    exact UInt64.le_refl t

/-- An invocation in `TCP_SYN_SENT` stops the watch and removes the note. -/
theorem inStep_snoc_stop (hi : lap i = .stop k) : InStep k ⟨none, v.past ++ [i], t⟩ := by
  have hp : pending ((v.past ++ [i]).map lap) k = none := by
    rw [List.map_append, List.map_singleton, pending_snoc, hi, Lap.next, if_pos rfl]
  refine ⟨fun _ => ?_, fun t₀ ht₀ => ?_⟩
  · rw [hp]
    rfl
  · rw [hp] at ht₀
    cases ht₀

/-- While the watch is in step, the map gives the connect time that is due. -/
theorem due_connectTime (hv : v.InStep k) (hf : Fits v.past) (hb : v.bound ≤ t) :
    (∀ t₀, Latest (v.past.map lap) k t₀ → Due t (connectTime t v.entry) t₀) ∧
      ((¬ ∃ t₀, Latest (v.past.map lap) k t₀) → connectTime t v.entry = 0) := by
  have he := hv.1 hf
  constructor
  · intro t₀ hl
    have hp := pending_eq_some_iff.mpr hl
    rw [hp, Option.map_some, Option.map_eq_some_iff] at he
    obtain ⟨pd, hpd, hts⟩ := he
    rw [hpd, connectTime, hts]
    exact due_of_le (UInt64.le_trans (hv.2 t₀ hp) hb)
  · intro hn
    have hp : pending (v.past.map lap) k = none := by
      rw [Option.eq_none_iff_forall_ne_some]
      intro t₀ ht₀
      exact hn ⟨t₀, pending_eq_some_iff.mp ht₀⟩
    rw [hp, Option.map_none, Option.map_eq_none_iff] at he
    rw [he]
    rfl

end Watch

/-! ### The handlers follow the outline -/

theorem not_drops_zero (lit : String → Nat) (t : UInt64) : ¬ (⟨lit, 0⟩ : Image).drops t :=
  fun h => h.1 rfl

section Handlers

variable {lit : String → Nat} {c : Call} {v : Watch}

/-- Up to the texts a handler only learns what time it is. -/
theorem ok_traceSock {func description : String} {f : UInt64 → Event → Handler ClientEvent Int}
    {post : Trace (Op ClientEvent) Op.Res → Int → Watch → Prop}
    (h : ∀ t x y z event, v.bound ≤ t → (f t event).Ok (Watch.Can c.sk) Watch.Next post
      [⟨.ktimeGetNs, t⟩, ⟨.memcpy (lit func) taskFuncLen, x⟩,
        ⟨.memcpy (lit description) tcpDescriptionLen, y⟩,
        ⟨.memcpy (lit (getTcpState c.sock.skcState)) tcpStateLen, z⟩] ⟨v.entry, v.past, t⟩) :
    (traceSock ⟨lit, 0⟩ func description c f).Ok (Watch.Can c.sk) Watch.Next post [] v := by
  simp only [traceSock, ktimeGetNs, memcpy, Prog.perform_bind, Prog.pure_eq, not_drops_zero,
    if_false, Prog.ok_call]
  refine ⟨trivial, fun t _ hnext => ⟨trivial, fun x _ hx => ⟨trivial, fun y _ hy =>
    ⟨trivial, fun z _ hz => ?_⟩⟩⟩⟩
  obtain ⟨hb, rfl⟩ := hnext
  cases hx
  cases hy
  cases hz
  exact h t x y z _ hb

theorem ok_sendmsg (hv : v.InStep c.sk) :
    (handleTcpSendmsg ⟨lit, 0⟩ c).Ok (Watch.Can c.sk) Watch.Next
      (Watch.Done c.sk ⟨.tcpSendmsg, c⟩) [] v := by
  refine ok_traceSock fun t x y z event hb => ?_
  refine ⟨trivial, fun r _ hr => ?_⟩
  cases hr
  refine ⟨fun _ => ⟨t, _, _, rfl, rfl, fun hs => ?_, fun _ => rfl⟩, ?_⟩
  · cases hs.1
  · exact Watch.inStep_snoc_idle (v := v) hv hb rfl

theorem ok_connect :
    (handleTcpV4Connect ⟨lit, 0⟩ c).Ok (Watch.Can c.sk) Watch.Next
      (Watch.Done c.sk ⟨.tcpV4Connect, c⟩) [] v := by
  refine ok_traceSock fun t x y z event hb => ?_
  refine ⟨rfl, fun r _ hr => ⟨trivial, fun r' _ hr' => ?_⟩⟩
  cases hr'
  refine ⟨fun _ => ⟨t, _, _, rfl, rfl, fun hs => ?_, fun _ => rfl⟩, ?_⟩
  · cases hs.1
  · -- the note is in the map unless the update failed, and then nothing is promised
    rcases hr with ⟨rfl, rfl⟩ | ⟨hr, rfl⟩
    · exact Watch.inStep_snoc_start (v := v) rfl (fun _ => rfl)
    · refine Watch.inStep_snoc_start (v := v) rfl (fun hf => absurd hf ?_)
      simp [refused, isRefusal, hr]

theorem ok_rcv (hv : v.InStep c.sk) :
    (handleTcpRcvStateProcess ⟨lit, 0⟩ c).Ok (Watch.Can c.sk) Watch.Next
      (Watch.Done c.sk ⟨.tcpRcvStateProcess, c⟩) [] v := by
  simp only [handleTcpRcvStateProcess, ktimeGetNs, memcpy, strcat, mapLookupElem, mapDeleteElem,
    perfEventOutput, Prog.perform_bind, Prog.pure_eq, not_drops_zero, if_false, Prog.ok_call]
  refine ⟨trivial, fun t _ hnext => ⟨trivial, fun _ _ hw => ⟨trivial, fun x _ hx =>
    ⟨trivial, fun y _ hy => ⟨trivial, fun z _ hz => ?_⟩⟩⟩⟩⟩
  obtain ⟨hb, rfl⟩ := hnext
  cases hw
  cases hx
  cases hy
  cases hz
  by_cases hs : c.sock.skcState = tcpSynSent
  · rw [if_pos hs]
    refine ⟨rfl, fun pd _ hpd => ?_⟩
    obtain ⟨rfl, rfl⟩ := hpd
    have hdue := fun hf => Watch.due_connectTime (t := t) hv hf hb
    have hstop {tr a} : Watch.InStep c.sk
        ⟨none, v.past ++ [⟨⟨.tcpRcvStateProcess, c⟩, tr, a⟩], t⟩ :=
      Watch.inStep_snoc_stop (if_pos hs)
    -- hit or miss, the handler deletes the entry; they differ in the time only
    cases he : v.entry with
    | none =>
      rw [he] at hdue
      refine ⟨rfl, fun r _ hr => ⟨trivial, fun r' _ hr' => ?_⟩⟩
      cases hr
      cases hr'
      exact ⟨fun hf => ⟨t, _, _, rfl, rfl, fun _ => hdue hf, fun _ => rfl⟩, hstop⟩
    | some pd =>
      rw [he] at hdue
      refine ⟨rfl, fun r _ hr => ⟨trivial, fun r' _ hr' => ?_⟩⟩
      cases hr
      cases hr'
      refine ⟨fun hf => ⟨t, _, _, rfl, rfl, fun _ => ?_, fun h => absurd ⟨rfl, hs⟩ h⟩, hstop⟩
      simpa only [tsUs_fill, connectTime] using hdue hf
  · rw [if_neg hs]
    refine ⟨trivial, fun r _ hr => ?_⟩
    cases hr
    refine ⟨fun _ => ⟨t, _, _, rfl, rfl, fun h => absurd h.2 hs, fun _ => rfl⟩, ?_⟩
    exact Watch.inStep_snoc_idle (v := v) hv hb (if_neg hs)

end Handlers

/-! ### The outline -/

/-- A helper call of a handler changes the view of its own socket as `Next` says. -/
theorem Watch.view_own {k : SockPtr} {s s' : Kern ClientEvent} {h : List Finished} {v : Watch}
    {t : UInt64} {op : Op ClientEvent} {r : op.Res} (hv : v.View k s h) (hc : Can k op v)
    (he : exec t op s = some (r, s')) : ∃ v', Next op v r v' ∧ View k s' h v' := by
  obtain ⟨hentry, hpast, hbound, hlaw⟩ := hv
  cases op with
  | ktimeGetNs =>
    simp only [exec, Option.ite_none_right_eq_some, Option.some.injEq, Prod.mk.injEq] at he
    obtain ⟨hle, rfl, rfl⟩ := he
    exact ⟨_, ⟨UInt64.le_trans hbound hle, rfl⟩, hentry, hpast, UInt64.le_refl _, hlaw⟩
  | mapUpdateElem key value =>
    obtain rfl := hc
    cases hm : s.connect.update key value with
    | some m =>
      simp only [exec, hm, Option.some.injEq, Prod.mk.injEq] at he
      obtain ⟨rfl, rfl⟩ := he
      exact ⟨_, Or.inl ⟨rfl, rfl⟩, (BoundedMap.lookup_update_self hm).symm, hpast, hbound, hlaw⟩
    | none =>
      simp only [exec, hm, Option.some.injEq, Prod.mk.injEq] at he
      obtain ⟨rfl, rfl⟩ := he
      exact ⟨v, Or.inr ⟨(by decide : -e2big ≠ 0), rfl⟩, hentry, hpast, hbound, hlaw⟩
  | mapDeleteElem key =>
    obtain rfl := hc
    simp only [exec, Option.some.injEq, Prod.mk.injEq] at he
    obtain ⟨-, rfl⟩ := he
    exact ⟨_, rfl, (BoundedMap.lookup_delete_self _ _).symm, hpast, hbound, hlaw⟩
  | mapLookupElem key =>
    obtain rfl := hc
    simp only [exec, Option.some.injEq, Prod.mk.injEq] at he
    obtain ⟨rfl, rfl⟩ := he
    exact ⟨v, ⟨hentry.symm, rfl⟩, hentry, hpast, hbound, hlaw⟩
  | _ =>
    simp only [exec, Option.some.injEq, Prod.mk.injEq] at he
    obtain ⟨-, rfl⟩ := he
    exact ⟨v, rfl, hentry, hpast, hbound, hlaw⟩

/-- ... and leaves what is known of another socket alone. -/
theorem Watch.view_other {k k' : SockPtr} {s s' : Kern ClientEvent} {h : List Finished}
    {v w : Watch} {t : UInt64} {op : Op ClientEvent} {r : op.Res} (hk : k' ≠ k) (hc : Can k op v)
    (he : exec t op s = some (r, s')) (hw : w.View k' s h) : w.View k' s' h := by
  obtain ⟨hentry, hpast, hbound, hlaw⟩ := hw
  cases op with
  | ktimeGetNs =>
    simp only [exec, Option.ite_none_right_eq_some, Option.some.injEq, Prod.mk.injEq] at he
    obtain ⟨hle, rfl, rfl⟩ := he
    exact ⟨hentry, hpast, UInt64.le_trans hbound hle, hlaw⟩
  | mapUpdateElem key value =>
    obtain rfl := hc
    cases hm : s.connect.update key value with
    | some m =>
      simp only [exec, hm, Option.some.injEq, Prod.mk.injEq] at he
      obtain ⟨rfl, rfl⟩ := he
      exact ⟨hentry.trans (BoundedMap.lookup_update_of_ne hm hk).symm, hpast, hbound, hlaw⟩
    | none =>
      simp only [exec, hm, Option.some.injEq, Prod.mk.injEq] at he
      obtain ⟨rfl, rfl⟩ := he
      exact ⟨hentry, hpast, hbound, hlaw⟩
  | mapDeleteElem key =>
    obtain rfl := hc
    simp only [exec, Option.some.injEq, Prod.mk.injEq] at he
    obtain ⟨-, rfl⟩ := he
    exact ⟨hentry.trans (BoundedMap.lookup_delete_of_ne _ hk).symm, hpast, hbound, hlaw⟩
  | _ =>
    simp only [exec, Option.some.injEq, Prod.mk.injEq] at he
    obtain ⟨-, rfl⟩ := he
    exact ⟨hentry, hpast, hbound, hlaw⟩

/-- The proof outline of the handlers. -/
def watch (lit : String → Nat) : Outline (tracker ⟨lit, 0⟩) Watch where
  View := Watch.View
  Idle := Watch.InStep
  Can := Watch.Can
  Next _ := Watch.Next
  Done := Watch.Done
  spawn {i v} hv := by
    obtain ⟨hook, c⟩ := i
    cases hook with
    | tcpRcvStateProcess => exact ok_rcv hv
    | tcpV4Connect => exact ok_connect
    | tcpSendmsg => exact ok_sendmsg hv
  own := Watch.view_own
  other hk _ := Watch.view_other hk
  env {_ e} := e.elim
  finish {i tr a s h v} hv hd := by
    obtain ⟨hentry, hpast, hbound, hlaw⟩ := hv
    refine ⟨_, hd.2, hentry, ?_, hbound, hlaw.snoc hd.1⟩
    show v.past ++ _ = _
    rw [hpast, List.filter_append, List.filter_cons_of_pos (by simp [tracker]), List.filter_nil]
  finish_other {k i tr a s h v} hk hv := by
    obtain ⟨hentry, hpast, hbound, hlaw⟩ := hv
    refine ⟨hentry, ?_, hbound, hlaw⟩
    rw [hpast, List.filter_append, List.filter_cons_of_neg (by simpa [tracker] using Ne.symm hk),
      List.filter_nil, List.append_nil]

/-! ### Every event is the last thing its invocation does -/

/-- Nothing is called after an event has been given to its perf buffer. -/
def EmitsLast {ε α : Type} : Handler ε α → Prop
  | .ret _ => True
  | .call (.perfEventOutput _ _) k => ∀ r, ∃ a, k r = .ret a
  | .call _ k => ∀ r, EmitsLast (k r)

theorem emitsLast_fentry (P : Image) (c : Call) (h : Hook) : EmitsLast (fentry P c h) := by
  cases h with
  | tcpRcvStateProcess =>
    simp only [fentry, handleTcpRcvStateProcess, ktimeGetNs, memcpy, strcat, mapLookupElem,
      mapDeleteElem, perfEventOutput, Prog.perform_bind, Prog.pure_eq, EmitsLast]
    intro t
    split
    · trivial
    · intro _ x y z
      split
      · intro pd
        cases pd <;> exact fun _ _ => ⟨0, rfl⟩
      · exact fun _ => ⟨0, rfl⟩
  | tcpV4Connect =>
    simp only [fentry, handleTcpV4Connect, traceSock, ktimeGetNs, memcpy, mapUpdateElem,
      perfEventOutput, Prog.perform_bind, Prog.pure_eq, EmitsLast]
    intro t
    split
    · trivial
    · exact fun _ _ _ _ _ => ⟨0, rfl⟩
  | tcpSendmsg =>
    simp only [fentry, handleTcpSendmsg, traceSock, ktimeGetNs, memcpy, perfEventOutput,
      Prog.perform_bind, Prog.pure_eq, EmitsLast]
    intro t
    split
    · trivial
    · exact fun _ _ _ _ => ⟨0, rfl⟩

/-- The events so far are those of the invocations that have returned. -/
def OutLogged (c : Config SockPtr (Op ClientEvent) Op.Res (Kern ClientEvent) Invocation Int) :
    Prop :=
  c.shared.out = c.log.flatMap (fun i => emitted i.trace) ∧
    ∀ k th, c.running k = some th → emitted th.trace = [] ∧ EmitsLast th.rest

theorem exec_out {t : UInt64} {op : Op ClientEvent} {r : op.Res} {s s' : Kern ClientEvent}
    (he : exec t op s = some (r, s')) : s'.out = s.out ++ (outputOf ⟨op, r⟩).toList := by
  cases op with
  | ktimeGetNs =>
    simp only [exec, Option.ite_none_right_eq_some, Option.some.injEq, Prod.mk.injEq] at he
    obtain ⟨-, -, rfl⟩ := he
    exact (List.append_nil _).symm
  | mapUpdateElem key value =>
    rw [exec] at he
    split at he <;>
    · simp only [Option.some.injEq, Prod.mk.injEq] at he
      obtain ⟨-, rfl⟩ := he
      exact (List.append_nil _).symm
  | perfEventOutput buf event =>
    simp only [exec, Option.some.injEq, Prod.mk.injEq] at he
    obtain ⟨-, rfl⟩ := he
    rfl
  | _ =>
    simp only [exec, Option.some.injEq, Prod.mk.injEq] at he
    obtain ⟨-, rfl⟩ := he
    exact (List.append_nil _).symm

theorem emitted_snoc {ε : Type} (tr : Trace (Op ε) Op.Res) (x : Σ op : Op ε, op.Res) :
    emitted (tr ++ [x]) = emitted tr ++ (outputOf x).toList := by
  rw [emitted, List.filterMap_append]
  cases h : outputOf x <;> simp [emitted, h]

theorem EmitsLast.next {ε α : Type} {op : Op ε} {f : op.Res → Handler ε α}
    (h : EmitsLast (.call op f)) (r : op.Res) :
    (∃ a, f r = .ret a) ∨ (outputOf ⟨op, r⟩ = none ∧ EmitsLast (f r)) := by
  cases op with
  | perfEventOutput buf event => exact Or.inl (h r)
  | _ => exact Or.inr ⟨rfl, h r⟩

theorem outLogged_settle {k : SockPtr} (th : Thread (Op ClientEvent) Op.Res Invocation Int)
    (c : Config SockPtr (Op ClientEvent) Op.Res (Kern ClientEvent) Invocation Int)
    (hout : c.shared.out = c.log.flatMap (fun i => emitted i.trace) ++ emitted th.trace)
    (hth : (∃ a, th.rest = .ret a) ∨ (emitted th.trace = [] ∧ EmitsLast th.rest))
    (hrun : ∀ k th, c.running k = some th → emitted th.trace = [] ∧ EmitsLast th.rest) :
    OutLogged (System.settle c k th) := by
  refine ⟨?_, fun j th' hj => ?_⟩
  · obtain ⟨i, tr, rest⟩ := th
    cases rest with
    | ret a =>
      rw [System.settle_ret, List.flatMap_append, List.flatMap_singleton]
      exact hout
    | call op f =>
      obtain ⟨a, ha⟩ | hth := hth
      · cases ha
      · rwa [hth.1, List.append_nil] at hout
  · rcases System.running_settle hj with ⟨rfl, hne⟩ | hj
    · exact hth.resolve_left (fun ⟨a, ha⟩ => hne a ha)
    · exact hrun j th' hj

theorem outLogged_step {P : Image}
    {c c' : Config SockPtr (Op ClientEvent) Op.Res (Kern ClientEvent) Invocation Int}
    {a : Act SockPtr UInt64 Empty Invocation} (hc : OutLogged c)
    (h : (tracker P).step c a = some c') : OutLogged c' := by
  rcases System.step_cases h with ⟨i, -, -, rfl⟩ | ⟨k, t, i, tr, op, f, r, s, -, hrun, hexec, rfl⟩ |
      ⟨e, -⟩
  · refine outLogged_settle _ c ?_ (Or.inr ⟨rfl, emitsLast_fentry P i.call i.hook⟩) hc.2
    rw [hc.1]
    exact (List.append_nil _).symm
  · obtain ⟨hnone, hlast⟩ := hc.2 k _ hrun
    have hsnoc := emitted_snoc tr ⟨op, r⟩
    rw [hnone, List.nil_append] at hsnoc
    refine outLogged_settle _ ⟨s, c.running, c.log⟩ ?_ ?_ hc.2
    · show s.out = _
      rw [exec_out hexec, hc.1, hsnoc]
    · rcases hlast.next r with hret | ⟨ho, hlast⟩
      · exact Or.inl hret
      · exact Or.inr ⟨by rw [hsnoc, ho]; rfl, hlast⟩
  · exact e.elim

/-! ### The law of every run -/

theorem quiet_lap {i : Finished} {k : SockPtr} (h : i.tag.call.sk ≠ k) : (lap i).Quiet k := by
  unfold lap
  split
  · refine ⟨fun t e => h ?_, by simp⟩
    cases e
    rfl
  · split
    · refine ⟨by simp, fun e => h ?_⟩
      cases e
      rfl
    · exact ⟨by simp, by simp⟩
  · exact ⟨by simp, by simp⟩

/-- The law only depends on the invocations on the same socket. -/
theorem lawAt_of_filter {pre : List Finished} {i : Finished}
    (h : Fits (pre.filter (·.tag.call.sk = i.tag.call.sk)) →
      LawAt (pre.filter (·.tag.call.sk = i.tag.call.sk)) i) (hf : Fits pre) : LawAt pre i := by
  have hlatest : ∀ t₀,
      Latest ((pre.filter (·.tag.call.sk = i.tag.call.sk)).map lap) i.tag.call.sk t₀ ↔
        Latest (pre.map lap) i.tag.call.sk t₀ := by
    intro t₀
    have hq : ∀ j : Finished, j.tag.call.sk ≠ i.tag.call.sk → (lap j).Quiet i.tag.call.sk :=
      fun j => quiet_lap
    rw [← pending_eq_some_iff, ← pending_eq_some_iff, pending_map_filter hq]
  have := h (fits_filter hf _)
  simpa only [LawAt, hlatest] using this

section Law

variable {lit : String → Nat} {d : DataSection} {acts : List (Act SockPtr UInt64 Empty Invocation)}
  {c : Config SockPtr (Op ClientEvent) Op.Res (Kern ClientEvent) Invocation Int}

theorem lawful_of_run
    (h : (tracker ⟨lit, 0⟩).run ((tracker ⟨lit, 0⟩).init (Kern.boot d)) acts = some c) :
    Lawful (fun pre i => Fits pre → LawAt pre i) c.log := by
  have hholds : (watch lit).Holds c := by
    refine (watch lit).holds_run (fun k => ⟨⟨none, [], 0⟩, ⟨?_, rfl, ?_, lawful_nil⟩, ?_⟩) h
    · exact (BoundedMap.lookup_empty k).symm
    · exact UInt64.le_refl _
    · exact ⟨fun _ => rfl, fun t₀ ht₀ => by cases ht₀⟩
  refine lawful_of_filter (fun i : Finished => i.tag.call.sk) (fun pre i => lawAt_of_filter)
    (fun k => ?_)
  obtain ⟨v, ⟨-, hpast, -, hlaw⟩, -⟩ := hholds k
  exact hpast ▸ hlaw

theorem outLogged_of_run {P : Image}
    (h : (tracker P).run ((tracker P).init (Kern.boot d)) acts = some c) : OutLogged c := by
  refine System.run_induction (fun hc h => outLogged_step hc h) acts ⟨rfl, fun k th hk => ?_⟩ h
  cases hk

theorem lap_of_synSent {i : Finished} (h : i.tag.SynSent) : lap i = .stop i.tag.call.sk := by
  simp only [lap, h.1, h.2, if_pos]

/-- **The connect time, over every run.**  With `targ_min_us = 0`, whatever the
interleaving, and as long as the map had room for every note: every event obeys
the law, the events are those of the invocations that have returned, each time is
measured from one connect call, and no connect call is used by two events. -/
theorem connectTime_law
    (hrun : (tracker ⟨lit, 0⟩).run ((tracker ⟨lit, 0⟩).init (Kern.boot d)) acts = some c)
    (hfit : Fits c.log) :
    Lawful LawAt c.log ∧
      c.shared.out = c.log.flatMap (fun i => emitted i.trace) ∧
      (∀ pre i post t₀, c.log = pre ++ i :: post → i.tag.SynSent →
        Latest (pre.map lap) i.tag.call.sk t₀ →
          ∃ m, Stops (c.log.map lap) m pre.length ∧
            (c.log.map lap)[m]? = some (.start i.tag.call.sk t₀)) ∧
      ∀ m n n', Stops (c.log.map lap) m n → Stops (c.log.map lap) m n' → n = n' := by
  refine ⟨fun pre i post e => ?_, (outLogged_of_run hrun).1, fun pre i post t₀ e hs hl => ?_,
    fun m n n' => Stops.unique⟩
  · exact lawful_of_run hrun pre i post e (fun j hj => hfit j (by simp [e, hj]))
  · obtain ⟨m, hm, hstart⟩ := hl.stops (post.map lap)
    have hmap : c.log.map lap = pre.map lap ++ .stop i.tag.call.sk :: post.map lap := by
      rw [e, List.map_append, List.map_cons, lap_of_synSent hs]
    rw [hmap]
    rw [List.length_map] at hm
    refine ⟨m, hm, ?_⟩
    rw [List.getElem?_append_left (List.getElem?_eq_some_iff.mp hstart).1]
    exact hstart

end Law

/-- A TCP socket of family `AF_INET`, in the given state. -/
def exampleCall (sk : SockPtr) (state : UInt8) : Call where
  sk := sk
  sock := ⟨state, 53710, 3879, 2, 0x0100007f, 0x0100007f, {}, {}⟩
  tgid := 37759
  comm := .replicate _ 0

/-- Two sockets connect, the second while the handler of the first is under way;
then the first gets its answer, at 9 µs. -/
def exampleActs : List (Act SockPtr UInt64 Empty Invocation) :=
  [.spawn ⟨.tcpV4Connect, exampleCall 1 7⟩, .step 1 5000, .step 1 0,
    .spawn ⟨.tcpV4Connect, exampleCall 2 7⟩, .step 2 6000, .step 1 0, .step 1 0, .step 2 0,
    .step 1 0, .step 2 0, .step 2 0, .step 1 0, .step 2 0, .step 2 0,
    .spawn ⟨.tcpRcvStateProcess, exampleCall 1 2⟩, .step 1 9000, .step 1 0, .step 1 0, .step 1 0,
    .step 1 0, .step 1 0, .step 1 0, .step 1 0]

def exampleRun :=
  (tracker ⟨fun _ => 0, 0⟩).run ((tracker ⟨fun _ => 0, 0⟩).init (Kern.boot ⟨[]⟩)) exampleActs

theorem connectTime_law_interleaved :
    ∃ c, exampleRun = some c ∧ Fits c.log ∧ c.shared.out.map (·.2.tcpConnectTime) = [0, 0, 4] ∧
      Lawful LawAt c.log := by
  have h : exampleRun.map (fun c => (c.log.map (fun i => refused i.trace),
      c.shared.out.map (·.2.tcpConnectTime))) = some ([false, false, false], [0, 0, 4]) := by
    rfl
  obtain ⟨c, hc, he⟩ := Option.map_eq_some_iff.mp h
  obtain ⟨hlog, hout⟩ := Prod.mk.inj he
  have hfit : Fits c.log := by
    intro i hi
    have := List.mem_map_of_mem (f := fun i : Finished => refused i.trace) hi
    rw [hlog] at this
    simpa using this
  exact ⟨c, hc, hfit, hout, (connectTime_law hc hfit).1⟩

end NetworkAnalyse.Ebpf.Client
