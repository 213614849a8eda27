import NetworkAnalyse.Ebpf.Helpers

/-!
# The client's handlers

`ebpf_for_client/tcp_analyse.bpf.c`.  `handle_tcp_v4_connect` notes in the
`connect` map when a socket starts to connect, and `handle_tcp_rcv_state_process`
takes the note out again when it sees the socket in `TCP_SYN_SENT`, and reports
the time between.

`Client.invoke` runs one hook from its start to its end; the `invoke_…` lemmas say
what that does to the kernel's state.
-/

namespace NetworkAnalyse.Ebpf.Client

open Lib

def handleTcpSendmsg (P : Image) (c : Call) : Handler ClientEvent Int :=
  traceSock P "tcp_sendmsg" "client send message" c fun _ event => do
    let _ ← perfEventOutput .tcpSendmsgEvents { toEvent := event }
    return 0

def handleTcpRcvStateProcess (P : Image) (c : Call) : Handler ClientEvent Int := do
  let ts ← ktimeGetNs
  if P.drops ts then
    return 0
  let state := c.sock.skcState
  let description := P.lit "transfer into new state"
  -- the constant itself is appended to
  strcat description (P.lit (getTcpState state))
  let tcpDescription ← memcpy description tcpDescriptionLen
  let func ← memcpy (P.lit "tcp_rcv_state_process") taskFuncLen
  let tcpState ← memcpy (P.lit (getTcpState state)) tcpStateLen
  let mut event : ClientEvent :=
    { toEvent := Event.fill c ts { func, tcpDescription, tcpState }, tcpConnectTime := 0 }
  if c.sock.skcState = tcpSynSent then
    match ← mapLookupElem c.sk with
    | none =>
      let _ ← mapDeleteElem c.sk
    | some pd =>
      event := { event with tcpConnectTime := event.tsUs - pd.ts }
      let _ ← mapDeleteElem c.sk
  let _ ← perfEventOutput .events event
  return 0

def handleTcpV4Connect (P : Image) (c : Call) : Handler ClientEvent Int :=
  traceSock P "tcp_v4_connect" "client send SYN packet" c fun ts event => do
    let pd : Piddata := { comm := c.comm, tgid := c.tgid, ts := ts / 1000 }
    let _ ← mapUpdateElem c.sk pd
    let _ ← perfEventOutput .events { toEvent := event, tcpConnectTime := 0 }
    return 0

/-- The kernel functions that have an `fentry` program. -/
inductive Hook
  | tcpRcvStateProcess
  | tcpV4Connect
  | tcpSendmsg
  deriving DecidableEq, Repr

/-- `fentry_tcp_rcv_state_process`, `fentry_tcp_v4_connect`, `fentry_tcp_sendmsg`. -/
def fentry (P : Image) (c : Call) : Hook → Handler ClientEvent Int
  | .tcpRcvStateProcess => handleTcpRcvStateProcess P c
  | .tcpV4Connect => handleTcpV4Connect P c
  | .tcpSendmsg => handleTcpSendmsg P c

/-- One firing of a hook, from start to end, with the clock reading `t`. -/
def invoke (P : Image) (t : UInt64) (h : Hook) (c : Call) (s : Kern ClientEvent) :
    Option (Kern ClientEvent) :=
  ((fentry P c h).run (exec t) s).map Prod.snd

/-! ### What a firing does -/

/-- The event of `handle_tcp_sendmsg` over the string constants `d`. -/
def sendmsgEvent (lit : String → Nat) (c : Call) (t : UInt64) (d : DataSection) : ClientEvent where
  toEvent := Event.fill c t
    { func := d.memcpy (lit "tcp_sendmsg") _
      tcpDescription := d.memcpy (lit "client send message") _
      tcpState := d.memcpy (lit (getTcpState c.sock.skcState)) _ }

/-- The event of `handle_tcp_v4_connect` over the string constants `d`. -/
def connectEvent (lit : String → Nat) (c : Call) (t : UInt64) (d : DataSection) : ClientEvent where
  toEvent := Event.fill c t
    { func := d.memcpy (lit "tcp_v4_connect") _
      tcpDescription := d.memcpy (lit "client send SYN packet") _
      tcpState := d.memcpy (lit (getTcpState c.sock.skcState)) _ }

/-- The string constants after `strcat(description, state_str)`. -/
def describe (lit : String → Nat) (c : Call) (d : DataSection) : DataSection :=
  d.strcat (lit "transfer into new state") (lit (getTcpState c.sock.skcState))

/-- The event of `handle_tcp_rcv_state_process` over the string constants `d`,
with the connect time `dt`. -/
def rcvEvent (lit : String → Nat) (c : Call) (t : UInt64) (d : DataSection) (dt : UInt64) :
    ClientEvent where
  toEvent := Event.fill c t
    { func := d.memcpy (lit "tcp_rcv_state_process") _
      tcpDescription := d.memcpy (lit "transfer into new state") _
      tcpState := d.memcpy (lit (getTcpState c.sock.skcState)) _ }
  tcpConnectTime := dt

/-- What `handle_tcp_v4_connect` notes. -/
def connectNote (c : Call) (t : UInt64) : Piddata := ⟨c.comm, t / 1000, c.tgid⟩

/-- The connect time that the map gives at `t` for a socket in `TCP_SYN_SENT`. -/
def connectTime (t : UInt64) : Option Piddata → UInt64
  | none => 0
  | some pd => t / 1000 - pd.ts

@[simp] theorem tsUs_fillAddr (sock : Sock) (e : Event) : (e.fillAddr sock).tsUs = e.tsUs := by
  unfold Event.fillAddr
  split <;> rfl

@[simp] theorem deltaUs_fillAddr (sock : Sock) (e : Event) :
    (e.fillAddr sock).deltaUs = e.deltaUs := by
  unfold Event.fillAddr
  split <;> rfl

@[simp] theorem tsUs_fill (c : Call) (t : UInt64) (e : Event) : (e.fill c t).tsUs = t / 1000 := by
  rw [Event.fill, tsUs_fillAddr]

@[simp] theorem deltaUs_fill (c : Call) (t : UInt64) (e : Event) :
    (e.fill c t).deltaUs = t / 1000 := by
  rw [Event.fill, deltaUs_fillAddr]

variable {P : Image} {t : UInt64} {c : Call} {s : Kern ClientEvent}

/-- The clock reading of a firing is not before the one before it. -/
theorem clock_le_of_invoke {h : Hook} {s' : Kern ClientEvent} (hi : invoke P t h c s = some s') :
    s.clock ≤ t := by
  rw [invoke, Option.map_eq_some_iff] at hi
  obtain ⟨p, hp, -⟩ := hi
  by_contra hlt
  cases h <;>
    simp [fentry, handleTcpSendmsg, handleTcpV4Connect, handleTcpRcvStateProcess, traceSock,
      ktimeGetNs, exec, hlt] at hp

/-- Below the threshold a firing only reads the clock. -/
theorem invoke_of_drops (h : Hook) (ht : s.clock ≤ t) (hd : P.drops t) :
    invoke P t h c s = some { s with clock := t } := by
  cases h <;>
    simp [invoke, fentry, handleTcpSendmsg, handleTcpV4Connect, handleTcpRcvStateProcess, traceSock,
      ktimeGetNs, exec, ht, hd]

theorem invoke_sendmsg (ht : s.clock ≤ t) (hd : ¬ P.drops t) :
    invoke P t .tcpSendmsg c s = some { s with
      clock := t
      out := s.out ++ [(.tcpSendmsgEvents, sendmsgEvent P.lit c t s.rodata)] } := by
  simp [invoke, fentry, handleTcpSendmsg, traceSock, ktimeGetNs, memcpy, perfEventOutput, exec,
    ht, hd, sendmsgEvent]

theorem invoke_connect (ht : s.clock ≤ t) (hd : ¬ P.drops t) :
    invoke P t .tcpV4Connect c s = some { s with
      clock := t
      connect := (s.connect.update c.sk (connectNote c t)).getD s.connect
      out := s.out ++ [(.events, connectEvent P.lit c t s.rodata)] } := by
  cases hm : s.connect.update c.sk (connectNote c t) <;>
    simp_all [invoke, fentry, handleTcpV4Connect, traceSock, ktimeGetNs, memcpy, perfEventOutput,
      mapUpdateElem, exec, connectNote, connectEvent]

/-- In `TCP_SYN_SENT` the note of the socket is used and removed. -/
theorem invoke_rcv_of_synSent (ht : s.clock ≤ t) (hd : ¬ P.drops t)
    (hs : c.sock.skcState = tcpSynSent) :
    invoke P t .tcpRcvStateProcess c s = some { s with
      clock := t
      rodata := describe P.lit c s.rodata
      connect := s.connect.delete c.sk
      out := s.out ++ [(.events, rcvEvent P.lit c t (describe P.lit c s.rodata)
        (connectTime t (s.connect.lookup c.sk)))] } := by
  cases hm : s.connect.lookup c.sk <;>
    simp_all [invoke, fentry, handleTcpRcvStateProcess, ktimeGetNs, memcpy, strcat, perfEventOutput,
      mapLookupElem, mapDeleteElem, exec, describe, rcvEvent, connectTime]

/-- In any other state the map is not looked at. -/
theorem invoke_rcv_of_ne (ht : s.clock ≤ t) (hd : ¬ P.drops t)
    (hs : c.sock.skcState ≠ tcpSynSent) :
    invoke P t .tcpRcvStateProcess c s = some { s with
      clock := t
      rodata := describe P.lit c s.rodata
      out := s.out ++ [(.events, rcvEvent P.lit c t (describe P.lit c s.rodata) 0)] } := by
  simp_all [invoke, fentry, handleTcpRcvStateProcess, ktimeGetNs, memcpy, strcat, perfEventOutput,
    exec, describe, rcvEvent]

end NetworkAnalyse.Ebpf.Client
