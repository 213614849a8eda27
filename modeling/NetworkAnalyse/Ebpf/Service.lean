import NetworkAnalyse.Ebpf.Helpers

/-!
# The service's handlers

`ebpf_for_service/tcp_analyse_service.bpf.c`.  Every handler describes its socket
in one event; `handle_tcp_recvmsg` has a perf buffer of its own.

`Service.tick` runs one hook from its start to its end, and `tick_eq` says what that
does, for all hooks at once.
-/

namespace NetworkAnalyse.Ebpf.Service

open Lib

def handleTcpV4DoRcv (P : Image) (c : Call) : Handler Event Int := do
  let ts ← ktimeGetNs
  if P.drops ts then
    return 0
  -- the texts are copied in another order than in the other handlers
  let tcpDescription ← memcpy (P.lit "rcv ack") tcpDescriptionLen
  let func ← memcpy (P.lit "tcp_v4_do_rcv") taskFuncLen
  let tcpState ← memcpy (P.lit (getTcpState c.sock.skcState)) tcpStateLen
  let _ ← perfEventOutput .events (Event.fill c ts { func, tcpDescription, tcpState })
  return 0

/-- The handlers that differ in their texts and in the perf buffer only. -/
def report (P : Image) (func description : String) (buf : PerfBuf) (c : Call) : Handler Event Int :=
  traceSock P func description c fun _ event => do
    let _ ← perfEventOutput buf event
    return 0

def handleTcpV4Rcv (P : Image) (c : Call) : Handler Event Int :=
  report P "tcp_v4_rcv" "server receive SYN packet" .events c

def handleTcpRecvmsg (P : Image) (c : Call) : Handler Event Int :=
  report P "tcp_recvmsg" "server receive message" .tcpRecvmsgEvents c

def handleTcpRcvStateProcess (P : Image) (c : Call) : Handler Event Int :=
  report P "tcp_rcv_state_process" "server state change" .events c

/-- The kernel functions that have an `fentry` program. -/
inductive Hook
  | tcpRcvStateProcess
  | tcpV4DoRcv
  | tcpRecvmsg
  | tcpV4Rcv
  deriving DecidableEq, Repr

/-- `fentry_tcp_rcv_state_process`, `fentry_tcp_v4_do_rcv`, `fentry_tcp_recvmsg`,
`fentry_tcp_v4_rcv`. -/
def fentry (P : Image) (c : Call) : Hook → Handler Event Int
  | .tcpRcvStateProcess => handleTcpRcvStateProcess P c
  | .tcpV4DoRcv => handleTcpV4DoRcv P c
  | .tcpRecvmsg => handleTcpRecvmsg P c
  | .tcpV4Rcv => handleTcpV4Rcv P c

/-! ### What a firing does -/

namespace Hook

def func : Hook → String
  | tcpRcvStateProcess => "tcp_rcv_state_process"
  | tcpV4DoRcv => "tcp_v4_do_rcv"
  | tcpRecvmsg => "tcp_recvmsg"
  | tcpV4Rcv => "tcp_v4_rcv"

def description : Hook → String
  | tcpRcvStateProcess => "server state change"
  | tcpV4DoRcv => "rcv ack"
  | tcpRecvmsg => "server receive message"
  | tcpV4Rcv => "server receive SYN packet"

end Hook

/-- A hook that fires, and the clock reading of its handler. -/
structure Tick where
  hook : Hook
  call : Call
  t : UInt64

/-- The event of a handler over the string constants `d`. -/
def Tick.event (i : Tick) (lit : String → Nat) (d : DataSection) : Event :=
  Event.fill i.call i.t
    { func := d.memcpy (lit i.hook.func) _
      tcpDescription := d.memcpy (lit i.hook.description) _
      tcpState := d.memcpy (lit (getTcpState i.call.sock.skcState)) _ }

def tick (P : Image) (s : Kern Event) (i : Tick) : Option (Kern Event) :=
  ((fentry P i.call i.hook).run (exec i.t) s).map Prod.snd

/-- Firings one after the other. -/
def ticks (P : Image) (s : Kern Event) (l : List Tick) : Option (Kern Event) :=
  l.foldlM (tick P) s

variable {P : Image} {s s' : Kern Event} {i : Tick}

theorem clock_le_of_tick (h : tick P s i = some s') : s.clock ≤ i.t := by
  obtain ⟨hook, c, t⟩ := i
  rw [tick, Option.map_eq_some_iff] at h
  obtain ⟨p, hp, -⟩ := h
  by_contra hlt
  cases hook <;>
    simp [fentry, handleTcpRcvStateProcess, handleTcpV4DoRcv, handleTcpRecvmsg, handleTcpV4Rcv,
      report, traceSock, ktimeGetNs, exec, hlt] at hp

theorem tick_of_drops (ht : s.clock ≤ i.t) (hd : P.drops i.t) :
    tick P s i = some { s with clock := i.t } := by
  obtain ⟨hook, c, t⟩ := i
  cases hook <;>
    simp_all [tick, fentry, handleTcpRcvStateProcess, handleTcpV4DoRcv, handleTcpRecvmsg,
      handleTcpV4Rcv, report, traceSock, ktimeGetNs, exec]

/-- **A firing that is not dropped**, whatever the hook: the constants are only read. -/
theorem tick_eq (ht : s.clock ≤ i.t) (hd : ¬ P.drops i.t) :
    ∃ buf, tick P s i = some { s with
      clock := i.t
      out := s.out ++ [(buf, i.event P.lit s.rodata)] } := by
  obtain ⟨hook, c, t⟩ := i
  cases hook <;>
    simp_all [tick, fentry, handleTcpRcvStateProcess, handleTcpV4DoRcv, handleTcpRecvmsg,
      handleTcpV4Rcv, report, traceSock, ktimeGetNs, memcpy, perfEventOutput, exec, Hook.func,
      Hook.description, Tick.event]

end NetworkAnalyse.Ebpf.Service
