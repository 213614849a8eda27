import NetworkAnalyse.Ebpf.Helpers

/-!
# The tracing tools

`main` of `ebpf_for_client/tcp_analyse.c` and of
`ebpf_for_service/tcp_analyse_service.c`.  The two have the same shape: parse the
command line, open, load and attach the programs, open two perf buffers and poll them
in turn until `SIGINT`.  What the calls are answered is left open.

`fentry_can_attach` only chooses which programs are loaded, and is left out.
-/

namespace NetworkAnalyse.Ebpf

open Lib

/-- `EINTR`. -/
def eintr : Int := 4

inductive ToolOp
  | argpParse
  | bpfOpen
  | bpfLoad
  | bpfAttach
  | perfBufferNew (buf : PerfBuf)
  | signal
  | perfBufferPoll (buf : PerfBuf)
  | perfBufferFree (buf : PerfBuf)
  | bpfDestroy

/-- `bpfOpen` and `perfBufferNew` are answered by whether they give a pointer, `signal`
by whether it is not `SIG_ERR`. -/
@[reducible] def ToolOp.Res : ToolOp → Type
  | argpParse => Int
  | bpfOpen => Bool
  | bpfLoad => Int
  | bpfAttach => Int
  | perfBufferNew _ => Bool
  | signal => Bool
  | perfBufferPoll _ => Int
  | perfBufferFree _ => Unit
  | bpfDestroy => Unit

abbrev Tool (α : Type) := Prog ToolOp ToolOp.Res α

def ToolOp.call (op : ToolOp) : Tool op.Res := .perform op

/-- How `main` leaves its straight path: it returns, or it goes to `cleanup` with `err`. -/
inductive Jump
  | exit (status : Int)
  | cleanup (err : Int)
  deriving DecidableEq, Repr

/-- `main` up to the attach. -/
def prepare : Tool (Except Jump Unit) := do
  let err ← ToolOp.argpParse.call
  if err ≠ 0 then
    return .error (.exit err)
  if !(← ToolOp.bpfOpen.call) then
    return .error (.exit 1)
  let err ← ToolOp.bpfLoad.call
  if err ≠ 0 then
    return .error (.cleanup err)
  let err ← ToolOp.bpfAttach.call
  if err ≠ 0 then
    return .error (.cleanup err)
  return .ok ()

/-- `while (!exiting)`.  The signal comes before the test of `exiting` that follows
`sigint` passes; the result is `err`, which every pass resets. -/
def pollLoop (second : PerfBuf) : (sigint : Nat) → Tool Int
  | 0 => return 0
  | sigint + 1 => do
    let err ← (ToolOp.perfBufferPoll .events).call
    if err < 0 ∧ err ≠ -eintr then
      return err
    let err ← (ToolOp.perfBufferPoll second).call
    if err < 0 ∧ err ≠ -eintr then
      return err
    pollLoop second sigint

/-- The signal handler and the loop. -/
def watch (second : PerfBuf) (sigint : Nat) : Tool Int := do
  if !(← ToolOp.signal.call) then
    return 1
  pollLoop second sigint

def cleanup (second : PerfBuf) (err : Int) : Tool Int := do
  (ToolOp.perfBufferFree .events).call
  (ToolOp.perfBufferFree second).call
  ToolOp.bpfDestroy.call
  return if err ≠ 0 then 1 else 0

/-- What the two have in common: `rest` is `main` after the attach. -/
def tool (second : PerfBuf) (rest : Tool Int) : Tool Int := do
  match ← prepare with
  | .error (.exit status) => return status
  | .error (.cleanup err) => cleanup second err
  | .ok () => rest

/-- `main` of `tcp_analyse.c`. -/
def Client.main (sigint : Nat) : Tool Int :=
  tool .tcpSendmsgEvents do
    let pb ← (ToolOp.perfBufferNew .events).call
    let tcpSendmsgPb ← (ToolOp.perfBufferNew .tcpSendmsgEvents).call
    -- `err` is still the 0 of the attach
    if !tcpSendmsgPb then
      cleanup .tcpSendmsgEvents 0
    else if !pb then
      cleanup .tcpSendmsgEvents 0
    else
      let err ← watch .tcpSendmsgEvents sigint
      cleanup .tcpSendmsgEvents err

/-- `main` of `tcp_analyse_service.c`; it tests the two pointers in the other order. -/
def Service.main (sigint : Nat) : Tool Int :=
  tool .tcpRecvmsgEvents do
    let pb ← (ToolOp.perfBufferNew .events).call
    let tcpRecvmsgPb ← (ToolOp.perfBufferNew .tcpRecvmsgEvents).call
    if !pb then
      cleanup .tcpRecvmsgEvents 0
    else if !tcpRecvmsgPb then
      cleanup .tcpRecvmsgEvents 0
    else
      let err ← watch .tcpRecvmsgEvents sigint
      cleanup .tcpRecvmsgEvents err

end NetworkAnalyse.Ebpf
