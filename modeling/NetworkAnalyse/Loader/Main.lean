import NetworkAnalyse.Lib.Prog

/-!
# The XDP loader

`main` of `xdp/xdp_packet_load.c`, with `load_bpf_and_xdp_attach` and `do_unload`
of `common/common_user_bpf_xdp.c`.  The calls into libxdp and libbpf are the
operations of a `Prog`; how each of them turns out is up to the environment
(`Outcomes`), and what it does to the interface is `exec`.

libxdp keeps any number of programs on one interface behind a dispatcher, or one
program without a dispatcher (a *legacy* program), and one program in hardware.  A
detach is several calls of the kernel in a row, and stops at the first that fails, so
an error of libxdp does not mean that nothing has been detached (`multiprogDetach`,
`programDetach`).
-/

namespace NetworkAnalyse.Loader

open Lib

def exitOk : Int := 0
def exitFailure : Int := 1
def exitFailOption : Int := 2
def exitFailBpf : Int := 40
def enoent : Int := 2
def eintr : Int := 4
def einval : Int := 22

abbrev ProgId := UInt32

inductive AttachMode
  | unspec
  | native
  | skb
  | hw
  deriving DecidableEq, Repr

/-- The fields of `struct config` that are read after the command line. -/
structure Config where
  attachMode : AttachMode
  ifindex : Int
  doUnload : Bool
  progId : ProgId
  unloadAll : Bool
  deriving DecidableEq, Repr

/-! ### The interface -/

structure Iface where
  /-- the programs behind the dispatcher, or the legacy program -/
  progs : List ProgId
  legacy : Bool
  mode : AttachMode
  hw : Option ProgId
  deriving DecidableEq, Repr

namespace Iface

def attached (i : Iface) : List ProgId := i.progs ++ i.hw.toList

def empty : Iface := ⟨[], false, .unspec, none⟩

/-- `none`: libxdp does not add a program next to a legacy one, or a second one in hardware. -/
def attach (i : Iface) (mode : AttachMode) (p : ProgId) : Option Iface :=
  if mode = .hw then
    if i.hw = none then some { i with hw := some p } else none
  else if i.legacy then none
  else some { i with progs := i.progs ++ [p], mode := mode }

def detach (i : Iface) (p : ProgId) : Iface :=
  { i with
    progs := i.progs.filter (· ≠ p)
    legacy := i.legacy && decide (i.progs.filter (· ≠ p) ≠ [])
    hw := i.hw.filter (· ≠ p) }

end Iface

/-- `struct xdp_multiprog`: the programs of an interface at one moment. -/
abbrev Multiprog := Iface

/-- `xdp_program__id`; `NULL` has the id 0. -/
def xdpProgramId (prog : Option ProgId) : ProgId := prog.getD 0

/-- The programs that `xdp_multiprog__next_prog` goes through: none if `mp` is legacy. -/
def nextProgs (mp : Multiprog) : List ProgId := if mp.legacy then [] else mp.progs

/-- The search of `do_unload` for a program with the given id, and the mode it is
attached in. -/
def findProg (mp : Multiprog) (progId : ProgId) : Option (Option ProgId × AttachMode) :=
  match (nextProgs mp).find? (· = progId) with
  | some prog => some (some prog, mp.mode)
  | none =>
    if mp.legacy ∧ xdpProgramId mp.progs.head? = progId then some (mp.progs.head?, mp.mode)
    else if xdpProgramId mp.hw = progId then some (mp.hw, .hw)
    else none

/-! ### Library calls -/

inductive Op
  | signal
  | xdpProgramCreate
  | xdpProgramAttach (mode : AttachMode)
  | xdpProgramFd
  | findMapByName (name : String)
  | ringBufferNew
  | ringBufferPoll (rb : Bool)
  | ringBufferFree (rb : Bool)
  | multiprogGetFromIfindex
  | multiprogDetach (mp : Multiprog)
  | programDetach (prog : Option ProgId) (mode : AttachMode)
  | multiprogClose

/-- `ring_buffer__new` is answered by whether it is a ring buffer or `NULL`.
`ring_buffer__poll` is answered by `none` if the call faults. -/
@[reducible] def Op.Res : Op → Type
  | signal => Bool
  | xdpProgramCreate => Int
  | xdpProgramAttach _ => Int
  | xdpProgramFd => Int
  | findMapByName _ => Int
  | ringBufferNew => Bool
  | ringBufferPoll _ => Option Int
  | ringBufferFree _ => Unit
  | multiprogGetFromIfindex => Except Int (Option Multiprog)
  | multiprogDetach _ => Int
  | programDetach _ _ => Int
  | multiprogClose => Unit

/-- How the process ends. -/
inductive Exit
  | exit (status : Int)
  | segfault
  deriving DecidableEq, Repr

abbrev M (α : Type) := Prog Op Op.Res α

def call (op : Op) : M op.Res := .perform op

/-! ### The loader -/

/-- `load_bpf_and_xdp_attach`; an error is a call of `exit`. -/
def loadBpfAndXdpAttach (cfg : Config) : M (Except Exit Unit) := do
  let err ← call .xdpProgramCreate
  if err ≠ 0 then
    return .error (.exit exitFailBpf)
  let err ← call (.xdpProgramAttach cfg.attachMode)
  if err ≠ 0 then
    return .error (.exit err)
  let progFd ← call .xdpProgramFd
  if progFd < 0 then
    return .error (.exit exitFailBpf)
  return .ok ()

def doUnload (cfg : Config) : M Int := do
  match ← call .multiprogGetFromIfindex with
  | .error _ =>
    call .multiprogClose
    return exitFailure
  | .ok none =>
    call .multiprogClose
    return exitFailure
  | .ok (some mp) =>
    let err ←
      if cfg.unloadAll then call (.multiprogDetach mp)
      else
        match findProg mp cfg.progId with
        | some (prog, mode) => call (.programDetach prog mode)
        | none => pure (-enoent)
    call .multiprogClose
    return if err ≠ 0 then exitFailure else exitOk

/-- `while (!exiting)`.  The signal comes before the test of `exiting` that follows
`sigint` polls. -/
def pollLoop (rb : Bool) : (sigint : Nat) → M (Except Exit Unit)
  | 0 => return .ok ()
  | sigint + 1 => do
    match ← call (.ringBufferPoll rb) with
    | none => return .error .segfault
    | some err =>
      -- both breaks leave the loop; `err` is written again below it
      if err = -eintr then
        return .ok ()
      if err < 0 then
        return .ok ()
      pollLoop rb sigint

/-- The end of `main`, after the poll loop. -/
def finish (cfg : Config) (rb : Bool) : M Exit := do
  call (.ringBufferFree rb)
  let err ← doUnload { cfg with unloadAll := true }
  return .exit (if err < 0 then -err else exitOk)

/-- The part of `main` that monitors, once the program is attached. -/
def monitorPackets (cfg : Config) (sigint : Nat) : M Exit := do
  let statsMapFd ← call (.findMapByName "packet_ringbuf")
  if statsMapFd < 0 then
    return .exit exitFailBpf
  let rb ← call .ringBufferNew
  -- without a ring buffer `main` prints a message and goes on
  match ← pollLoop rb sigint with
  | .error e => return e
  | .ok () => finish cfg rb

/-- `main`, with the configuration that `parse_cmdline_args` has made. -/
def main (cfg : Config) (sigint : Nat) : M Exit := do
  if !(← call .signal) then
    return .exit 1
  if cfg.ifindex = -1 then
    return .exit exitFailOption
  if cfg.doUnload || cfg.unloadAll then
    let err ← doUnload cfg
    if err ≠ 0 then
      return .exit err
    return .exit exitOk
  match ← loadBpfAndXdpAttach cfg with
  | .error e => return e
  | .ok () => monitorPackets cfg sigint

/-- Neither `--unload` nor `--unload-all` is given, and the device is. -/
structure Config.Monitoring (cfg : Config) : Prop where
  ifindex : cfg.ifindex ≠ -1
  doUnload : cfg.doUnload = false
  unloadAll : cfg.unloadAll = false

/-! ### What the calls do -/

/-- How the library calls turn out, and the steps of a detach. -/
structure Outcomes where
  signal : Bool
  create : Int
  attach : Int
  /-- the id that the kernel gives to the loaded program -/
  progId : ProgId
  fd : Int
  mapFd : Int
  ringBuffer : Bool
  poll : Nat → Int
  /-- 0, an error, or a positive number for `NULL` -/
  get : Int
  /-- taking the program in hardware off -/
  detachHw : Int
  /-- taking the dispatcher or the legacy program off, or replacing the dispatcher -/
  detachMain : Int
  /-- `xdp_multiprog__unpin` -/
  unpin : Int

/-- What a detach has done: its result, the programs that are off, and the interface. -/
structure Detached where
  err : Int
  taken : List ProgId
  iface : Iface
  deriving DecidableEq, Repr

/-- The part of `xdp_multiprog__detach` for `main_prog`. -/
def Outcomes.mainDetach (o : Outcomes) (mp : Multiprog) (i : Iface) : Detached :=
  if mp.progs = [] then ⟨0, [], i⟩
  else if o.detachMain ≠ 0 then ⟨o.detachMain, [], i⟩
  else
    ⟨if mp.legacy then 0 else o.unpin, i.progs,
      { i with progs := [], legacy := false, mode := .unspec }⟩

/-- `xdp_multiprog__detach`, on an interface that others may have changed since `mp`
was read. -/
def Outcomes.multiprogDetach (o : Outcomes) (mp : Multiprog) (i : Iface) : Detached :=
  if mp.hw = none then o.mainDetach mp i
  else if o.detachHw ≠ 0 then ⟨o.detachHw, [], i⟩
  else
    let d := o.mainDetach mp { i with hw := none }
    { d with taken := i.hw.toList ++ d.taken }

/-- `xdp_program__detach`, which reads the interface anew. -/
def Outcomes.programDetach (o : Outcomes) (i : Iface) (p : ProgId) (mode : AttachMode) :
    Detached :=
  if i.attached = [] then ⟨-enoent, [], i⟩
  else if (mode = .hw ∨ i.legacy) ∧ p = 0 then ⟨-einval, [], i⟩
  else if mode = .hw then
    if xdpProgramId i.hw ≠ p then ⟨-enoent, [], i⟩
    else if o.detachHw ≠ 0 then ⟨o.detachHw, [], i⟩
    else ⟨0, [p], i.detach p⟩
  else if i.legacy ∧ xdpProgramId i.progs.head? ≠ p then ⟨-enoent, [], i⟩
  else if mode ≠ .unspec ∧ i.mode ≠ mode then ⟨-enoent, [], i⟩
  else if p = 0 then ⟨-einval, [], i⟩
  else if p ∉ i.progs then ⟨-enoent, [], i⟩
  else if o.detachMain ≠ 0 then ⟨o.detachMain, [], i⟩
  -- the old dispatcher's pins count only if no new dispatcher takes its place
  else ⟨if i.legacy = false ∧ i.progs.length = 1 then o.unpin else 0, [p], i.detach p⟩

structure World where
  iface : Iface
  /-- the programs that the loader has attached -/
  owned : List ProgId
  /-- the programs of others that the loader has detached -/
  foreign : List ProgId
  /-- the programs that somebody else has detached -/
  byOthers : List ProgId
  polls : Nat
  /-- `ring_buffer__poll` has been called with `NULL` -/
  nullPoll : Bool

def World.boot (iface : Iface) : World := ⟨iface, [], [], [], 0, false⟩

/-- The loader has made the detach `d`. -/
def World.lose (w : World) (d : Detached) : World :=
  { w with
    iface := d.iface
    foreign := w.foreign ++ d.taken.filter (· ∉ w.owned) }

def exec (o : Outcomes) : (op : Op) → World → Option (op.Res × World)
  | .signal, w => some (o.signal, w)
  | .xdpProgramCreate, w => some (o.create, w)
  | .xdpProgramAttach mode, w =>
    if o.attach = 0 then
      if o.progId ∈ w.iface.attached then none
      else (w.iface.attach mode o.progId).map fun i =>
        (0, { w with iface := i, owned := w.owned ++ [o.progId] })
    else some (o.attach, w)
  | .xdpProgramFd, w => some (o.fd, w)
  | .findMapByName _, w => some (o.mapFd, w)
  | .ringBufferNew, w => some (o.ringBuffer, w)
  | .ringBufferPoll rb, w =>
    if rb then some (some (o.poll w.polls), { w with polls := w.polls + 1 })
    else some (none, { w with nullPoll := true })
  | .ringBufferFree _, w => some ((), w)
  | .multiprogGetFromIfindex, w =>
    if o.get < 0 then some (.error o.get, w)
    else if 0 < o.get then some (.ok none, w)
    else if w.iface.attached = [] then some (.error (-enoent), w)
    else some (.ok (some w.iface), w)
  | .multiprogDetach mp, w =>
    let d := o.multiprogDetach mp w.iface
    some (d.err, w.lose d)
  | .programDetach none _, w => some (-einval, w)
  | .programDetach (some p) mode, w =>
    let d := o.programDetach w.iface p mode
    some (d.err, w.lose d)
  | .multiprogClose, w => some ((), w)

end NetworkAnalyse.Loader
