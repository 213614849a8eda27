import NetworkAnalyse.Lib.BoundedMap
import NetworkAnalyse.Lib.DataSection
import NetworkAnalyse.Lib.Prog

/-!
# What the tracing programs read and call

The kernel's socket fields, `struct event` of the two headers, and the helper
calls of `tcp_analyse.bpf.c` and `tcp_analyse_service.bpf.c`.

A handler is a `Prog` over `Op`.  Its operations are the points at which it
touches something shared: the clock, the string constants, the `connect` map and
the perf buffers.  What the handler reads of its own socket and task is its
argument (`Call`): the kernel holds the socket lock while the handler runs.
-/

namespace NetworkAnalyse.Ebpf

open Lib

def afInet : Nat := 2
def afInet6 : Nat := 10
def tcpSynSent : UInt8 := 2
def e2big : Int := 7
def enoent : Int := 2

abbrev taskCommLen : Nat := 16
abbrev taskFuncLen : Nat := 32
abbrev tcpStateLen : Nat := 32
abbrev tcpDescriptionLen : Nat := 128

/-- The address of a `struct sock`. -/
abbrev SockPtr := UInt64

/-- Sixteen bytes of memory, as the four words of `in6_u.u6_addr32`. -/
structure U6Addr where
  w0 : UInt32 := 0
  w1 : UInt32 := 0
  w2 : UInt32 := 0
  w3 : UInt32 := 0
  deriving DecidableEq, Repr

/-- The fields of `__sk_common` that the handlers read.  `skcDport` and the
addresses are in network byte order, as the kernel keeps them. -/
structure Sock where
  skcState : UInt8
  skcNum : UInt16
  skcDport : UInt16
  skcFamily : UInt16
  skcRcvSaddr : UInt32
  skcDaddr : UInt32
  skcV6RcvSaddr : U6Addr
  skcV6Daddr : U6Addr
  deriving DecidableEq, Repr

/-- `struct event` of `tcp_analyse_service.h`.  `saddr` and `daddr` are the two
unions: `saddr_v4` is the first word of `saddr_v6`. -/
structure Event where
  saddr : U6Addr := {}
  daddr : U6Addr := {}
  comm : Vector UInt8 taskCommLen := .replicate _ 0
  func : Vector UInt8 taskFuncLen := .replicate _ 0
  tcpState : Vector UInt8 tcpStateLen := .replicate _ 0
  tcpDescription : Vector UInt8 tcpDescriptionLen := .replicate _ 0
  deltaUs : UInt64 := 0
  tsUs : UInt64 := 0
  tgid : UInt32 := 0
  af : Nat := 0
  lport : UInt16 := 0
  dport : UInt16 := 0
  deriving DecidableEq, Repr

/-- `struct event` of `tcp_analyse.h`: one field more. -/
structure ClientEvent extends Event where
  tcpConnectTime : UInt64 := 0
  deriving DecidableEq, Repr

structure Piddata where
  comm : Vector UInt8 taskCommLen
  ts : UInt64
  tgid : UInt32
  deriving DecidableEq, Repr

/-- The perf event arrays of the two programs. -/
inductive PerfBuf
  | events
  | tcpSendmsgEvents
  | tcpRecvmsgEvents
  deriving DecidableEq, Repr

/-- A loaded program: the offset of each of its string constants in the data
section, and its `targ_min_us`. -/
structure Image where
  lit : String → Nat
  targMinUs : UInt64

/-- What a handler is called with: its socket and the current task. -/
structure Call where
  sk : SockPtr
  sock : Sock
  tgid : UInt32
  comm : Vector UInt8 taskCommLen
  deriving DecidableEq, Repr

/-! ### Helper calls -/

inductive Op (ε : Type)
  | ktimeGetNs
  | memcpy (src n : Nat)
  | strcat (dst src : Nat)
  | mapLookupElem (key : SockPtr)
  | mapUpdateElem (key : SockPtr) (value : Piddata)
  | mapDeleteElem (key : SockPtr)
  | perfEventOutput (buf : PerfBuf) (event : ε)

@[reducible] def Op.Res {ε : Type} : Op ε → Type
  | ktimeGetNs => UInt64
  | memcpy _ n => Vector UInt8 n
  | strcat _ _ => Unit
  | mapLookupElem _ => Option Piddata
  | mapUpdateElem _ _ => Int
  | mapDeleteElem _ => Int
  | perfEventOutput _ _ => Int

abbrev Handler (ε α : Type) := Prog (Op ε) Op.Res α

variable {ε : Type}

def ktimeGetNs : Handler ε UInt64 := .perform Op.ktimeGetNs
def memcpy (src n : Nat) : Handler ε (Vector UInt8 n) := .perform (Op.memcpy src n)
def strcat (dst src : Nat) : Handler ε Unit := .perform (Op.strcat dst src)
def mapLookupElem (key : SockPtr) : Handler ε (Option Piddata) := .perform (Op.mapLookupElem key)
def mapUpdateElem (key : SockPtr) (value : Piddata) : Handler ε Int :=
  .perform (Op.mapUpdateElem key value)
def mapDeleteElem (key : SockPtr) : Handler ε Int := .perform (Op.mapDeleteElem key)
def perfEventOutput (buf : PerfBuf) (event : ε) : Handler ε Int :=
  .perform (Op.perfEventOutput buf event)

/-- The `max_entries` of the `connect` map. -/
abbrev connectMaxEntries : Nat := 4096

abbrev ConnectMap := BoundedMap SockPtr Piddata connectMaxEntries

/-- What the handlers share. -/
structure Kern (ε : Type) where
  /-- the latest clock reading -/
  clock : UInt64
  rodata : DataSection
  connect : ConnectMap
  /-- the events given to the perf buffers so far -/
  out : List (PerfBuf × ε)

/-- The kernel as it is when the program is loaded. -/
def Kern.boot (d : DataSection) : Kern ε := ⟨0, d, .empty, []⟩

/-- What a helper call does; `t` is the next clock reading, which is not before
the latest one. -/
def exec (t : UInt64) : (op : Op ε) → Kern ε → Option (op.Res × Kern ε)
  | .ktimeGetNs, s => if s.clock ≤ t then some (t, { s with clock := t }) else none
  | .memcpy src n, s => some (s.rodata.memcpy src n, s)
  | .strcat dst src, s => some ((), { s with rodata := s.rodata.strcat dst src })
  | .mapLookupElem key, s => some (s.connect.lookup key, s)
  | .mapUpdateElem key value, s =>
    match s.connect.update key value with
    | some m => some (0, { s with connect := m })
    | none => some (-e2big, s)
  | .mapDeleteElem key, s =>
    some (if key ∈ s.connect.keys then 0 else -enoent,
      { s with connect := s.connect.delete key })
  | .perfEventOutput buf event, s => some (0, { s with out := s.out ++ [(buf, event)] })

/-! ### What handlers have in common -/

/-- `get_tcp_state`: the constant that names a state. -/
def getTcpState (state : UInt8) : String :=
  match state.toNat with
  | 1 => "TCP_ESTABLISHED"
  | 2 => "TCP_SYN_SENT"
  | 3 => "TCP_SYN_RECV"
  | 4 => "TCP_FIN_WAIT1"
  | 5 => "TCP_FIN_WAIT2"
  | 6 => "TCP_TIME_WAIT"
  | 7 => "TCP_CLOSE"
  | 8 => "TCP_CLOSE_WAIT"
  | 9 => "TCP_LAST_ACK"
  | 10 => "TCP_LISTEN"
  | 11 => "TCP_CLOSING"
  | 12 => "TCP_NEW_SYN_RECV"
  | _ => "UNKNOWN_STATE"

/-- `if (event.af == AF_INET) ... else ...`: the addresses.  An IPv4 address
fills the first word of its union and leaves the rest as it was. -/
def Event.fillAddr (sock : Sock) (event : Event) : Event :=
  if event.af = afInet then
    { event with
      saddr := { event.saddr with w0 := sock.skcRcvSaddr }
      daddr := { event.daddr with w0 := sock.skcDaddr } }
  else
    { event with saddr := sock.skcV6RcvSaddr, daddr := sock.skcV6Daddr }

/-- The fields of the event that do not come from the string constants. -/
def Event.fill (c : Call) (ts : UInt64) (event : Event) : Event :=
  Event.fillAddr c.sock { event with
    comm := c.comm
    deltaUs := ts / 1000
    tsUs := ts / 1000
    tgid := c.tgid
    lport := c.sock.skcNum
    dport := c.sock.skcDport
    af := c.sock.skcFamily.toNat }

/-- `if (targ_min_us && event.delta_us < targ_min_us)`. -/
def Image.drops (P : Image) (ts : UInt64) : Prop :=
  P.targMinUs ≠ 0 ∧ ts / 1000 < P.targMinUs

instance (P : Image) (ts : UInt64) : Decidable (P.drops ts) :=
  inferInstanceAs (Decidable (P.targMinUs ≠ 0 ∧ ts / 1000 < P.targMinUs))

/-- The shape most handlers have: read the clock, drop the event if it is too
early, copy the three texts, fill in the rest, and go on with `k`. -/
def traceSock (P : Image) (func description : String) (c : Call)
    (k : UInt64 → Event → Handler ε Int) : Handler ε Int := do
  let ts ← ktimeGetNs
  if P.drops ts then
    return 0
  let func ← memcpy (P.lit func) taskFuncLen
  let tcpDescription ← memcpy (P.lit description) tcpDescriptionLen
  let tcpState ← memcpy (P.lit (getTcpState c.sock.skcState)) tcpStateLen
  k ts (Event.fill c ts { func, tcpDescription, tcpState })

end NetworkAnalyse.Ebpf
