import NetworkAnalyse.Ebpf.Client
import NetworkAnalyse.Ebpf.Service
import NetworkAnalyse.Lib.Bytes

/-!
# From the socket to the printed line

The callbacks of `tcp_analyse.c` and `tcp_analyse_service.c`.  A callback copies the
addresses of its event into two unions on its stack and gives these to `inet_ntop`.
The unions are not initialised, so what they hold at first is an argument here.

* `Event.Describes`: the event holds the addresses and ports of the socket.  Every
  event of every handler does (`calls_client`, `calls_service`).
* `Line.Names`: the line shows the addresses and ports of the socket.
* `names_loadX4_iff`, `names_loadAf`: which way of filling the unions keeps them.
* `roundTrip_iff`: which handlers and sockets are shown right.
-/

namespace NetworkAnalyse.Ebpf

open Lib Bytes

/-! ### The callbacks -/

/-- The options of `env` that the callbacks look at. -/
structure Env where
  pid : Int32
  lport : Bool
  deriving DecidableEq, Repr

/-- The sixteen bytes, as they lie in memory. -/
def U6Addr.bytes (u : U6Addr) : List UInt8 :=
  bytes32 u.w0 ++ bytes32 u.w1 ++ bytes32 u.w2 ++ bytes32 u.w3

/-- The two unions on the stack of a callback. -/
structure Locals where
  s : U6Addr
  d : U6Addr
  deriving DecidableEq, Repr

/-- `s.x4.s_addr = e->saddr_v4; d.x4.s_addr = e->daddr_v4;` -/
def Locals.loadX4 (l : Locals) (e : Event) : Locals where
  s := { l.s with w0 := e.saddr.w0 }
  d := { l.d with w0 := e.daddr.w0 }

/-- By family: the first word, all sixteen bytes, or nothing. -/
def Locals.loadAf (l : Locals) (e : Event) : Locals :=
  if e.af = afInet then l.loadX4 e
  else if e.af = afInet6 then ⟨e.saddr, e.daddr⟩
  else l

/-- A call of `inet_ntop`: the family, and the bytes that are read. -/
structure InetNtop where
  af : Nat
  src : List UInt8
  deriving DecidableEq, Repr

def inetNtop (af : Nat) (u : U6Addr) : InetNtop :=
  ⟨af, u.bytes.take (if af = afInet then 4 else if af = afInet6 then 16 else 0)⟩

/-- What a line is printed from. -/
structure Line where
  tgid : UInt32
  comm : Vector UInt8 taskCommLen
  ip : Nat
  saddr : InetNtop
  lport : Option UInt16
  daddr : InetNtop
  dport : UInt16
  deltaUs : UInt64
  func : Vector UInt8 taskFuncLen
  tcpState : Vector UInt8 tcpStateLen
  tcpDescription : Vector UInt8 tcpDescriptionLen
  tcpConnectTime : Option UInt64
  deriving DecidableEq, Repr

/-- The two `printf` calls of a callback; they differ in `LPORT`. -/
def printLine (env : Env) (l : Locals) (e : Event) (tcpConnectTime : Option UInt64) : Line where
  tgid := e.tgid
  comm := e.comm
  ip := if e.af = afInet then 4 else 6
  saddr := inetNtop e.af l.s
  lport := if env.lport then some e.lport else none
  daddr := inetNtop e.af l.d
  dport := bswap16 e.dport
  deltaUs := e.deltaUs
  func := e.func
  tcpState := e.tcpState
  tcpDescription := e.tcpDescription
  tcpConnectTime := tcpConnectTime

/-- `env.pid != 0 && e_pid != env.pid` -/
def Env.skips (env : Env) (e : Event) : Prop := env.pid ≠ 0 ∧ e.tgid.toInt32 ≠ env.pid

instance (env : Env) (e : Event) : Decidable (env.skips e) :=
  inferInstanceAs (Decidable (env.pid ≠ 0 ∧ e.tgid.toInt32 ≠ env.pid))

def Client.handleEvent (env : Env) (l : Locals) (e : ClientEvent) : Option Line :=
  if env.skips e.toEvent then none
  else some (printLine env (l.loadX4 e.toEvent) e.toEvent (some e.tcpConnectTime))

def Client.handleTcpSendmsgEvent (env : Env) (l : Locals) (e : ClientEvent) : Option Line :=
  if env.skips e.toEvent then none
  else some (printLine env (l.loadX4 e.toEvent) e.toEvent none)

def Service.handleTcpRecvmsgEvent (env : Env) (l : Locals) (e : Event) : Option Line :=
  if env.skips e then none
  else some (printLine env (l.loadX4 e) e none)

def Service.handleEvent (env : Env) (l : Locals) (e : Event) : Option Line :=
  if env.skips e then none
  else some (printLine env (l.loadAf e) e none)

/-- The callbacks that the client's `main` registers for its perf buffers. -/
def Client.deliver (env : Env) (l : Locals) : PerfBuf → ClientEvent → Option Line
  | .events, e => handleEvent env l e
  | .tcpSendmsgEvents, e => handleTcpSendmsgEvent env l e
  | .tcpRecvmsgEvents, _ => none

/-- The callbacks that the service's `main` registers. -/
def Service.deliver (env : Env) (l : Locals) : PerfBuf → Event → Option Line
  | .events, e => handleEvent env l e
  | .tcpRecvmsgEvents, e => handleTcpRecvmsgEvent env l e
  | .tcpSendmsgEvents, _ => none

/-! ### The socket's own addresses and ports -/

def Sock.Inet (sock : Sock) : Prop := sock.skcFamily.toNat = afInet ∨ sock.skcFamily.toNat = afInet6

/-- The local address: four bytes or sixteen. -/
def Sock.saddr (sock : Sock) : List UInt8 :=
  if sock.skcFamily.toNat = afInet then bytes32 sock.skcRcvSaddr else sock.skcV6RcvSaddr.bytes

/-- The remote address. -/
def Sock.daddr (sock : Sock) : List UInt8 :=
  if sock.skcFamily.toNat = afInet then bytes32 sock.skcDaddr else sock.skcV6Daddr.bytes

/-- The line shows the socket's addresses and, in host order, its ports.  The kernel
keeps `skc_num` in host order and `skc_dport` in network order. -/
structure Line.Names (env : Env) (sock : Sock) (line : Line) : Prop where
  saddr : line.saddr = ⟨sock.skcFamily.toNat, sock.saddr⟩
  daddr : line.daddr = ⟨sock.skcFamily.toNat, sock.daddr⟩
  dport : line.dport = bswap16 sock.skcDport
  lport : line.lport = if env.lport then some sock.skcNum else none

/-- The event holds the socket's addresses and ports. -/
structure Event.Describes (sock : Sock) (e : Event) : Prop where
  af : e.af = sock.skcFamily.toNat
  lport : e.lport = sock.skcNum
  dport : e.dport = sock.skcDport
  v4 : e.af = afInet → e.saddr.w0 = sock.skcRcvSaddr ∧ e.daddr.w0 = sock.skcDaddr
  v6 : e.af ≠ afInet → e.saddr = sock.skcV6RcvSaddr ∧ e.daddr = sock.skcV6Daddr

theorem describes_fill (c : Call) (ts : UInt64) (e : Event) : (e.fill c ts).Describes c.sock := by
  rw [Event.fill, Event.fillAddr]
  split
  · exact ⟨rfl, rfl, rfl, fun _ => ⟨rfl, rfl⟩, fun hne => absurd ‹_› hne⟩
  · exact ⟨rfl, rfl, rfl, fun heq => absurd heq ‹_›, fun _ => ⟨rfl, rfl⟩⟩

/-! ### The handlers describe their socket -/

/-- The perf buffer of a handler of the client. -/
def Client.Hook.buf : Client.Hook → PerfBuf
  | .tcpSendmsg => .tcpSendmsgEvents
  | _ => .events

/-- The perf buffer of a handler of the service. -/
def Service.Hook.buf : Service.Hook → PerfBuf
  | .tcpRecvmsg => .tcpRecvmsgEvents
  | _ => .events

section Handlers

open Prog

variable {ε : Type} {sock : Sock} {buf : PerfBuf} {base : ε → Event} (P : Image) (c : Call)

/-- If the call gives an event to a perf buffer, it is the given buffer, and the event
describes the socket. -/
def Describing (sock : Sock) (buf : PerfBuf) (base : ε → Event) : Op ε → Prop
  | .perfEventOutput buf' e => buf' = buf ∧ (base e).Describes sock
  | _ => True

/-- The end of every handler. -/
theorem calls_output {e : ε} (h : (base e).Describes sock) :
    (do let _ ← perfEventOutput buf e; return 0 : Handler ε Int).Calls
      (Describing sock buf base) :=
  (calls_perform ⟨rfl, h⟩).bind fun _ => calls_ret _

theorem calls_traceSock (func description : String) {f : UInt64 → Event → Handler ε Int}
    (h : ∀ ts e, (f ts (Event.fill c ts e)).Calls (Describing sock buf base)) :
    (traceSock P func description c f).Calls (Describing sock buf base) := by
  refine (calls_perform trivial).bind fun ts => ?_
  split
  · exact calls_ret _
  refine (calls_perform trivial).bind fun func => ?_
  refine (calls_perform trivial).bind fun tcpDescription => ?_
  exact (calls_perform trivial).bind fun tcpState => h ts _

theorem calls_client (h : Client.Hook) :
    (Client.fentry P c h).Calls (Describing c.sock h.buf ClientEvent.toEvent) := by
  cases h with
  | tcpSendmsg =>
    rw [Client.fentry, Client.handleTcpSendmsg]
    refine calls_traceSock P c _ _ fun ts e => ?_
    exact calls_output (describes_fill c ts e)
  | tcpV4Connect =>
    rw [Client.fentry, Client.handleTcpV4Connect]
    refine calls_traceSock P c _ _ fun ts e => ?_
    exact (calls_perform trivial).bind fun _ => calls_output (describes_fill c ts e)
  | tcpRcvStateProcess =>
    refine (calls_perform trivial).bind fun ts => ?_
    split
    · exact calls_ret _
    refine (calls_perform trivial).bind fun _ => ?_
    refine (calls_perform trivial).bind fun tcpDescription => ?_
    refine (calls_perform trivial).bind fun func => ?_
    refine (calls_perform trivial).bind fun tcpState => ?_
    dsimp only
    split
    · refine (calls_perform trivial).bind fun pd => ?_
      cases pd with
      | none => exact (calls_perform trivial).bind fun _ => calls_output (describes_fill c ts _)
      | some pd => exact (calls_perform trivial).bind fun _ => calls_output (describes_fill c ts _)
    · exact calls_output (describes_fill c ts _)

theorem calls_report (func description : String) (buf : PerfBuf) :
    (Service.report P func description buf c).Calls (Describing c.sock buf id) :=
  calls_traceSock P c _ _ fun ts e => calls_output (describes_fill c ts e)

theorem calls_service (h : Service.Hook) :
    (Service.fentry P c h).Calls (Describing c.sock h.buf id) := by
  cases h with
  | tcpRcvStateProcess => exact calls_report P c _ _ _
  | tcpRecvmsg => exact calls_report P c _ _ _
  | tcpV4Rcv => exact calls_report P c _ _ _
  | tcpV4DoRcv =>
    refine (calls_perform trivial).bind fun ts => ?_
    split
    · exact calls_ret _
    refine (calls_perform trivial).bind fun tcpDescription => ?_
    refine (calls_perform trivial).bind fun func => ?_
    refine (calls_perform trivial).bind fun tcpState => ?_
    exact calls_output (describes_fill c ts _)

end Handlers

/-! ### The callbacks name the socket -/

section Names

variable {env : Env} {sock : Sock} {e : Event} {time : Option UInt64}

theorem inetNtop_inet (u : U6Addr) : inetNtop afInet u = ⟨afInet, bytes32 u.w0⟩ := rfl

theorem inetNtop_inet6 (u : U6Addr) : inetNtop afInet6 u = ⟨afInet6, u.bytes⟩ := rfl

/-- One wrong word shows. -/
theorem bytes_ne {u v : U6Addr} (h : u.w1 = v.w1 + 1) : u.bytes ≠ v.bytes := by
  intro heq
  have hbyte := congrArg (·[4]?) heq
  simp [U6Addr.bytes, bytes32, h] at hbyte

theorem names_of_addr {l : Locals} (h : e.Describes sock)
    (hs : inetNtop e.af l.s = ⟨e.af, sock.saddr⟩)
    (hd : inetNtop e.af l.d = ⟨e.af, sock.daddr⟩) : (printLine env l e time).Names env sock := by
  refine ⟨?_, ?_, ?_, ?_⟩
  · rw [← h.af]
    exact hs
  · rw [← h.af]
    exact hd
  · rw [printLine, h.dport]
  · rw [printLine, h.lport]

theorem names_loadX4 (h : e.Describes sock) (hf : sock.skcFamily.toNat = afInet) (l : Locals) :
    (printLine env (l.loadX4 e) e time).Names env sock := by
  have haf : e.af = afInet := h.af.trans hf
  obtain ⟨hs, hd⟩ := h.v4 haf
  refine names_of_addr h ?_ ?_
  · rw [haf, inetNtop_inet, Locals.loadX4, hs, Sock.saddr, if_pos hf]
  · rw [haf, inetNtop_inet, Locals.loadX4, hd, Sock.daddr, if_pos hf]

/-- Copying the first word only is right for IPv4 and for nothing else: for an IPv6
socket the line shows twelve bytes of what the stack held before. -/
theorem names_loadX4_iff (h : e.Describes sock) (hi : sock.Inet) :
    (∀ l : Locals, (printLine env (l.loadX4 e) e time).Names env sock) ↔
      sock.skcFamily.toNat = afInet := by
  constructor
  · intro hl
    by_contra hf
    have hf6 : sock.skcFamily.toNat = afInet6 := hi.resolve_left hf
    have hs := (hl ⟨{ sock.skcV6RcvSaddr with w1 := sock.skcV6RcvSaddr.w1 + 1 }, {}⟩).saddr
    rw [printLine, h.af, hf6, inetNtop_inet6, Sock.saddr, if_neg hf] at hs
    exact bytes_ne rfl (congrArg InetNtop.src hs)
  · exact names_loadX4 h

/-- Copying by family is right for both. -/
theorem names_loadAf (h : e.Describes sock) (hi : sock.Inet) (l : Locals) :
    (printLine env (l.loadAf e) e time).Names env sock := by
  by_cases hf : sock.skcFamily.toNat = afInet
  · rw [Locals.loadAf, if_pos (h.af.trans hf)]
    exact names_loadX4 h hf l
  · have haf : e.af = afInet6 := h.af.trans (hi.resolve_left hf)
    have hne : e.af ≠ afInet := fun h4 => hf (h.af.symm.trans h4)
    obtain ⟨hs, hd⟩ := h.v6 hne
    rw [Locals.loadAf, if_neg hne, if_pos haf]
    refine names_of_addr h ?_ ?_
    · rw [haf, inetNtop_inet6, hs, Sock.saddr, if_neg hf]
    · rw [haf, inetNtop_inet6, hd, Sock.daddr, if_neg hf]

/-- The callback for the event prints a line that names the socket, whatever its
unions hold at first. -/
def ShownBy {ε : Type} (deliver : Env → Locals → PerfBuf → ε → Option Line) (env : Env)
    (sock : Sock) (buf : PerfBuf) (e : ε) : Prop :=
  ∀ l, ∃ line, deliver env l buf e = some line ∧ line.Names env sock

section Shown

variable {ε : Type} {deliver : Env → Locals → PerfBuf → ε → Option Line} {buf : PerfBuf} {x : ε}

theorem shownBy_loadX4_iff
    (hx : ∀ l, deliver env l buf x = some (printLine env (l.loadX4 e) e time))
    (h : e.Describes sock) (hi : sock.Inet) :
    ShownBy deliver env sock buf x ↔ sock.skcFamily.toNat = afInet := by
  have hnames : (∀ l : Locals, (printLine env (l.loadX4 e) e time).Names env sock) ↔
      sock.skcFamily.toNat = afInet := names_loadX4_iff h hi
  rw [← hnames]
  constructor
  · intro hs l
    obtain ⟨line, hline, hn⟩ := hs l
    rw [hx] at hline
    rw [Option.some.inj hline]
    exact hn
  · intro hs l
    exact ⟨_, hx l, hs l⟩

theorem shownBy_loadAf (hx : ∀ l, deliver env l buf x = some (printLine env (l.loadAf e) e time))
    (h : e.Describes sock) (hi : sock.Inet) : ShownBy deliver env sock buf x :=
  fun l => ⟨_, hx l, names_loadAf h hi l⟩

end Shown

end Names

/-- **Which sockets are shown right.**  For every event that a handler emits for a TCP
socket, whatever its helper calls answer, and that passes the pid filter: the client
shows the socket's own addresses and ports if and only if it is an IPv4 socket; the
service, if and only if it is an IPv4 socket or the handler is not that of
`tcp_recvmsg`. -/
theorem roundTrip_iff (P : Image) (c : Call) (env : Env) (hi : c.sock.Inet) :
    (∀ (h : Client.Hook) (buf : PerfBuf) (e : ClientEvent),
      (Client.fentry P c h).Makes (.perfEventOutput buf e) → ¬ env.skips e.toEvent →
      (ShownBy Client.deliver env c.sock buf e ↔ c.sock.skcFamily.toNat = afInet)) ∧
    ∀ (h : Service.Hook) (buf : PerfBuf) (e : Event),
      (Service.fentry P c h).Makes (.perfEventOutput buf e) → ¬ env.skips e →
      (ShownBy Service.deliver env c.sock buf e ↔
        c.sock.skcFamily.toNat = afInet ∨ h ≠ .tcpRecvmsg) := by
  constructor
  · intro h buf e hm hp
    obtain ⟨rfl, hd⟩ : buf = h.buf ∧ e.toEvent.Describes c.sock := calls_client P c h _ hm
    cases h with
    | tcpSendmsg => exact shownBy_loadX4_iff (fun l => if_neg hp) hd hi
    | tcpV4Connect => exact shownBy_loadX4_iff (fun l => if_neg hp) hd hi
    | tcpRcvStateProcess => exact shownBy_loadX4_iff (fun l => if_neg hp) hd hi
  · intro h buf e hm hp
    obtain ⟨rfl, hd⟩ : buf = h.buf ∧ e.Describes c.sock := calls_service P c h _ hm
    by_cases hr : h = .tcpRecvmsg
    · rw [or_iff_left (not_not.mpr hr)]
      subst hr
      exact shownBy_loadX4_iff (fun l => if_neg hp) hd hi
    · refine iff_of_true ?_ (Or.inr hr)
      cases h with
      | tcpRecvmsg => exact absurd rfl hr
      | tcpV4Rcv => exact shownBy_loadAf (fun l => if_neg hp) hd hi
      | tcpV4DoRcv => exact shownBy_loadAf (fun l => if_neg hp) hd hi
      | tcpRcvStateProcess => exact shownBy_loadAf (fun l => if_neg hp) hd hi

/-- An IPv6 socket, with both ends at the address `::1`. -/
def exampleCall6 : Call where
  sk := 1
  sock := ⟨1, 53710, 3879, 10, 0, 0, ⟨0, 0, 0, 0x01000000⟩, ⟨0, 0, 0, 0x01000000⟩⟩
  tgid := 37759
  comm := .replicate _ 0

def exampleImage : Image := ⟨fun _ => 0, 0⟩

def exampleEnv : Env := ⟨0, true⟩

theorem roundTrip_iff_example :
    ∃ e, (Service.fentry exampleImage exampleCall6 .tcpRecvmsg).Makes
        (.perfEventOutput .tcpRecvmsgEvents e) ∧ ¬ exampleEnv.skips e ∧
      (ShownBy Service.deliver exampleEnv exampleCall6.sock .tcpRecvmsgEvents e ↔
        exampleCall6.sock.skcFamily.toNat = afInet ∨ Service.Hook.tcpRecvmsg ≠ .tcpRecvmsg) := by
  have hi : exampleCall6.sock.Inet := Or.inr rfl
  have hp : ∀ e, ¬ exampleEnv.skips e := fun e h => h.1 rfl
  obtain ⟨e, hm⟩ : ∃ e, (Service.fentry exampleImage exampleCall6 .tcpRecvmsg).Makes
      (.perfEventOutput .tcpRecvmsgEvents e) :=
    ⟨_, .later 1000 (.later (.replicate _ 0) (.later (.replicate _ 0)
      (.later (.replicate _ 0) .here)))⟩
  exact ⟨e, hm, hp e, (roundTrip_iff exampleImage exampleCall6 exampleEnv hi).2 _ _ e hm (hp e)⟩

/-- What the callbacks give to `inet_ntop` as the local address for the events of a
handler, when the stack is full of ones. -/
def exampleShown {ε : Type} (deliver : Env → Locals → PerfBuf → ε → Option Line)
    (p : Handler ε Int) : Option (List (Option InetNtop)) :=
  let u : U6Addr := ⟨0xffffffff, 0xffffffff, 0xffffffff, 0xffffffff⟩
  (p.run (exec 1000) (Kern.boot ⟨[]⟩)).map fun r =>
    r.2.out.map fun x => (deliver exampleEnv ⟨u, u⟩ x.1 x.2).map (·.saddr)

/-- **An IPv6 address is not shown** by the two callbacks of the client and by the
service's `handle_tcp_recvmsg_event`: twelve of its bytes are what was on the stack. -/
theorem callbacks_show_stack :
    exampleCall6.sock.saddr = [0, 0, 0, 0, 0, 0, 0, 0, 0, 0, 0, 0, 0, 0, 0, 1] ∧
    (∀ h, exampleShown Client.deliver (Client.fentry exampleImage exampleCall6 h) =
      some [some ⟨10, [0, 0, 0, 0, 255, 255, 255, 255, 255, 255, 255, 255, 255, 255, 255, 255]⟩]) ∧
    exampleShown Service.deliver (Service.fentry exampleImage exampleCall6 .tcpRecvmsg) =
      some [some ⟨10,
        [0, 0, 0, 0, 255, 255, 255, 255, 255, 255, 255, 255, 255, 255, 255, 255]⟩] := by
  refine ⟨by decide, fun h => ?_, by rfl⟩
  cases h <;> rfl

end NetworkAnalyse.Ebpf
