import Mathlib.Data.Finset.Basic
import NetworkAnalyse.Lib.DataSection
import NetworkAnalyse.Lib.Interleave

/-!
# The epoll server

`service/server.cpp`.  `main` accepts connections and hands each to one of
`NUM_THREADS` workers by the number of its descriptor; a worker waits for a batch of
events and reads from the descriptors the batch names.

The loops are given one pass at a time: a pass of `main` is an `accept` and, if it
gives a descriptor, an `epoll_ctl`; a pass of a worker is an `epoll_wait` and the
events of its batch.  A pass is a `Prog`, and `server` interleaves the system calls
of the passes of `main` and of the workers.  In between bytes arrive, and peers
close or break their connections.

The kernel may hand out any descriptor number that is not open.  A connection is
therefore known by an id of its own, which is never used again, and the state keeps
a record of which worker touched which connection (`State.touches`).  Each worker
has its `buffer` at the start of its own stretch of memory (`State.stack`).
-/

namespace NetworkAnalyse.Server

open Lib

abbrev numThreads : Nat := 4
def maxEvents : Nat := 10
abbrev bufferSize : Nat := 4096

abbrev Fd := Nat
abbrev ConnId := Nat
abbrev Worker := Fin numThreads

/-- `new_socket % NUM_THREADS`. -/
def owner (fd : Fd) : Worker := Fin.ofNat numThreads fd

/-- An entry of `events`; `epollin` is `events[i].events & EPOLLIN`. -/
structure EpollEvent where
  fd : Fd
  epollin : Bool
  deriving DecidableEq, Repr

/-! ### System calls -/

inductive Op
  | accept
  | epollCtlAdd (w : Worker) (fd : Fd)
  | epollWait (w : Worker)
  | memset (w : Worker)
  | recvmsg (w : Worker) (fd : Fd)
  | store (w : Worker) (i : Nat)
  | print (w : Worker)
  | close (w : Worker) (fd : Fd)

/-- `accept` gives a descriptor or `-1`, `recvmsg` the number of bytes it has put
into the buffer. -/
@[reducible] def Op.Res : Op → Type
  | accept => Option Fd
  | epollCtlAdd _ _ => Int
  | epollWait _ => List EpollEvent
  | memset _ => Unit
  | recvmsg _ _ => Int
  | store _ _ => Unit
  | print _ => Unit
  | close _ _ => Int

abbrev Pass := Prog Op Op.Res Unit

def accept : Prog Op Op.Res (Option Fd) := .perform Op.accept
def epollCtlAdd (w : Worker) (fd : Fd) : Prog Op Op.Res Int := .perform (Op.epollCtlAdd w fd)
def epollWait (w : Worker) : Prog Op Op.Res (List EpollEvent) := .perform (Op.epollWait w)
def memset (w : Worker) : Prog Op Op.Res Unit := .perform (Op.memset w)
def recvmsg (w : Worker) (fd : Fd) : Prog Op Op.Res Int := .perform (Op.recvmsg w fd)
def store (w : Worker) (i : Nat) : Prog Op Op.Res Unit := .perform (Op.store w i)
def print (w : Worker) : Prog Op Op.Res Unit := .perform (Op.print w)
def close (w : Worker) (fd : Fd) : Prog Op Op.Res Int := .perform (Op.close w fd)

/-- A pass of the loop of `main`. -/
def acceptLoop : Pass := do
  match ← accept with
  | none => return ()
  | some newSocket =>
    let threadIndex := owner newSocket
    let _ ← epollCtlAdd threadIndex newSocket
    return ()

/-- The body of `worker_thread`'s loop over the batch. -/
def handleEvent (w : Worker) (event : EpollEvent) : Pass := do
  let clientFd := event.fd
  if event.epollin then
    memset w
    let bytesRead ← recvmsg w clientFd
    if bytesRead ≤ 0 then
      let _ ← close w clientFd
      return ()
    else
      store w bytesRead.toNat
      print w

def handleEvents (w : Worker) : List EpollEvent → Pass
  | [] => return ()
  | event :: events => do
    handleEvent w event
    handleEvents w events

/-- A pass of the loop of `worker_thread`.  An `epoll_wait` that fails gives an empty
batch as well. -/
def workerThread (w : Worker) : Pass := do
  let events ← epollWait w
  handleEvents w events

/-- The system calls for an event with `EPOLLIN`, and then for the rest of the batch. -/
theorem handleEvents_cons (w : Worker) (fd : Fd) (events : List EpollEvent) :
    handleEvents w (⟨fd, true⟩ :: events) =
      .call (.memset w) fun _ => .call (.recvmsg w fd) fun bytesRead =>
        if bytesRead ≤ 0 then .call (.close w fd) fun _ => handleEvents w events
        else .call (.store w bytesRead.toNat) fun _ => .call (.print w) fun _ =>
          handleEvents w events := by
  refine congrArg (Prog.call _) (funext fun _ => congrArg (Prog.call _)
    (funext fun bytesRead => ?_))
  show Prog.bind (if bytesRead ≤ 0 then _ else _) _ = _
  split <;> rfl

/-! ### The kernel's side -/

/-- A connection. -/
structure Sock where
  /-- the descriptor it was accepted at -/
  home : Fd := 0
  /-- the bytes received so far -/
  arrived : List UInt8 := []
  /-- those of them that have not been read -/
  buffer : List UInt8 := []
  /-- the peer has closed its end -/
  ended : Bool := false
  /-- the connection is broken -/
  failed : Bool := false

/-- `recvmsg` has something to say. -/
def Sock.Ready (sock : Sock) : Prop := sock.buffer ≠ [] ∨ sock.ended = true ∨ sock.failed = true

instance (sock : Sock) : Decidable sock.Ready := inferInstanceAs (Decidable (_ ∨ _ ∨ _))

/-- A `recvmsg` or `close` of a worker: on which connection, and which connection the
worker's batch meant by that descriptor. -/
structure Touch where
  worker : Worker
  fd : Fd
  conn : Option ConnId
  named : Option ConnId
  bytes : List UInt8
  deriving DecidableEq, Repr

/-- A write to a worker's buffer. -/
structure Write where
  worker : Worker
  start : Nat
  length : Nat
  deriving DecidableEq, Repr

/-- A line that a worker has printed, and the connection it last read from. -/
structure Line where
  worker : Worker
  conn : Option ConnId
  text : List UInt8
  deriving DecidableEq, Repr

structure State where
  /-- the connections behind the open descriptors -/
  fds : Fd → Option ConnId
  sets : Worker → Finset Fd
  socks : ConnId → Sock
  /-- the next connection id -/
  next : ConnId
  /-- what the descriptors of a worker's latest batch stood for -/
  named : Worker → Fd → Option ConnId
  /-- the connection of a worker's latest `recvmsg` -/
  source : Worker → Option ConnId
  stack : Worker → DataSection
  touches : List Touch
  writes : List Write
  lines : List Line

def State.boot (stack : Worker → DataSection) : State where
  fds _ := none
  sets _ := ∅
  socks _ := {}
  next := 0
  named _ _ := none
  source _ := none
  stack := stack
  touches := []
  writes := []
  lines := []

def State.Ready (s : State) (fd : Fd) : Prop := ∃ k ∈ s.fds fd, (s.socks k).Ready

instance (s : State) (fd : Fd) : Decidable (s.Ready fd) :=
  inferInstanceAs (Decidable (∃ k ∈ s.fds fd, _))

/-- What `recvmsg` can answer; `again` is `EAGAIN`. -/
inductive Recv
  | data (n : Nat)
  | eof
  | error
  | again
  deriving DecidableEq, Repr

/-- What the kernel chooses, for the calls that leave it a choice. -/
structure Inp where
  accepted : Option Fd := none
  events : List EpollEvent := []
  received : Recv := .again

/-- The bytes and the result of a `recvmsg`; `none` if the kernel may not answer so.
A ready socket gives some of its bytes, the end of the stream once there are none, or
an error if it is broken. -/
def Sock.recv (sock : Sock) : Recv → Option (List UInt8 × Int)
  | .data n =>
    if 1 ≤ n ∧ n ≤ bufferSize ∧ n ≤ sock.buffer.length then some (sock.buffer.take n, n) else none
  | .eof => if sock.buffer = [] ∧ sock.ended = true then some ([], 0) else none
  | .error => if sock.failed = true then some ([], -1) else none
  | .again => if ¬ sock.Ready then some ([], -1) else none

/-- The bytes `bytes` at the start of a worker's buffer. -/
def fillBuffer (d : DataSection) (bytes : List UInt8) : DataSection :=
  ⟨bytes ++ d.bytes.drop bytes.length⟩

namespace State

variable (s : State)

/-- `accept` returns `-1`, or a new connection under a number that is not open. -/
def accept : Option Fd → Option (Option Fd × State)
  | none => some (none, s)
  | some fd =>
    if s.fds fd = none then
      some (some fd, { s with
        fds := Function.update s.fds fd (some s.next)
        socks := Function.update s.socks s.next { home := fd }
        next := s.next + 1 })
    else none

/-- `recvmsg` of worker `w` on `fd`. -/
def recvmsg (w : Worker) (fd : Fd) (r : Recv) : Option (Int × State) :=
  let touch : Touch := ⟨w, fd, s.fds fd, s.named w fd, []⟩
  match s.fds fd with
  | none =>
    some (-1, { s with
      source := Function.update s.source w none
      touches := s.touches ++ [touch] })
  | some k =>
    ((s.socks k).recv r).map fun p =>
      (p.2, { s with
        socks := Function.update s.socks k
          { s.socks k with buffer := (s.socks k).buffer.drop p.1.length }
        source := Function.update s.source w (some k)
        stack := Function.update s.stack w (fillBuffer (s.stack w) p.1)
        touches := s.touches ++ [{ touch with bytes := p.1 }]
        writes := s.writes ++ [⟨w, 0, p.1.length⟩] })

/-- `close` of worker `w`: the descriptor leaves its epoll sets. -/
def close (w : Worker) (fd : Fd) : Int × State :=
  (if (s.fds fd).isSome then 0 else -1, { s with
    fds := Function.update s.fds fd none
    sets := fun v => (s.sets v).erase fd
    touches := s.touches ++ [⟨w, fd, s.fds fd, s.named w fd, []⟩] })

end State

def exec (inp : Inp) : (op : Op) → State → Option (op.Res × State)
  | .accept, s => s.accept inp.accepted
  | .epollCtlAdd w fd, s =>
    if (s.fds fd).isSome ∧ fd ∉ s.sets w then
      some (0, { s with sets := Function.update s.sets w (insert fd (s.sets w)) })
    else some (-1, s)
  | .epollWait w, s =>
    if inp.events.length ≤ maxEvents ∧ (inp.events.map (·.fd)).Nodup ∧
        ∀ event ∈ inp.events, event.fd ∈ s.sets w ∧ s.Ready event.fd then
      some (inp.events, { s with
        named := Function.update s.named w fun fd =>
          if fd ∈ inp.events.map (·.fd) then s.fds fd else none })
    else none
  | .memset w, s =>
    some ((), { s with
      stack := Function.update s.stack w (fillBuffer (s.stack w) (List.replicate bufferSize 0))
      writes := s.writes ++ [⟨w, 0, bufferSize⟩] })
  | .recvmsg w fd, s => s.recvmsg w fd inp.received
  | .store w i, s =>
    some ((), { s with
      stack := Function.update s.stack w ((s.stack w).store i 0)
      writes := s.writes ++ [⟨w, i, 1⟩] })
  | .print w, s =>
    some ((), { s with
      lines := s.lines ++ [⟨w, s.source w, (s.stack w).bytes.takeWhile (· ≠ 0)⟩] })
  | .close w fd, s => some (s.close w fd)

/-- What happens to the connections from outside. -/
inductive Peer
  | sends (fd : Fd) (bytes : List UInt8)
  | closes (fd : Fd)
  | resets (fd : Fd)

def Peer.fd : Peer → Fd
  | sends fd _ => fd
  | closes fd => fd
  | resets fd => fd

/-- Nothing arrives after the peer has closed its end. -/
def Peer.act : Peer → Sock → Option Sock
  | sends _ bytes, sock =>
    if sock.ended = true then none
    else some { sock with arrived := sock.arrived ++ bytes, buffer := sock.buffer ++ bytes }
  | closes _, sock => some { sock with ended := true }
  | resets _, sock => some { sock with failed := true }

/-- The kernel drops what arrives for a connection that is not open.  What arrives
before `accept` is taken to arrive right after it. -/
def peer (e : Peer) (s : State) : Option State :=
  match s.fds e.fd with
  | none => none
  | some k => (e.act (s.socks k)).map fun sock => { s with socks := Function.update s.socks k sock }

/-- The threads of the server. -/
inductive Loop
  | main
  | worker (w : Worker)
  deriving DecidableEq, Repr

def Loop.pass : Loop → Pass
  | main => acceptLoop
  | worker w => workerThread w

/-- **The server**: a thread is in one pass at a time. -/
def server : System Loop Op Op.Res Inp Peer State Loop Unit where
  key l := l
  body := Loop.pass
  exec := exec
  env := peer

end NetworkAnalyse.Server
