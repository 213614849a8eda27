import NetworkAnalyse.Server.Client
import NetworkAnalyse.Server.Receive

/-!
# Clients and the server

The server with its clients: any number of client processes run `main` of
`service/client.cpp`, and between them and the server there is a network.  A `connect`
puts the client into the backlog of the listening socket, and an `accept` takes the first
one out of it.  What a client has written is on the wire until it arrives, in pieces of any
length; its end of the connection is seen by the server when all has arrived.  A connection
may break at any time.

To the server the clients are its environment (`exchange_projects`), so what is known of the
server's runs holds here.  The network adds which client is behind a connection (`Linked`).

* `prints_messages`: the server never writes outside its buffers, and prints for a connection
  what its client has written.
* `message_arrives`: at any time, what a client has written can still be printed.
-/

namespace NetworkAnalyse.Server

open Lib

/-! ### Client processes -/

abbrev ClientId := Nat

/-- The port that the server listens on. -/
def port : UInt16 := 9999

/-- A client process, and the kernel's side of its socket. -/
structure Proc where
  trace : Trace Client.Op Client.Op.Res := []
  rest : Client.Program Int := Client.main
  /-- the descriptor of its socket -/
  socket : Option Int := none
  connected : Bool := false
  closed : Bool := false
  /-- the bytes written that have not arrived yet -/
  wire : List UInt8 := []

/-- What the kernel answers, if the call is the next one. -/
abbrev Answer := (op : Client.Op) → op.Res

namespace Proc

variable (p : Proc)

def exited : Bool :=
  match p.rest with
  | .ret _ => true
  | .call _ _ => false

/-- Nothing more can be written; at the exit of a process its socket is closed. -/
def shut : Bool := p.closed || p.exited

def seen : Client.Seen := .ofTrace p.trace

/-- What a call does to the socket; `none` if the kernel may not answer so. -/
def reply : (op : Client.Op) → op.Res → Option Proc
  | .socket, fd => if fd < 0 then some p else some { p with socket := some fd }
  | .connect sockfd sinPort, err =>
    if err < 0 then some p
    else if p.socket = some sockfd ∧ p.connected = false ∧ sinPort = Bytes.bswap16 port then
      some { p with connected := true }
    else none
  | .write sockfd bytes, n =>
    if n < 0 then some p
    else if p.socket = some sockfd ∧ p.connected = true ∧ p.closed = false ∧ n ≤ bytes.length then
      some { p with wire := p.wire ++ bytes.take n.toNat }
    else none
  | .close sockfd, err =>
    if err < 0 then some p
    else if p.socket = some sockfd then some { p with closed := true } else none
  | _, _ => some p

/-- The next call of the process. -/
def step (answer : Answer) : Option Proc :=
  match p.rest with
  | .ret _ => none
  | .call op f => (p.reply op (answer op)).map fun p' =>
    { p' with trace := p.trace ++ [⟨op, answer op⟩], rest := f (answer op) }

/-- The first `n` bytes on the wire have arrived. -/
def drop (n : Nat) : Proc := { p with wire := p.wire.drop n }

end Proc

/-! ### The network -/

structure Net where
  server : State
  procs : ClientId → Proc
  /-- the clients that have connected and are not accepted yet -/
  backlog : List ClientId
  /-- the client at the other end -/
  peerOf : ConnId → Option ClientId

namespace Net

def boot (stack : Worker → DataSection) : Net where
  server := State.boot stack
  procs _ := {}
  backlog := []
  peerOf _ := none

variable (net : Net)

/-- Client `i` performs its next call. -/
def client (i : ClientId) (answer : Answer) : Option Net :=
  ((net.procs i).step answer).map fun p => { net with
    procs := Function.update net.procs i p
    backlog :=
      if p.connected = true ∧ (net.procs i).connected = false then net.backlog ++ [i]
      else net.backlog }

/-- At most `n` bytes arrive. -/
def arrive (fd : Fd) (n : Nat) : Option Net := do
  let k ← net.server.fds fd
  let i ← net.peerOf k
  let server ← peer (.sends fd ((net.procs i).wire.take n)) net.server
  return { net with
    server := server
    procs := Function.update net.procs i ((net.procs i).drop n) }

/-- The client's end of the stream arrives, after its bytes. -/
def fin (fd : Fd) : Option Net := do
  let k ← net.server.fds fd
  let i ← net.peerOf k
  if (net.procs i).wire = [] ∧ (net.procs i).shut = true then
    let server ← peer (.closes fd) net.server
    return { net with server := server }
  else none

def reset (fd : Fd) : Option Net := do
  let server ← peer (.resets fd) net.server
  return { net with server := server }

/-- `accept` takes the first client of the backlog. -/
def accept : Option Fd → Option (Option Fd × Net)
  | none => some (none, net)
  | some fd =>
    match net.backlog with
    | [] => none
    | i :: backlog => (net.server.accept (some fd)).map fun p => (p.1, { net with
      server := p.2
      backlog := backlog
      peerOf := Function.update net.peerOf net.server.next (some i) })

/-- A system call of the server. -/
def exec (inp : Inp) : (op : Op) → Net → Option (op.Res × Net)
  | .accept, net => net.accept inp.accepted
  | op, net => (Server.exec inp op net.server).map fun p => (p.1, { net with server := p.2 })

end Net

/-- What happens around the server. -/
inductive Event
  | client (i : ClientId) (answer : Answer)
  | arrive (fd : Fd) (n : Nat)
  | fin (fd : Fd)
  | reset (fd : Fd)

def Event.act : Event → Net → Option Net
  | client i answer, net => net.client i answer
  | arrive fd n, net => net.arrive fd n
  | fin fd, net => net.fin fd
  | reset fd, net => net.reset fd

/-- **The server and its clients.** -/
def exchange : System Loop Op Op.Res Inp Event Net Loop Unit where
  key l := l
  body := Loop.pass
  exec := Net.exec
  env := Event.act

/-! ### The server's part -/

theorem Proc.step_eq {p p' : Proc} {answer : Answer} (h : p.step answer = some p') :
    ∃ op f p₁, p.rest = .call op f ∧ p.reply op (answer op) = some p₁ ∧
      p' = { p₁ with trace := p.trace ++ [⟨op, answer op⟩], rest := f (answer op) } := by
  rw [Proc.step] at h
  split at h
  · cases h
  · rename_i op f hrest
    obtain ⟨p₁, hp₁, heq⟩ := Option.map_eq_some_iff.mp h
    exact ⟨op, f, p₁, hrest, hp₁, heq.symm⟩

section Events

variable {net net' : Net}

theorem Net.client_eq {i : ClientId} {answer : Answer} (h : net.client i answer = some net') :
    ∃ p, (net.procs i).step answer = some p ∧ net' = { net with
      procs := Function.update net.procs i p
      backlog :=
        if p.connected = true ∧ (net.procs i).connected = false then net.backlog ++ [i]
        else net.backlog } := by
  obtain ⟨p, hp, heq⟩ := Option.map_eq_some_iff.mp h
  exact ⟨p, hp, heq.symm⟩

theorem Net.arrive_eq {fd : Fd} {n : Nat} (h : net.arrive fd n = some net') :
    ∃ k i server, net.server.fds fd = some k ∧ net.peerOf k = some i ∧
      peer (.sends fd ((net.procs i).wire.take n)) net.server = some server ∧ net' = { net with
        server := server
        procs := Function.update net.procs i ((net.procs i).drop n) } := by
  simp only [Net.arrive, Option.bind_eq_bind, Option.bind_eq_some_iff] at h
  obtain ⟨k, hk, i, hi, server, hserver, heq⟩ := h
  exact ⟨k, i, server, hk, hi, hserver, (Option.some.inj heq).symm⟩

theorem Net.fin_eq {fd : Fd} (h : net.fin fd = some net') :
    ∃ k i server, net.server.fds fd = some k ∧ net.peerOf k = some i ∧
      (net.procs i).wire = [] ∧ (net.procs i).shut = true ∧
      peer (.closes fd) net.server = some server ∧ net' = { net with server := server } := by
  simp only [Net.fin, Option.bind_eq_bind, Option.bind_eq_some_iff,
    Option.ite_none_right_eq_some] at h
  obtain ⟨k, hk, i, hi, ⟨hwire, hshut⟩, server, hserver, heq⟩ := h
  exact ⟨k, i, server, hk, hi, hwire, hshut, hserver, (Option.some.inj heq).symm⟩

theorem Net.reset_eq {fd : Fd} (h : net.reset fd = some net') :
    ∃ server, peer (.resets fd) net.server = some server ∧
      net' = { net with server := server } := by
  simp only [Net.reset, Option.bind_eq_bind, Option.bind_eq_some_iff] at h
  obtain ⟨server, hserver, heq⟩ := h
  exact ⟨server, hserver, (Option.some.inj heq).symm⟩

/-- An `accept` gives nothing, or takes the first client of the backlog. -/
theorem Net.accept_cases {new r : Option Fd} (h : net.accept new = some (r, net')) :
    (r = none ∧ net' = net) ∨ ∃ fd i backlog server,
      net.backlog = i :: backlog ∧ net.server.accept (some fd) = some (r, server) ∧
      net' = { net with
        server := server
        backlog := backlog
        peerOf := Function.update net.peerOf net.server.next (some i) } := by
  cases new with
  | none =>
    cases h
    exact Or.inl ⟨rfl, rfl⟩
  | some fd =>
    rw [Net.accept] at h
    split at h
    · cases h
    · rename_i i backlog hlog
      obtain ⟨⟨r', server⟩, hp, heq⟩ := Option.map_eq_some_iff.mp h
      cases heq
      exact Or.inr ⟨fd, i, backlog, server, hlog, hp, rfl⟩

/-- The other system calls leave the network alone. -/
theorem Net.exec_eq {inp : Inp} {op : Op} {r : op.Res} (hop : op ≠ .accept)
    (h : Net.exec inp op net = some (r, net')) :
    ∃ server, Server.exec inp op net.server = some (r, server) ∧
      net' = { net with server := server } := by
  cases op with
  | accept => exact absurd rfl hop
  | _ =>
    simp only [Net.exec, Option.map_eq_some_iff] at h
    obtain ⟨⟨r', server⟩, hp, heq⟩ := h
    cases heq
    exact ⟨server, hp, rfl⟩

end Events

/-- To the server the clients are peers. -/
def exchange_projects : Projection exchange server where
  map := Net.server
  key _ := rfl
  body _ := rfl
  exec {inp op r net net'} h := by
    by_cases hop : op = .accept
    · subst hop
      rcases Net.accept_cases h with ⟨rfl, rfl⟩ | ⟨fd, i, backlog, s, -, hs, rfl⟩
      · exact ⟨{}, rfl⟩
      · exact ⟨{ accepted := some fd }, hs⟩
    · obtain ⟨s, hs, rfl⟩ := Net.exec_eq hop h
      exact ⟨inp, hs⟩
  env {e net net'} h := by
    cases e with
    | client i answer =>
      obtain ⟨p, -, rfl⟩ := Net.client_eq h
      exact Or.inl rfl
    | arrive fd n =>
      obtain ⟨k, i, s, -, -, hs, rfl⟩ := Net.arrive_eq h
      exact Or.inr ⟨_, hs⟩
    | fin fd =>
      obtain ⟨k, i, s, -, -, -, -, hs, rfl⟩ := Net.fin_eq h
      exact Or.inr ⟨_, hs⟩
    | reset fd =>
      obtain ⟨s, hs, rfl⟩ := Net.reset_eq h
      exact Or.inr ⟨_, hs⟩

/-! ### A client process -/

/-- The process is somewhere in `main`, and what it has written is proper. -/
structure Proc.Sound (p : Proc) : Prop where
  ok : p.rest.Ok Client.Seen.Can Client.Seen.Next (fun _ _ _ => True) p.trace p.seen
  proper : p.seen.Proper

/-- What a call of the process can change. -/
structure Proc.Advances (p p' : Proc) : Prop where
  sound : p'.Sound
  connected : p.connected = true → p'.connected = true
  /-- the call has written `bytes`, which are on the wire -/
  sent : ∃ bytes, p'.wire = p.wire ++ bytes ∧ p'.seen.written = p.seen.written ++ bytes ∧
    (p.shut = true → bytes = [] ∧ p'.shut = true)

theorem Proc.sound_boot : Proc.Sound {} := ⟨Client.ok_main, Client.Seen.proper_nil⟩

/-- What a call does to the socket, and to what has been written. -/
theorem Proc.reply_cases {p p₁ : Proc} {op : Client.Op} {r : op.Res}
    (h : p.reply op r = some p₁) :
    (p.connected = true → p₁.connected = true) ∧ (p.closed = true → p₁.closed = true) ∧
      ∃ bytes, p₁.wire = p.wire ++ bytes ∧ (p.closed = true → bytes = []) ∧
        ∀ v : Client.Seen, (v.after op r).written = v.written ++ bytes := by
  have hsame : ∀ q : Proc, q.wire = p.wire → (p.connected = true → q.connected = true) →
      (p.closed = true → q.closed = true) →
      (∀ v : Client.Seen, (v.after op r).written = v.written) →
      (p.connected = true → q.connected = true) ∧ (p.closed = true → q.closed = true) ∧
        ∃ bytes, q.wire = p.wire ++ bytes ∧ (p.closed = true → bytes = []) ∧
          ∀ v : Client.Seen, (v.after op r).written = v.written ++ bytes := by
    intro q hwire hconn hclosed hafter
    refine ⟨hconn, hclosed, [], ?_, fun _ => rfl, fun v => ?_⟩
    · rw [hwire, List.append_nil]
    · rw [hafter, List.append_nil]
  cases op with
  | socket =>
    rw [Proc.reply] at h
    split at h <;> cases h <;> exact hsame _ rfl id id fun _ => rfl
  | connect sockfd sinPort =>
    rw [Proc.reply] at h
    split at h
    · cases h
      exact hsame _ rfl id id fun _ => rfl
    · obtain ⟨-, heq⟩ := Option.ite_none_right_eq_some.mp h
      cases heq
      exact hsame _ rfl (fun _ => rfl) id fun _ => rfl
  | write sockfd bytes =>
    rw [Proc.reply] at h
    split at h
    · rename_i hneg
      cases h
      refine hsame _ rfl id id fun v => ?_
      show v.written ++ bytes.take (Int.toNat r) = v.written
      rw [Int.toNat_of_nonpos (Int.le_of_lt hneg), List.take_zero, List.append_nil]
    · obtain ⟨⟨-, -, hopen, -⟩, heq⟩ := Option.ite_none_right_eq_some.mp h
      cases heq
      refine ⟨id, id, bytes.take (Int.toNat r), rfl, fun hclosed => ?_, fun _ => rfl⟩
      rw [hopen] at hclosed
      cases hclosed
  | close sockfd =>
    rw [Proc.reply] at h
    split at h
    · cases h
      exact hsame _ rfl id id fun _ => rfl
    · obtain ⟨-, heq⟩ := Option.ite_none_right_eq_some.mp h
      cases heq
      exact hsame _ rfl id (fun _ => rfl) fun _ => rfl
  | _ =>
    cases h
    exact hsame _ rfl id id fun _ => rfl

theorem Proc.Sound.step {p p' : Proc} {answer : Answer} (h : p.Sound)
    (hstep : p.step answer = some p') : p.Advances p' := by
  obtain ⟨op, f, p₁, hrest, hreply, rfl⟩ := Proc.step_eq hstep
  obtain ⟨hconn, hclosed, bytes, hwire, hnone, hafter⟩ := Proc.reply_cases hreply
  have hok := h.ok
  rw [hrest, Prog.ok_call] at hok
  have hseen : Client.Seen.ofTrace (p.trace ++ [⟨op, answer op⟩]) =
      p.seen.after op (answer op) := Client.Seen.ofTrace_snoc _ _ _
  have hshut : p.shut = p.closed := by
    rw [Proc.shut, Proc.exited, hrest, Bool.or_false]
  refine ⟨⟨?_, ?_⟩, hconn, bytes, hwire, ?_, fun hp => ?_⟩
  · rw [Proc.seen, hseen]
    exact hok.2 _ _ rfl
  · rw [Proc.seen, hseen]
    exact h.proper.after hok.1 _
  · rw [Proc.seen, hseen]
    exact hafter _
  · rw [hshut] at hp
    refine ⟨hnone hp, ?_⟩
    rw [Proc.shut, hclosed hp, Bool.true_or]

/-! ### Who is connected to whom -/

/-- A connection of the server and the client at its other end. -/
structure Joined (sock : Sock) (p : Proc) : Prop where
  connected : p.connected = true
  stream : sock.arrived ++ p.wire = p.seen.written
  ended : sock.ended = true → p.wire = [] ∧ p.shut = true

structure Linked (net : Net) : Prop where
  sound : ∀ i, (net.procs i).Sound
  nodup : net.backlog.Nodup
  waiting : ∀ i ∈ net.backlog, (net.procs i).connected = true ∧ ∀ k, net.peerOf k ≠ some i
  accepted : ∀ k, k < net.server.next ↔ ∃ i, net.peerOf k = some i
  inj : ∀ k k' i, net.peerOf k = some i → net.peerOf k' = some i → k = k'
  joined : ∀ k i, net.peerOf k = some i → Joined (net.server.socks k) (net.procs i)
  /-- nothing arrives before the `accept` -/
  pending : ∀ i, (∀ k, net.peerOf k ≠ some i) → (net.procs i).wire = (net.procs i).seen.written

theorem linked_boot (stack : Worker → DataSection) : Linked (Net.boot stack) where
  sound _ := Proc.sound_boot
  nodup := List.nodup_nil
  waiting _ h := absurd h List.not_mem_nil
  accepted k := by
    refine iff_of_false (Nat.not_lt_zero k) ?_
    rintro ⟨i, hi⟩
    cases hi
  inj _ _ _ h := by cases h
  joined _ _ h := by cases h
  pending _ _ := rfl

theorem Joined.advances {sock : Sock} {p p' : Proc} (h : Joined sock p) (hp : p.Advances p') :
    Joined sock p' := by
  obtain ⟨bytes, hwire, hwritten, hshut⟩ := hp.sent
  refine ⟨hp.connected h.connected, ?_, fun hend => ?_⟩
  · rw [hwire, hwritten, ← List.append_assoc, h.stream]
  · obtain ⟨hnil, hs⟩ := h.ended hend
    obtain ⟨rfl, hs'⟩ := hshut hs
    rw [hwire, hnil]
    exact ⟨rfl, hs'⟩

section Steps

variable {net : Net}

/-- A client performs a call. -/
theorem Linked.client {net' : Net} {i : ClientId} {answer : Answer} (h : Linked net)
    (hstep : net.client i answer = some net') : Linked net' := by
  obtain ⟨p, hp, rfl⟩ := Net.client_eq hstep
  have hadv := (h.sound i).step hp
  have hnew : (net.procs i).connected = false → i ∉ net.backlog ∧ ∀ k, net.peerOf k ≠ some i := by
    intro hconn
    refine ⟨fun hmem => ?_, fun k hk => ?_⟩
    · rw [(h.waiting i hmem).1] at hconn
      cases hconn
    · rw [(h.joined k i hk).connected] at hconn
      cases hconn
  have hconn : ∀ j, (net.procs j).connected = true →
      (Function.update net.procs i p j).connected = true :=
    (Function.forall_update_iff net.procs fun j q =>
      (net.procs j).connected = true → q.connected = true).mpr ⟨hadv.connected, fun _ _ => id⟩
  constructor
  · exact (Function.forall_update_iff net.procs fun _ q => q.Sound).mpr
      ⟨hadv.sound, fun j _ => h.sound j⟩
  · dsimp only
    split
    · rename_i hc
      refine List.nodup_append.mpr ⟨h.nodup, List.nodup_singleton i, fun a ha b hb => ?_⟩
      rintro rfl
      exact (hnew hc.2).1 (List.mem_singleton.mp hb ▸ ha)
    · exact h.nodup
  · intro j hj
    dsimp only at hj
    split at hj
    · rename_i hc
      rcases List.mem_append.mp hj with hj | hj
      · exact ⟨hconn j (h.waiting j hj).1, (h.waiting j hj).2⟩
      · obtain rfl := List.mem_singleton.mp hj
        refine ⟨?_, (hnew hc.2).2⟩
        show (Function.update net.procs j p j).connected = true
        rw [Function.update_self]
        exact hc.1
    · exact ⟨hconn j (h.waiting j hj).1, (h.waiting j hj).2⟩
  · exact h.accepted
  · exact h.inj
  · intro k
    exact (Function.forall_update_iff net.procs fun j q =>
      net.peerOf k = some j → Joined (net.server.socks k) q).mpr
        ⟨fun hk => (h.joined k i hk).advances hadv, fun j _ => h.joined k j⟩
  · refine (Function.forall_update_iff net.procs fun j q =>
      (∀ k, net.peerOf k ≠ some j) → q.wire = q.seen.written).mpr
      ⟨fun hi => ?_, fun j _ => h.pending j⟩
    obtain ⟨bytes, hwire, hwritten, -⟩ := hadv.sent
    rw [hwire, hwritten, h.pending i hi]

/-- The server changes, and the connections are still those of the clients. -/
theorem Linked.serve (h : Linked net) {s : State} (hnext : s.next = net.server.next)
    (hjoined : ∀ k i, net.peerOf k = some i → Joined (net.server.socks k) (net.procs i) →
      Joined (s.socks k) (net.procs i)) : Linked { net with server := s } :=
  { h with
    accepted := fun k => by
      show k < s.next ↔ _
      rw [hnext]
      exact h.accepted k
    joined := fun k i hk => hjoined k i hk (h.joined k i hk) }

theorem Linked.arrive {net' : Net} {fd : Fd} {n : Nat} (h : Linked net)
    (harrive : net.arrive fd n = some net') : Linked net' := by
  obtain ⟨k, i, s, hfd, hk, hs, rfl⟩ := Net.arrive_eq harrive
  obtain ⟨k', sock, hfd', hact, rfl⟩ := peer_eq hs
  obtain rfl : k' = k := Option.some.inj (hfd'.symm.trans hfd)
  rw [Peer.act, Option.ite_none_left_eq_some] at hact
  obtain ⟨hopen, hsock⟩ := hact
  cases hsock
  obtain ⟨hconn, hstream, -⟩ := h.joined k' i hk
  constructor
  · exact (Function.forall_update_iff net.procs fun _ q => q.Sound).mpr
      ⟨⟨(h.sound i).ok, (h.sound i).proper⟩, fun j _ => h.sound j⟩
  · exact h.nodup
  · exact (Function.forall_update_iff net.procs fun j q =>
      j ∈ net.backlog → q.connected = true ∧ ∀ k, net.peerOf k ≠ some j).mpr
        ⟨h.waiting i, fun j _ => h.waiting j⟩
  · exact h.accepted
  · exact h.inj
  · refine (Function.forall_update_iff net.server.socks fun k sock =>
      ∀ j, net.peerOf k = some j → Joined sock (Function.update net.procs i _ j)).mpr
        ⟨fun j hj => ?_, fun k hne j hj => ?_⟩
    · obtain rfl : j = i := Option.some.inj (hj.symm.trans hk)
      rw [Function.update_self]
      refine ⟨hconn, ?_, fun hend => absurd hend hopen⟩
      show (_ ++ _) ++ (net.procs j).wire.drop n = (net.procs j).seen.written
      rw [List.append_assoc, List.take_append_drop, hstream]
    · -- another connection has another client
      have hji : j ≠ i := by
        rintro rfl
        exact hne (h.inj k k' j hj hk)
      rw [Function.update_of_ne hji]
      exact h.joined k j hj
  · refine (Function.forall_update_iff net.procs fun j q =>
      (∀ k, net.peerOf k ≠ some j) → q.wire = q.seen.written).mpr
        ⟨fun hi => absurd hk (hi k'), fun j _ => h.pending j⟩

theorem Linked.fin {net' : Net} {fd : Fd} (h : Linked net) (hfin : net.fin fd = some net') :
    Linked net' := by
  obtain ⟨k, i, s, hfd, hk, hwire, hshut, hs, rfl⟩ := Net.fin_eq hfin
  obtain ⟨k', sock, hfd', hact, rfl⟩ := peer_eq hs
  obtain rfl : k' = k := Option.some.inj (hfd'.symm.trans hfd)
  cases hact
  refine h.serve rfl ?_
  refine (Function.forall_update_iff net.server.socks fun k sock => ∀ j, net.peerOf k = some j →
    Joined (net.server.socks k) (net.procs j) → Joined sock (net.procs j)).mpr
      ⟨fun j hj hjoined => ?_, fun _ _ _ _ => id⟩
  obtain rfl : j = i := Option.some.inj (hj.symm.trans hk)
  exact ⟨hjoined.connected, hjoined.stream, fun _ => ⟨hwire, hshut⟩⟩

theorem Linked.reset {net' : Net} {fd : Fd} (h : Linked net) (hreset : net.reset fd = some net') :
    Linked net' := by
  obtain ⟨s, hs, rfl⟩ := Net.reset_eq hreset
  obtain ⟨k, sock, -, hact, rfl⟩ := peer_eq hs
  cases hact
  refine h.serve rfl ?_
  exact (Function.forall_update_iff net.server.socks fun k sock => ∀ j, net.peerOf k = some j →
    Joined (net.server.socks k) (net.procs j) → Joined sock (net.procs j)).mpr
      ⟨fun j _ hjoined => ⟨hjoined.connected, hjoined.stream, hjoined.ended⟩, fun _ _ _ _ => id⟩

/-- The first client of the backlog gets a connection of its own. -/
theorem Linked.accept {net' : Net} {new r : Option Fd} (h : Linked net)
    (haccept : net.accept new = some (r, net')) : Linked net' := by
  rcases Net.accept_cases haccept with ⟨-, rfl⟩ | ⟨fd, i, backlog, s, hlog, hs, rfl⟩
  · exact h
  rw [State.accept, Option.ite_none_right_eq_some] at hs
  obtain ⟨-, hs⟩ := hs
  cases hs
  have hmem : i ∈ net.backlog := hlog ▸ List.mem_cons_self
  obtain ⟨hconn, hfresh⟩ := h.waiting i hmem
  have hnodup := h.nodup
  rw [hlog, List.nodup_cons] at hnodup
  have hcase : ∀ k j, Function.update net.peerOf net.server.next (some i) k = some j →
      (k = net.server.next ∧ j = i) ∨ (k ≠ net.server.next ∧ net.peerOf k = some j) := by
    intro k j hk
    by_cases hnew : k = net.server.next
    · rw [hnew, Function.update_self] at hk
      exact Or.inl ⟨hnew, (Option.some.inj hk).symm⟩
    · rw [Function.update_of_ne hnew] at hk
      exact Or.inr ⟨hnew, hk⟩
  constructor
  · exact h.sound
  · exact hnodup.2
  · intro j hj
    have hwait := h.waiting j (hlog ▸ List.mem_cons_of_mem i hj)
    refine ⟨hwait.1, fun k hk => ?_⟩
    rcases hcase k j hk with ⟨-, rfl⟩ | ⟨-, hk⟩
    · exact hnodup.1 hj
    · exact hwait.2 k hk
  · intro k
    show k < net.server.next + 1 ↔
      ∃ j, Function.update net.peerOf net.server.next (some i) k = some j
    by_cases hnew : k = net.server.next
    · rw [hnew, Function.update_self]
      exact iff_of_true (Nat.lt_succ_self _) ⟨i, rfl⟩
    · rw [Function.update_of_ne hnew, ← h.accepted k]
      exact ⟨fun hlt => Nat.lt_of_le_of_ne (Nat.le_of_lt_succ hlt) hnew, Nat.lt_succ_of_lt⟩
  · -- the new connection is the only one of client `i`
    intro k k' j hk hk'
    rcases hcase k j hk with ⟨rfl, rfl⟩ | ⟨-, hold⟩
    · rcases hcase k' j hk' with ⟨rfl, -⟩ | ⟨-, hold'⟩
      · rfl
      · exact absurd hold' (hfresh k')
    · rcases hcase k' j hk' with ⟨-, rfl⟩ | ⟨-, hold'⟩
      · exact absurd hold (hfresh k)
      · exact h.inj k k' j hold hold'
  · intro k j hk
    show Joined (Function.update net.server.socks net.server.next { home := fd } k) (net.procs j)
    rcases hcase k j hk with ⟨rfl, rfl⟩ | ⟨hnew, hk⟩
    · rw [Function.update_self]
      refine ⟨hconn, h.pending j hfresh, fun hend => ?_⟩
      cases hend
    · rw [Function.update_of_ne hnew]
      exact h.joined k j hk
  · intro j hj
    refine h.pending j fun k hk => hj k ?_
    show Function.update net.peerOf net.server.next (some i) k = some j
    have hk' : k < net.server.next := (h.accepted k).mpr ⟨j, hk⟩
    rw [Function.update_of_ne (Nat.ne_of_lt hk'), hk]

end Steps

/-! ### Every run -/

/-- What a system call other than `accept` keeps of the connections. -/
theorem exec_streams {inp : Inp} {op : Op} {r : op.Res} {s s' : State} (hop : op ≠ .accept)
    (h : exec inp op s = some (r, s')) :
    s'.next = s.next ∧ ∀ k, (s'.socks k).arrived = (s.socks k).arrived ∧
      (s'.socks k).ended = (s.socks k).ended ∧ (s'.socks k).failed = (s.socks k).failed := by
  cases op with
  | accept => exact absurd rfl hop
  | epollWait w =>
    obtain ⟨-, -, rfl⟩ := epollWait_eq h
    exact ⟨rfl, fun _ => ⟨rfl, rfl, rfl⟩⟩
  | epollCtlAdd w fd =>
    rw [exec] at h
    split at h <;> cases h <;> exact ⟨rfl, fun _ => ⟨rfl, rfl, rfl⟩⟩
  | recvmsg w fd =>
    rw [exec, State.recvmsg] at h
    dsimp only at h
    split at h
    · cases h
      exact ⟨rfl, fun _ => ⟨rfl, rfl, rfl⟩⟩
    · rename_i k hk
      obtain ⟨p, -, heq⟩ := Option.map_eq_some_iff.mp h
      cases heq
      refine ⟨rfl, ?_⟩
      exact (Function.forall_update_iff s.socks fun k sock => sock.arrived = (s.socks k).arrived ∧
        sock.ended = (s.socks k).ended ∧ sock.failed = (s.socks k).failed).mpr
          ⟨⟨rfl, rfl, rfl⟩, fun _ _ => ⟨rfl, rfl, rfl⟩⟩
  | _ =>
    cases h
    exact ⟨rfl, fun _ => ⟨rfl, rfl, rfl⟩⟩

theorem Linked.exec {net net' : Net} {inp : Inp} {op : Op} {r : op.Res} (h : Linked net)
    (hexec : Net.exec inp op net = some (r, net')) : Linked net' := by
  by_cases hop : op = .accept
  · subst hop
    exact h.accept hexec
  · obtain ⟨s, hs, rfl⟩ := Net.exec_eq hop hexec
    obtain ⟨hnext, hsocks⟩ := exec_streams hop hs
    refine h.serve hnext fun k i _ hjoined => ?_
    obtain ⟨harrived, hended, -⟩ := hsocks k
    refine ⟨hjoined.connected, ?_, fun hend => hjoined.ended (hended ▸ hend)⟩
    rw [harrived]
    exact hjoined.stream

theorem Linked.act {net net' : Net} {e : Event} (h : Linked net) (hact : e.act net = some net') :
    Linked net' := by
  cases e with
  | client i answer => exact h.client hact
  | arrive fd n => exact h.arrive hact
  | fin fd => exact h.fin hact
  | reset fd => exact h.reset hact

section Runs

variable {stack : Worker → DataSection} {acts : List (Act Loop Inp Event Loop)}
  {c : Config Loop Op Op.Res Net Loop Unit}

theorem linked_of_run (h : exchange.run (exchange.init (Net.boot stack)) acts = some c) :
    Linked c.shared :=
  System.shared_of_run (fun h he => h.exec he) (fun h he => h.act he) (linked_boot stack) h

theorem server_of_run (h : exchange.run (exchange.init (Net.boot stack)) acts = some c) :
    ∃ acts', server.run (server.init (State.boot stack)) acts' = some (c.map Net.server) :=
  exchange_projects.exists_run h

theorem table_of_exchange (h : exchange.run (exchange.init (Net.boot stack)) acts = some c) :
    Table c.shared.server := by
  obtain ⟨acts', h'⟩ := server_of_run h
  exact table_of_run h'

/-- What arrives at a connection is part of a message. -/
theorem Linked.arrived {net : Net} (h : Linked net) {k : ConnId} {i : ClientId}
    (hk : net.peerOf k = some i) :
    (net.server.socks k).arrived.length ≤ Client.messageLength ∧
      ∀ b ∈ (net.server.socks k).arrived, b ≠ 0 := by
  have hproper := (h.sound i).proper
  have hpart : (net.server.socks k).arrived <+: (net.procs i).seen.drawn := by
    refine List.IsPrefix.trans ?_ hproper.sent
    rw [← (h.joined k i hk).stream]
    exact List.prefix_append _ _
  exact ⟨hpart.length_le.trans hproper.length_le, fun b hb => hproper.nonzero (hpart.subset hb)⟩

/-- No chunk fills a buffer. -/
theorem touch_lt (h : exchange.run (exchange.init (Net.boot stack)) acts = some c) {t : Touch}
    (ht : t ∈ c.shared.server.touches) : t.bytes.length < bufferSize := by
  have hlinked := linked_of_run h
  have htable := table_of_exchange h
  obtain ⟨k, hconn, -, -, hnext, -⟩ := htable.touched t ht
  obtain ⟨i, hi⟩ := (hlinked.accepted k).mp hnext
  have hreads : t.bytes.length ≤ (readsOf k c.shared.server.touches).length := by
    refine List.Sublist.length_le (List.sublist_flatten_of_mem (List.mem_map_of_mem ?_))
    exact List.mem_filter.mpr ⟨ht, by simpa using hconn⟩
  have hstream := congrArg List.length (htable.streams k)
  rw [List.length_append] at hstream
  have hlen := (hlinked.arrived hi).1
  have hsize : Client.messageLength < bufferSize := by decide
  omega

/-- Between passes: what is printed, has arrived and is on the wire. -/
theorem linesOf_append (hstack : ∀ w, bufferSize < (stack w).bytes.length)
    (h : exchange.run (exchange.init (Net.boot stack)) acts = some c)
    (hidle : ∀ w, c.running (.worker w) = none) {k : ConnId} {i : ClientId}
    (hi : c.shared.peerOf k = some i) :
    linesOf k c.shared.server.lines ++
        ((c.shared.server.socks k).buffer ++ (c.shared.procs i).wire) =
      (c.shared.procs i).seen.written := by
  have hlinked := linked_of_run h
  obtain ⟨acts', h'⟩ := server_of_run h
  have hlines : linesOf k c.shared.server.lines = readsOf k c.shared.server.touches :=
    linesOf_eq_readsOf hstack h' hidle (hlinked.arrived hi).2
  rw [hlines, ← List.append_assoc, (table_of_exchange h).streams k]
  exact (hlinked.joined k i hi).stream

theorem linesOf_of_closed (hstack : ∀ w, bufferSize < (stack w).bytes.length)
    (h : exchange.run (exchange.init (Net.boot stack)) acts = some c)
    (hidle : ∀ w, c.running (.worker w) = none) {k : ConnId} {i : ClientId}
    (hi : c.shared.peerOf k = some i)
    (hclosed : c.shared.server.fds (c.shared.server.socks k).home ≠ some k)
    (hfail : (c.shared.server.socks k).failed = false) :
    linesOf k c.shared.server.lines = (c.shared.procs i).seen.written := by
  have hlinked := linked_of_run h
  have hlines := linesOf_append hstack h hidle hi
  rcases (table_of_exchange h).closed k ((hlinked.accepted k).mpr ⟨i, hi⟩) hclosed with
    ⟨hbuffer, hended⟩ | hbroken
  · rw [hbuffer, ((hlinked.joined k i hi).ended hended).1, List.append_nil,
      List.append_nil] at hlines
    exact hlines
  · rw [hfail] at hbroken
    cases hbroken

/-- **The server prints what its clients write.**  For any number of clients, whatever the
interleaving and in whatever pieces the bytes travel:

* every write of the server is inside its buffer;
* behind every connection there is a client of its own, and what this client has written is
  its message, as far as `write` took it;
* between passes, the lines printed for the connection, the bytes that have arrived and the
  bytes on the wire are together what the client has written, and once the server has closed
  the connection, and it did not break, the lines are all of it. -/
theorem prints_messages (hstack : ∀ w, bufferSize < (stack w).bytes.length)
    (h : exchange.run (exchange.init (Net.boot stack)) acts = some c) :
    (∀ wr ∈ c.shared.server.writes, wr.InBounds) ∧
    ∀ k < c.shared.server.next, ∃ i, c.shared.peerOf k = some i ∧
      (∀ k', c.shared.peerOf k' = some i → k' = k) ∧
      (c.shared.procs i).seen.written <+: (c.shared.procs i).seen.drawn ∧
      ((c.shared.procs i).seen.written ≠ [] →
        (c.shared.procs i).seen.drawn.length = Client.messageLength) ∧
      ((∀ w, c.running (.worker w) = none) →
        linesOf k c.shared.server.lines ++
            ((c.shared.server.socks k).buffer ++ (c.shared.procs i).wire) =
          (c.shared.procs i).seen.written ∧
        (c.shared.server.fds (c.shared.server.socks k).home ≠ some k →
          (c.shared.server.socks k).failed = false →
          linesOf k c.shared.server.lines = (c.shared.procs i).seen.written)) := by
  have hlinked := linked_of_run h
  obtain ⟨acts', h'⟩ := server_of_run h
  refine ⟨fun wr hwr => ?_, fun k hk => ?_⟩
  · obtain ⟨v, hb, -⟩ := books_of_run hstack h' wr.worker
    rcases hb.bounds wr (List.mem_filter.mpr ⟨hwr, by simp⟩) with hin | ⟨t, ht, hfull⟩
    · exact hin
    · exact absurd hfull (Nat.ne_of_lt (touch_lt h (List.mem_of_mem_filter ht)))
  · obtain ⟨i, hi⟩ := (hlinked.accepted k).mp hk
    have hproper := (hlinked.sound i).proper
    refine ⟨i, hi, fun k' hk' => hlinked.inj k' k i hk' hi, hproper.sent, hproper.whole,
      fun hidle => ?_⟩
    exact ⟨linesOf_append hstack h hidle hi, linesOf_of_closed hstack h hidle hi⟩

/-! ### Messages get through -/

/-- Every system call of the server can be answered. -/
theorem exec_enabled (op : Op) (s : State) : ∃ inp, (exec inp op s).isSome = true := by
  cases op with
  | epollCtlAdd w fd =>
    refine ⟨{}, ?_⟩
    rw [exec]
    split <;> rfl
  | epollWait w =>
    refine ⟨{}, ?_⟩
    rw [exec, if_pos ⟨Nat.zero_le _, List.nodup_nil, fun event h => absurd h List.not_mem_nil⟩]
    rfl
  | recvmsg w fd =>
    have hrecv : ∀ k, ∃ r, ((s.socks k).recv r).isSome = true := by
      intro k
      by_cases hready : (s.socks k).Ready
      · by_cases hbuffer : (s.socks k).buffer = []
        · rcases hready with hne | hended | hfailed
          · exact absurd hbuffer hne
          · exact ⟨.eof, by rw [Sock.recv, if_pos ⟨hbuffer, hended⟩]; rfl⟩
          · exact ⟨.error, by rw [Sock.recv, if_pos hfailed]; rfl⟩
        · have hlen := List.length_pos_iff.mpr hbuffer
          exact ⟨.data 1, by rw [Sock.recv, if_pos ⟨Nat.le_refl _, by decide, hlen⟩]; rfl⟩
      · exact ⟨.again, by rw [Sock.recv, if_pos hready]; rfl⟩
    cases hfd : s.fds fd with
    | none =>
      refine ⟨{}, ?_⟩
      rw [exec, State.recvmsg, hfd]
      rfl
    | some k =>
      obtain ⟨r, hr⟩ := hrecv k
      refine ⟨{ received := r }, ?_⟩
      rw [exec, State.recvmsg, hfd]
      dsimp only
      rw [Option.isSome_map, hr]
  | _ => exact ⟨{}, rfl⟩

theorem peer_sends {s : State} {fd : Fd} {k : ConnId} (hfd : s.fds fd = some k)
    (hopen : ¬ (s.socks k).ended = true) (bytes : List UInt8) :
    peer (.sends fd bytes) s = some { s with
      socks := Function.update s.socks k { s.socks k with
        arrived := (s.socks k).arrived ++ bytes, buffer := (s.socks k).buffer ++ bytes } } := by
  rw [peer, Peer.fd, hfd]
  dsimp only
  rw [Peer.act, if_neg hopen, Option.map_some]

/-- The connection `k` of client `i` has not broken, and `i` has written `bytes`. -/
structure Owes (k : ConnId) (i : ClientId) (bytes : List UInt8) (net : Net) : Prop where
  peer : net.peerOf k = some i
  sound : (net.server.socks k).failed = false
  written : (net.procs i).seen.written = bytes

section Owes

variable {k : ConnId} {i : ClientId} {bytes : List UInt8} {net : Net}

theorem Owes.exec {inp : Inp} {op : Op} {r : op.Res} {net' : Net} (h : Owes k i bytes net)
    (hop : op ≠ .accept) (hexec : Net.exec inp op net = some (r, net')) : Owes k i bytes net' := by
  obtain ⟨s, hs, rfl⟩ := Net.exec_eq hop hexec
  exact ⟨h.peer, ((exec_streams hop hs).2 k).2.2.trans h.sound, h.written⟩

theorem Owes.enabled (op : Op) (h : Owes k i bytes net) :
    ∃ inp r net', Net.exec inp op net = some (r, net') ∧ Owes k i bytes net' := by
  by_cases hop : op = .accept
  · subst hop
    exact ⟨{}, none, net, rfl, h⟩
  · obtain ⟨inp, hinp⟩ := exec_enabled op net.server
    obtain ⟨⟨r, s⟩, hs⟩ := Option.isSome_iff_exists.mp hinp
    have hexec : Net.exec inp op net = some (r, { net with server := s }) := by
      cases op with
      | accept => exact absurd rfl hop
      | _ =>
        simp only [Net.exec, Option.map_eq_some_iff]
        exact ⟨(r, s), hs, rfl⟩
    exact ⟨inp, r, _, hexec, h.exec hop hexec⟩

/-- Everything on the wire can arrive. -/
theorem Owes.arrive (h : Owes k i bytes net) {fd : Fd} (hfd : net.server.fds fd = some k)
    (hopen : ¬ (net.server.socks k).ended = true) :
    ∃ net', net.arrive fd (net.procs i).wire.length = some net' ∧ Owes k i bytes net' ∧
      (net'.procs i).wire = [] ∧ net'.server.fds = net.server.fds ∧
      (net'.server.socks k).home = (net.server.socks k).home := by
  refine ⟨{ net with
    server := { net.server with
      socks := Function.update net.server.socks k { net.server.socks k with
        arrived := (net.server.socks k).arrived ++ (net.procs i).wire,
        buffer := (net.server.socks k).buffer ++ (net.procs i).wire } }
    procs := Function.update net.procs i { net.procs i with wire := [] } }, ?_, ⟨h.peer, ?_, ?_⟩,
      ?_, rfl, ?_⟩
  · simp only [Net.arrive, Option.bind_eq_bind, hfd, h.peer, Option.bind_some,
      peer_sends hfd hopen, List.take_length, Proc.drop, List.drop_length]
    rfl
  · simpa only [Function.update_self] using h.sound
  · dsimp only
    rw [Function.update_self]
    exact h.written
  · simp only [Function.update_self]
  · simp only [Function.update_self]

/-- A pass of the owner takes everything that has arrived. -/
theorem run_workerThread {w : Worker} {fd : Fd} (hfd : net.server.fds fd = some k)
    (hmem : fd ∈ net.server.sets w) (hne : (net.server.socks k).buffer ≠ [])
    (hlen : (net.server.socks k).buffer.length ≤ bufferSize) :
    ∃ inp net', (workerThread w).run (Net.exec inp) net = some ((), net') ∧
      net'.peerOf = net.peerOf ∧ net'.procs = net.procs ∧ (net'.server.socks k).buffer = [] := by
  have hpos := List.length_pos_iff.mpr hne
  have hready : net.server.Ready fd := ⟨k, hfd, Or.inl hne⟩
  let inp : Inp := { events := [⟨fd, true⟩], received := .data (net.server.socks k).buffer.length }
  have hwait : inp.events.length ≤ maxEvents ∧ (inp.events.map (·.fd)).Nodup ∧
      ∀ event ∈ inp.events, event.fd ∈ net.server.sets w ∧ net.server.Ready event.fd :=
    ⟨show 1 ≤ maxEvents by decide, List.nodup_singleton _,
      List.forall_mem_singleton.mpr ⟨hmem, hready⟩⟩
  have hrecv : (net.server.socks k).recv inp.received =
      some ((net.server.socks k).buffer, ((net.server.socks k).buffer.length : Int)) := by
    show (net.server.socks k).recv (.data _) = _
    rw [Sock.recv, if_pos ⟨hpos, hlen, Nat.le_refl _⟩, List.take_length]
  have hn : ¬ ((net.server.socks k).buffer.length : Int) ≤ 0 := by omega
  refine ⟨inp, ?_⟩
  simp only [workerThread, epollWait, Prog.perform_bind, Prog.run_call, Net.exec, exec,
    if_pos hwait, Option.map_some, Option.bind_some]
  rw [show inp.events = [⟨fd, true⟩] from rfl, handleEvents_cons]
  simp only [Prog.run_call, Net.exec, exec, Option.map_some, Option.bind_some, State.recvmsg, hfd,
    hrecv, if_neg hn]
  refine ⟨_, rfl, rfl, rfl, ?_⟩
  simp only [Function.update_self, List.drop_length]

end Owes

/-- All the threads of the server. -/
def threads : List Loop := .main :: (List.finRange numThreads).map .worker

theorem mem_threads (l : Loop) : l ∈ threads := by
  cases l with
  | main => exact List.mem_cons_self
  | worker w => exact List.mem_cons_of_mem _ (List.mem_map_of_mem (List.mem_finRange w))

section Continue

variable {k : ConnId} {i : ClientId} {bytes : List UInt8}

/-- The run goes on until nothing is left on the wire of an open connection. -/
theorem exists_arrived (h : exchange.run (exchange.init (Net.boot stack)) acts = some c)
    (howes : Owes k i bytes c.shared)
    (hopen : c.shared.server.fds (c.shared.server.socks k).home = some k) :
    ∃ acts' c', exchange.run c acts' = some c' ∧ c'.running = c.running ∧
      Owes k i bytes c'.shared ∧ (c'.shared.procs i).wire = [] ∧
      c'.shared.server.fds (c'.shared.server.socks k).home = some k := by
  by_cases hwire : (c.shared.procs i).wire = []
  · exact ⟨[], c, rfl, rfl, howes, hwire, hopen⟩
  · have hended : ¬ (c.shared.server.socks k).ended = true := fun hend =>
      hwire (((linked_of_run h).joined k i howes.peer).ended hend).1
    obtain ⟨net, hnet, howes', hwire', hfds, hhome⟩ := howes.arrive hopen hended
    have hstep : exchange.step c (.env (.arrive (c.shared.server.socks k).home
        (c.shared.procs i).wire.length)) = some ⟨net, c.running, c.log⟩ :=
      congrArg (Option.map fun net => (⟨net, c.running, c.log⟩ : Config _ _ _ _ _ _)) hnet
    refine ⟨_, ⟨net, c.running, c.log⟩, (System.run_cons hstep).trans (System.run_nil _ _), rfl,
      howes', hwire', ?_⟩
    show net.server.fds (net.server.socks k).home = some k
    rw [hfds, hhome]
    exact hopen

/-- Between passes, with nothing on the wire, one pass of the owner is enough. -/
theorem exists_printed (hstack : ∀ w, bufferSize < (stack w).bytes.length)
    (h : exchange.run (exchange.init (Net.boot stack)) acts = some c)
    (hidle : ∀ l, c.running l = none) (howes : Owes k i bytes c.shared)
    (hwire : (c.shared.procs i).wire = [])
    (hopen : c.shared.server.fds (c.shared.server.socks k).home = some k) :
    ∃ acts' c', exchange.run c acts' = some c' ∧ linesOf k c'.shared.server.lines = bytes := by
  have hlinked := linked_of_run h
  by_cases hbuffer : (c.shared.server.socks k).buffer = []
  · have hlines := linesOf_append hstack h (fun w => hidle _) howes.peer
    rw [hbuffer, hwire, howes.written, List.append_nil, List.append_nil] at hlines
    exact ⟨[], c, rfl, hlines⟩
  obtain ⟨acts', h'⟩ := server_of_run h
  have hmem : (c.shared.server.socks k).home ∈
      c.shared.server.sets (owner (c.shared.server.socks k).home) := by
    refine mem_sets_of_run h' (Option.isSome_iff_exists.mpr ⟨k, hopen⟩) ?_
    rintro ⟨th, f, hrun, -⟩
    rw [show (c.map Net.server).running .main = none from hidle .main] at hrun
    cases hrun
  have hlen : (c.shared.server.socks k).buffer.length ≤ bufferSize := by
    have hstream := congrArg List.length ((table_of_exchange h).streams k)
    rw [List.length_append] at hstream
    have harrived := (hlinked.arrived howes.peer).1
    have hsize : Client.messageLength < bufferSize := by decide
    omega
  obtain ⟨inp, net, hpass, hpeer, hprocs, hnil⟩ := run_workerThread hopen hmem hbuffer hlen
  obtain ⟨acts₁, tr, h₁⟩ := System.exists_run_of_run (S := exchange) inp
    (.worker (owner (c.shared.server.socks k).home)) (hidle _) hpass
  have hreach := (System.run_append_of_run h acts₁).trans h₁
  have hidle' : ∀ w, Function.update c.running (.worker (owner (c.shared.server.socks k).home))
      none (.worker w) = none :=
    fun w => (Function.forall_update_iff c.running fun _ th => th = none).mpr
      ⟨rfl, fun l _ => hidle l⟩ (.worker w)
  have hlines := linesOf_append hstack hreach hidle' (hpeer ▸ howes.peer)
  rw [hnil, hprocs, hwire, howes.written, List.append_nil, List.append_nil] at hlines
  exact ⟨acts₁, _, h₁, hlines⟩

end Continue

/-- **Messages get through.**  At any time, whatever the clients and the server are doing, if
the connection of a client has been accepted and is not broken, then the run can go on so that
all that the client has written by now is printed. -/
theorem message_arrives (hstack : ∀ w, bufferSize < (stack w).bytes.length)
    (h : exchange.run (exchange.init (Net.boot stack)) acts = some c) {k : ConnId} {i : ClientId}
    (hk : c.shared.peerOf k = some i) (hsound : (c.shared.server.socks k).failed = false) :
    ∃ acts' c', exchange.run c acts' = some c' ∧
      linesOf k c'.shared.server.lines = (c.shared.procs i).seen.written := by
  -- first every thread finishes its pass
  obtain ⟨acts₁, c₁, h₁, howes₁, hidle₁, -⟩ := System.exists_idle
    (I := Owes k i (c.shared.procs i).seen.written) (fun op {_} h => h.enabled op) threads h
    ⟨hk, hsound, rfl⟩
  have hreach₁ := (System.run_append_of_run h acts₁).trans h₁
  have hworkers₁ : ∀ w, c₁.running (.worker w) = none := fun w => hidle₁ _ (mem_threads _)
  by_cases hopen : c₁.shared.server.fds (c₁.shared.server.socks k).home = some k
  swap
  · refine ⟨acts₁, c₁, h₁, ?_⟩
    rw [linesOf_of_closed hstack hreach₁ hworkers₁ howes₁.peer hopen howes₁.sound]
    exact howes₁.written
  -- then what is on the wire arrives, and a pass of the owner prints it
  obtain ⟨acts₂, c₂, h₂, hrunning, howes₂, hwire, hopen₂⟩ := exists_arrived hreach₁ howes₁ hopen
  have hreach₂ := (System.run_append_of_run hreach₁ acts₂).trans h₂
  have hidle₂ : ∀ l, c₂.running l = none := by
    intro l
    rw [hrunning]
    exact hidle₁ l (mem_threads l)
  obtain ⟨acts₃, c₃, h₃, hlines⟩ := exists_printed hstack hreach₂ hidle₂ howes₂ hwire hopen₂
  refine ⟨acts₁ ++ (acts₂ ++ acts₃), c₃, ?_, hlines⟩
  rw [System.run_append_of_run h₁, System.run_append_of_run h₂, h₃]

end Runs

/-! ### A run -/

/-- Every call of the client succeeds, `write` takes all the bytes, and every draw gives the
first letter. -/
def exampleAnswer : Answer
  | .getpid => 1
  | .cout _ => ()
  | .fprintf _ => ()
  | .perror _ => ()
  | .socket => 3
  | .setsockopt _ => 0
  | .gethostbyname _ => true
  | .connect _ _ => 0
  | .distribution => ⟨0, Client.characters_pos⟩
  | .write _ bytes => bytes.length
  | .clocks => ⟨⟨0, 0⟩, 0⟩
  | .close _ => 0
  | .sleep _ => ()

/-- The configuration in which the process of client `i` is `p`. -/
def withProc (c : Config Loop Op Op.Res Net Loop Unit) (i : ClientId) (p : Proc) :
    Config Loop Op Op.Res Net Loop Unit :=
  ⟨{ c.shared with procs := Function.update c.shared.procs i p }, c.running, c.log⟩

section WithProc

variable (c : Config Loop Op Op.Res Net Loop Unit) (i : ClientId) (p q : Proc)

@[simp] theorem procs_withProc : (withProc c i p).shared.procs i = p := Function.update_self ..

@[simp] theorem withProc_withProc : withProc (withProc c i p) i q = withProc c i q := by
  simp only [withProc, Function.update_idem]

theorem withProc_self : withProc c i (c.shared.procs i) = c := by
  rw [withProc, Function.update_eq_self]

end WithProc

/-- A call of a client that is not a `connect`. -/
theorem step_client {c : Config Loop Op Op.Res Net Loop Unit} {i : ClientId} {answer : Answer}
    {p : Proc} (hp : (c.shared.procs i).step answer = some p)
    (hconn : p.connected = (c.shared.procs i).connected) :
    exchange.step c (.env (.client i answer)) = some (withProc c i p) := by
  have hcond : ¬ (p.connected = true ∧ (c.shared.procs i).connected = false) := by
    rintro ⟨htrue, hfalse⟩
    rw [hconn, hfalse] at htrue
    cases htrue
  have hclient : c.shared.client i answer =
      some { c.shared with procs := Function.update c.shared.procs i p } := by
    rw [Net.client, hp, Option.map_some, if_neg hcond]
  exact congrArg (Option.map fun net => (⟨net, c.running, c.log⟩ : Config _ _ _ _ _ _)) hclient

/-- The draws of a message. -/
theorem run_draws (i : ClientId) (f : List UInt8 → Client.Program Int) (n : Nat) :
    ∀ (c : Config Loop Op Op.Res Net Loop Unit) (message : List UInt8),
      (c.shared.procs i).rest = Client.generateLoop n message >>= f →
      ∃ p, exchange.run c (List.replicate n (.env (.client i exampleAnswer))) =
          some (withProc c i p) ∧
        p.rest = f (message ++ List.replicate n 97) ∧ p.socket = (c.shared.procs i).socket ∧
        p.connected = (c.shared.procs i).connected ∧ p.closed = (c.shared.procs i).closed ∧
        p.seen.written = (c.shared.procs i).seen.written := by
  induction n with
  | zero =>
    intro c message hrest
    refine ⟨c.shared.procs i, ?_, ?_, rfl, rfl, rfl, rfl⟩
    · rw [withProc_self]
      rfl
    · rw [hrest, List.replicate_zero, List.append_nil]
      rfl
  | succ n ih =>
    intro c message hrest
    obtain ⟨q, hq, hq'⟩ : ∃ q, (c.shared.procs i).step exampleAnswer = some q ∧
        q = { c.shared.procs i with
          trace := (c.shared.procs i).trace ++ [⟨.distribution, exampleAnswer .distribution⟩]
          rest := Client.generateLoop n (message ++ [97]) >>= f } := by
      rw [Proc.step, hrest]
      exact ⟨_, rfl, rfl⟩
    have hconn : q.connected = (c.shared.procs i).connected := by rw [hq']
    obtain ⟨p, hrun, hprest, hsocket, hpconn, hclosed, hwritten⟩ :=
      ih (withProc c i q) (message ++ [97]) (by rw [procs_withProc, hq'])
    rw [procs_withProc, hq'] at hsocket hpconn hclosed hwritten
    refine ⟨p, ?_, ?_, hsocket, hpconn, hclosed, ?_⟩
    · rw [List.replicate_succ, System.run_cons (step_client hq hconn), hrun, withProc_withProc]
    · rw [hprest, List.replicate_succ, List.append_assoc]
      rfl
    · rw [hwritten, Proc.seen, Client.Seen.ofTrace_snoc]
      rfl

/-- The client connects, and its connection is accepted. -/
def exampleStart : List (Act Loop Inp Event Loop) :=
  List.replicate 6 (.env (.client 0 exampleAnswer)) ++
    [.spawn .main, .step .main { accepted := some 5 }, .step .main {}]

/-- The message is copied and written. -/
theorem step_send {p : Proc} {message : List UInt8} (hrest : p.rest = Client.send 3 message)
    (hsocket : p.socket = some 3) (hconn : p.connected = true) (hclosed : p.closed = false)
    (hlen : message.length = Client.messageLength) (hne : ∀ b ∈ message, b ≠ 0) :
    ∃ p', p.step exampleAnswer = some p' ∧ p'.connected = p.connected ∧
      p'.seen.written = p.seen.written ++ message := by
  obtain ⟨⟨-, htext⟩, hcstr⟩ := Client.holds_buffer hlen hne
  obtain ⟨f, hf⟩ : ∃ f : Int → Client.Program Int, Client.send 3 message = .call (.write 3
      (CharArray.strncpy Client.bufferSize (Client.cStr message)).text) f := ⟨_, rfl⟩
  rw [htext, hcstr] at hf
  have hreply : p.reply (.write 3 message) (exampleAnswer (.write 3 message)) =
      some { p with wire := p.wire ++ message } := by
    have hpos : ¬ (message.length : Int) < 0 := by omega
    rw [Proc.reply, exampleAnswer, if_neg hpos,
      if_pos ⟨hsocket, hconn, hclosed, Int.le_refl _⟩, Int.toNat_natCast, List.take_length]
  rw [Proc.step, hrest, hf]
  dsimp only
  rw [hreply]
  refine ⟨_, rfl, rfl, ?_⟩
  rw [Proc.seen, Client.Seen.ofTrace_snoc]
  show p.seen.written ++ message.take (Int.toNat (message.length : Int)) = _
  rw [Int.toNat_natCast, List.take_length]

/-- A client gets as far as its `write`. -/
theorem exists_sent : ∃ acts c, exchange.run (exchange.init (Net.boot exampleStack)) acts = some c ∧
    (∀ w, c.running (.worker w) = none) ∧ c.shared.peerOf 0 = some 0 ∧
    (c.shared.server.socks 0).failed = false ∧
    (c.shared.procs 0).seen.written = List.replicate Client.messageLength 97 := by
  have hstart : (exchange.run (exchange.init (Net.boot exampleStack)) exampleStart).isSome =
      true := by
    decide +kernel
  obtain ⟨c₀, h₀⟩ := Option.isSome_iff_exists.mp hstart
  have hread : ∀ {α : Type} (g : Config Loop Op Op.Res Net Loop Unit → α),
      some (g c₀) = (exchange.run (exchange.init (Net.boot exampleStack)) exampleStart).map g := by
    intro α g
    rw [h₀]
    rfl
  have hrest : (c₀.shared.procs 0).rest =
      Client.generateLoop Client.messageLength [] >>= Client.send 3 :=
    Option.some.inj (hread fun c => (c.shared.procs 0).rest)
  obtain ⟨p, hdraws, hprest, hsocket, hconn, hclosed, hwritten⟩ :=
    run_draws 0 (Client.send 3) Client.messageLength c₀ [] hrest
  obtain ⟨q, hq, hqconn, hsent⟩ := step_send hprest
    (hsocket.trans (Option.some.inj (hread fun c => (c.shared.procs 0).socket)))
    (hconn.trans (Option.some.inj (hread fun c => (c.shared.procs 0).connected)))
    (hclosed.trans (Option.some.inj (hread fun c => (c.shared.procs 0).closed)))
    List.length_replicate (fun b hb => by rw [List.eq_of_mem_replicate hb]; decide)
  have hstep : exchange.step (withProc c₀ 0 p) (.env (.client 0 exampleAnswer)) =
      some (withProc c₀ 0 q) := by
    rw [step_client (by rw [procs_withProc, hq]) (by rw [procs_withProc, hqconn]),
      withProc_withProc]
  refine ⟨exampleStart ++ (List.replicate Client.messageLength (.env (.client 0 exampleAnswer)) ++
    [.env (.client 0 exampleAnswer)]), withProc c₀ 0 q, ?_, fun w => ?_, ?_, ?_, ?_⟩
  · rw [System.run_append_of_run h₀, System.run_append_of_run hdraws, System.run_cons hstep,
      System.run_nil]
  · exact Option.some.inj (hread fun c => c.running (.worker w))
  · exact Option.some.inj (hread fun c => c.shared.peerOf 0)
  · exact Option.some.inj (hread fun c => (c.shared.server.socks 0).failed)
  · rw [procs_withProc, hsent, hwritten, List.nil_append,
      show (c₀.shared.procs 0).seen.written = [] from
        Option.some.inj (hread fun c => (c.shared.procs 0).seen.written), List.nil_append]

theorem prints_messages_example :
    ∃ acts c, exchange.run (exchange.init (Net.boot exampleStack)) acts = some c ∧
      (∀ wr ∈ c.shared.server.writes, wr.InBounds) ∧
      linesOf 0 c.shared.server.lines ++
          ((c.shared.server.socks 0).buffer ++ (c.shared.procs 0).wire) =
        List.replicate Client.messageLength 97 := by
  obtain ⟨acts, c, h, hidle, hpeer, -, hwritten⟩ := exists_sent
  obtain ⟨hbounds, hconns⟩ := prints_messages room_exampleStack h
  have hnext := ((linked_of_run h).accepted 0).mpr ⟨0, hpeer⟩
  obtain ⟨i, hi, -, -, -, hlines⟩ := hconns 0 hnext
  obtain rfl : 0 = i := Option.some.inj (hpeer.symm.trans hi)
  exact ⟨acts, c, h, hbounds, (hlines hidle).1.trans hwritten⟩

theorem message_arrives_example :
    ∃ acts c, exchange.run (exchange.init (Net.boot exampleStack)) acts = some c ∧
      linesOf 0 c.shared.server.lines = List.replicate Client.messageLength 97 := by
  obtain ⟨acts, c, h, -, hpeer, hsound, hwritten⟩ := exists_sent
  obtain ⟨acts', c', h', hlines⟩ := message_arrives room_exampleStack h hpeer hsound
  exact ⟨acts ++ acts', c', (System.run_append_of_run h acts').trans h', hlines.trans hwritten⟩

end NetworkAnalyse.Server
