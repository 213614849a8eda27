import Mathlib.Algebra.BigOperators.Group.List.Basic
import Mathlib.Algebra.Order.Ring.Nat
import Mathlib.Data.List.Induction
import NetworkAnalyse.Lib.Interleave

/-!
# The proxy

`ProxySession` and `ProxyServer` of `proxy/proxy.cpp`.  A session is a chain of
callbacks: it has at most one asynchronous operation under way, and the handler of the
operation starts the next one.  What asio reports is a `Completion`; a write is reported
piece by piece, as the socket takes it.

The session's answers go back to the client as they came (`Session.Inv`).  What goes to
the server is not what the client has sent: `write_to_server` fills the buffer with
`'a'` and sends all of it.

* `relays_iff`: when a session relays faithfully, in every run of the server.
-/

namespace NetworkAnalyse.Proxy

open Lib

def bufferSize : Nat := 8192

/-- `std::array<char, 8192>` -/
abbrev Buffer := Vector UInt8 bufferSize

/-- What a read leaves in a buffer. -/
def Buffer.put (b : Buffer) (bytes : List UInt8) (h : bytes.length ≤ bufferSize) : Buffer :=
  ⟨(bytes ++ b.toList.drop bytes.length).toArray, by simp; omega⟩

/-- The character `'a'`. -/
def fillByte : UInt8 := 97

/-- The operation under way.  A write knows how many bytes have gone already. -/
inductive Pending
  | readFromClient
  | connectToServer
  | writeToServer (sent : Nat)
  | readFromServer
  | writeToClient (length sent : Nat)
  /-- none; the session is destroyed -/
  | none
  deriving DecidableEq, Repr

/-- A session, and what has gone through its sockets. -/
structure Session where
  clientBuffer : Buffer
  serverBuffer : Buffer
  pending : Pending
  fromClient : List UInt8 := []
  toServer : List UInt8 := []
  fromServer : List UInt8 := []
  toClient : List UInt8 := []

/-- What asio reports.  The handler of the first read resolves the host, which succeeds
or throws. -/
inductive Completion
  | clientRead (bytes : List UInt8) (resolves : Bool)
  | connected
  | serverTook (n : Nat)
  | serverRead (bytes : List UInt8)
  | clientTook (n : Nat)
  | failed
  deriving DecidableEq, Repr

namespace Session

def readFromClient (s : Session) : Session := { s with pending := .readFromClient }

def connectToServer (s : Session) (resolves : Bool) : Session :=
  { s with pending := if resolves then .connectToServer else .none }

def writeToServer (s : Session) : Session :=
  { s with
    clientBuffer := Vector.replicate bufferSize fillByte
    pending := .writeToServer 0 }

def readFromServer (s : Session) : Session := { s with pending := .readFromServer }

def writeToClient (s : Session) (length : Nat) : Session :=
  { s with pending := .writeToClient length 0 }

/-- The buffers are not initialised. -/
def start (clientBuffer serverBuffer : Buffer) : Session :=
  readFromClient ⟨clientBuffer, serverBuffer, .none, [], [], [], []⟩

/-- `none`: asio does not report this now. -/
def step (s : Session) : Completion → Option Session
  | .clientRead bytes resolves =>
    if h : s.pending = .readFromClient ∧ 0 < bytes.length ∧ bytes.length ≤ bufferSize then
      some ({ s with
        clientBuffer := s.clientBuffer.put bytes h.2.2
        fromClient := s.fromClient ++ bytes }.connectToServer resolves)
    else none
  | .connected => if s.pending = .connectToServer then some s.writeToServer else none
  | .serverTook n =>
    match s.pending with
    | .writeToServer sent =>
      if 0 < n ∧ sent + n ≤ bufferSize then
        let s := { s with toServer := s.toServer ++ (s.clientBuffer.toList.drop sent).take n }
        some (if sent + n = bufferSize then s.readFromServer
          else { s with pending := .writeToServer (sent + n) })
      else none
    | _ => none
  | .serverRead bytes =>
    if h : s.pending = .readFromServer ∧ 0 < bytes.length ∧ bytes.length ≤ bufferSize then
      some ({ s with
        serverBuffer := s.serverBuffer.put bytes h.2.2
        fromServer := s.fromServer ++ bytes }.writeToClient bytes.length)
    else none
  | .clientTook n =>
    match s.pending with
    | .writeToClient length sent =>
      if 0 < n ∧ sent + n ≤ length then
        let s := { s with
          toClient := s.toClient ++ ((s.serverBuffer.toList.take length).drop sent).take n }
        some (if sent + n = length then s.readFromServer
          else { s with pending := .writeToClient length (sent + n) })
      else none
    | _ => none
  | .failed => if s.pending = .none then none else some { s with pending := .none }

def run (s : Session) (es : List Completion) : Option Session := es.foldlM step s

end Session

/-! ### The server -/

/-- All sessions since the start, and whether `io_context.run` is still running. -/
structure Server where
  sessions : List Session
  running : Bool

/-- `accept` completes with a connection or an error, or a session's operation does. -/
inductive Event
  | accepted (clientBuffer serverBuffer : Buffer)
  | notAccepted
  | session (i : Nat) (e : Completion)

/-- An exception leaves `io_context.run`. -/
def Completion.throws : Completion → Bool
  | .clientRead _ resolves => !resolves
  | _ => false

namespace Server

def boot : Server := ⟨[], true⟩

def step (v : Server) (e : Event) : Option Server :=
  if v.running then
    match e with
    | .accepted clientBuffer serverBuffer =>
      some { v with sessions := v.sessions ++ [.start clientBuffer serverBuffer] }
    | .notAccepted => some v
    | .session i e => do
      let s ← v.sessions[i]?
      let s' ← s.step e
      return ⟨v.sessions.set i s', !e.throws⟩
  else none

def run (v : Server) (es : List Event) : Option Server := es.foldlM step v

end Server

/-- What is reported to the session `i`. -/
def Event.own (i : Nat) : Event → Option Completion
  | .session j e => if j = i then some e else none
  | _ => none

/-! ### What a session has sent -/

theorem Buffer.take_put (b : Buffer) {bytes : List UInt8} (h : bytes.length ≤ bufferSize) :
    (b.put bytes h).toList.take bytes.length = bytes := List.take_left

/-- The bytes of the buffer that a write under way still owes to the client. -/
def Pending.owed (serverBuffer : Buffer) : Pending → List UInt8
  | .writeToClient length sent => (serverBuffer.toList.take length).drop sent
  | _ => []

/-- The bytes that a completion brings from the client. -/
def Completion.received : Completion → List UInt8
  | .clientRead bytes _ => bytes
  | _ => []

/-- How many bytes the server's socket takes. -/
def Completion.taken : Completion → Nat
  | .serverTook n => n
  | _ => 0

namespace Session

structure Inv (s : Session) : Prop where
  /-- nothing but `'a'` goes to the server -/
  fill : ∀ b ∈ s.toServer, b = fillByte
  buffer : ∀ sent, s.pending = .writeToServer sent → ∀ b ∈ s.clientBuffer.toList, b = fillByte
  answer : s.pending ≠ .none → s.fromServer = s.toClient ++ s.pending.owed s.serverBuffer
  back : s.toClient <+: s.fromServer

theorem inv_start (clientBuffer serverBuffer : Buffer) : (start clientBuffer serverBuffer).Inv where
  fill _ hb := nomatch hb
  buffer _ h := nomatch h
  answer _ := rfl
  back := List.prefix_rfl

variable {s s' : Session}

/-- Bytes go to the server. -/
theorem Inv.serverTook {sent n : Nat} (h : s.Inv) (hp : s.pending = .writeToServer sent)
    (hs : s'.toServer = s.toServer ++ (s.clientBuffer.toList.drop sent).take n)
    (hb : s'.clientBuffer = s.clientBuffer) (hc : s'.toClient = s.toClient)
    (hf : s'.fromServer = s.fromServer) (howed : s'.pending.owed s'.serverBuffer = []) :
    s'.Inv := by
  have hanswer := h.answer (by rw [hp]; exact nofun)
  rw [hp] at hanswer
  refine ⟨fun b hmem => ?_, fun _ _ => hb ▸ h.buffer sent hp, fun _ => ?_, hc ▸ hf ▸ h.back⟩
  · rw [hs] at hmem
    rcases List.mem_append.mp hmem with hmem | hmem
    · exact h.fill b hmem
    · exact h.buffer sent hp b (List.mem_of_mem_drop (List.mem_of_mem_take hmem))
  · rw [hf, hc, howed]
    exact hanswer

/-- Bytes go to the client: those that come next. -/
theorem Inv.clientTook {length sent n : Nat} (h : s.Inv)
    (hp : s.pending = .writeToClient length sent)
    (hc : s'.toClient = s.toClient ++ ((s.serverBuffer.toList.take length).drop sent).take n)
    (hs : s'.toServer = s.toServer) (hf : s'.fromServer = s.fromServer)
    (hw : ∀ k, s'.pending ≠ .writeToServer k)
    (howed : s'.pending.owed s'.serverBuffer =
      (s.serverBuffer.toList.take length).drop (sent + n)) : s'.Inv := by
  have hanswer := h.answer (by rw [hp]; exact nofun)
  have hsplit : s'.fromServer = s'.toClient ++ s'.pending.owed s'.serverBuffer := by
    rw [hp] at hanswer
    rw [hf, hanswer, hc, howed, List.append_assoc, ← List.drop_drop, List.take_append_drop]
    rfl
  exact ⟨hs ▸ h.fill, fun k hk => absurd hk (hw k), fun _ => hsplit, ⟨_, hsplit.symm⟩⟩

/-- Bytes come from the server: the client is owed all of them. -/
theorem Inv.serverRead {bytes : List UInt8} (h : s.Inv) (hp : s.pending = .readFromServer)
    (hc : s'.toClient = s.toClient) (hs : s'.toServer = s.toServer)
    (hf : s'.fromServer = s.fromServer ++ bytes) (hw : ∀ k, s'.pending ≠ .writeToServer k)
    (howed : s'.pending.owed s'.serverBuffer = bytes) : s'.Inv := by
  have hanswer := h.answer (by rw [hp]; exact nofun)
  have hsplit : s'.fromServer = s'.toClient ++ s'.pending.owed s'.serverBuffer := by
    rw [hp] at hanswer
    rw [hf, hanswer, hc, howed]
    exact congrArg (· ++ bytes) (List.append_nil _)
  exact ⟨hs ▸ h.fill, fun k hk => absurd hk (hw k), fun _ => hsplit, ⟨_, hsplit.symm⟩⟩

/-- The session goes on to an operation that owes nothing. -/
theorem Inv.goOn (h : s.Inv) (hp : s.pending ≠ .none) (hnone : s.pending.owed s.serverBuffer = [])
    (hc : s'.toClient = s.toClient) (hs : s'.toServer = s.toServer)
    (hf : s'.fromServer = s.fromServer) (howed : s'.pending.owed s'.serverBuffer = [])
    (hb : ∀ sent, s'.pending = .writeToServer sent → ∀ b ∈ s'.clientBuffer.toList, b = fillByte) :
    s'.Inv := by
  refine ⟨hs ▸ h.fill, hb, fun _ => ?_, hc ▸ hf ▸ h.back⟩
  rw [hf, hc, howed, ← hnone]
  exact h.answer hp

/-- **One completion** keeps the invariant, whatever it is. -/
theorem inv_step {e : Completion} (h : s.Inv) (hstep : s.step e = some s') :
    s'.Inv ∧ s'.fromClient = s.fromClient ++ e.received ∧
      s'.toServer.length = s.toServer.length + e.taken := by
  cases e with
  | clientRead bytes resolves =>
    rw [step] at hstep
    split at hstep
    · rename_i hcond
      have hp := hcond.1
      obtain rfl := Option.some.inj hstep
      refine ⟨?_, rfl, rfl⟩
      refine h.goOn (by rw [hp]; exact nofun) (by rw [hp]; rfl) rfl rfl rfl ?_ ?_
      · cases resolves <;> rfl
      · intro sent hsent
        cases resolves <;> cases hsent
    · cases hstep
  | connected =>
    rw [step] at hstep
    split at hstep
    · rename_i hcond
      cases hstep
      refine ⟨?_, (List.append_nil _).symm, rfl⟩
      refine h.goOn (by rw [hcond]; exact nofun) (by rw [hcond]; rfl) rfl rfl rfl rfl ?_
      intro sent _ b hb
      exact List.eq_of_mem_replicate (Vector.toList_replicate ▸ hb)
    · cases hstep
  | serverTook n =>
    rw [step] at hstep
    split at hstep
    · rename_i sent hp
      split at hstep
      · rename_i hn
        cases hstep
        have hlen : ((s.clientBuffer.toList.drop sent).take n).length = n := by
          rw [List.length_take, List.length_drop, Vector.length_toList]
          omega
        split
        · refine ⟨h.serverTook hp rfl rfl rfl rfl rfl, (List.append_nil _).symm, ?_⟩
          exact List.length_append.trans (congrArg _ hlen)
        · refine ⟨h.serverTook hp rfl rfl rfl rfl rfl, (List.append_nil _).symm, ?_⟩
          exact List.length_append.trans (congrArg _ hlen)
      · cases hstep
    · cases hstep
  | serverRead bytes =>
    rw [step] at hstep
    split at hstep
    · rename_i hcond
      obtain rfl := Option.some.inj hstep
      refine ⟨h.serverRead hcond.1 rfl rfl rfl nofun ?_, (List.append_nil _).symm, rfl⟩
      exact Buffer.take_put s.serverBuffer hcond.2.2
    · cases hstep
  | clientTook n =>
    rw [step] at hstep
    split at hstep
    · rename_i length sent hp
      split at hstep
      · rename_i hn
        cases hstep
        split
        · rename_i hall
          refine ⟨h.clientTook hp rfl rfl rfl nofun ?_, (List.append_nil _).symm, rfl⟩
          rw [hall, List.drop_take_self]
          rfl
        · exact ⟨h.clientTook hp rfl rfl rfl nofun rfl, (List.append_nil _).symm, rfl⟩
      · cases hstep
    · cases hstep
  | failed =>
    rw [step] at hstep
    split at hstep
    · cases hstep
    · cases hstep
      exact ⟨⟨h.fill, nofun, fun hne => absurd rfl hne, h.back⟩, (List.append_nil _).symm, rfl⟩

/-- What comes from the client in a run, and how many bytes the server takes. -/
theorem inv_run {es : List Completion} (h : s.Inv) (hrun : s.run es = some s') :
    s'.Inv ∧ s'.fromClient = s.fromClient ++ es.flatMap Completion.received ∧
      s'.toServer.length = s.toServer.length + (es.map Completion.taken).sum := by
  induction es generalizing s with
  | nil =>
    cases hrun
    exact ⟨h, (List.append_nil _).symm, rfl⟩
  | cons e es ih =>
    rw [run, List.foldlM_cons, Option.bind_eq_bind, Option.bind_eq_some_iff] at hrun
    obtain ⟨s₁, hstep, hrest⟩ := hrun
    obtain ⟨h₁, hfrom₁, hto₁⟩ := inv_step h hstep
    obtain ⟨h', hfrom, hto⟩ := ih h₁ hrest
    refine ⟨h', ?_, ?_⟩
    · rw [hfrom, hfrom₁, List.flatMap_cons, List.append_assoc]
    · rw [hto, hto₁, List.map_cons, List.sum_cons, Nat.add_assoc]

theorem run_snoc {es : List Completion} {e : Completion} {s₁ : Session}
    (h : s.run es = some s₁) : s.run (es ++ [e]) = s₁.step e := by
  rw [run, List.foldlM_append]
  show (s.run es).bind (fun t => List.foldlM step t [e]) = _
  rw [h, Option.bind_some, List.foldlM_cons]
  exact Option.bind_fun_some _

end Session

/-! ### The sessions of a server -/

namespace Server

variable {v v' : Server}

/-- **What a step of the server can do**: nothing to the sessions, start one, or let one of
them take a step. -/
theorem step_cases {e : Event} (h : v.step e = some v') :
    (e = .notAccepted ∧ v'.sessions = v.sessions) ∨
    (∃ cb sb, e = .accepted cb sb ∧ v'.sessions = v.sessions ++ [.start cb sb]) ∨
    ∃ i c s s', e = .session i c ∧ v.sessions[i]? = some s ∧ s.step c = some s' ∧
      v'.sessions = v.sessions.set i s' := by
  unfold step at h
  split at h
  · cases e with
    | accepted cb sb =>
      cases h
      exact Or.inr (Or.inl ⟨cb, sb, rfl, rfl⟩)
    | notAccepted =>
      cases h
      exact Or.inl ⟨rfl, rfl⟩
    | session i c =>
      simp only [Option.bind_eq_bind, Option.bind_eq_some_iff] at h
      obtain ⟨s, hs, s', hstep, hv⟩ := h
      cases hv
      exact Or.inr (Or.inr ⟨i, c, s, s', rfl, hs, hstep, rfl⟩)
  · cases h

/-- The completions that the events `es` report to the session `i`. -/
theorem own_snoc (i : Nat) (es : List Event) (e : Event) :
    (es ++ [e]).filterMap (Event.own i) = es.filterMap (Event.own i) ++ (Event.own i e).toList := by
  rw [List.filterMap_append]
  cases he : Event.own i e with
  | none => rw [List.filterMap_cons_none he]; rfl
  | some c => rw [List.filterMap_cons_some he]; rfl

/-- A session takes its own steps, from its start on. -/
structure Tracks (es : List Event) (v : Server) : Prop where
  run : ∀ {i s}, v.sessions[i]? = some s →
    ∃ cb sb, (Session.start cb sb).run (es.filterMap (Event.own i)) = some s
  none : ∀ {i}, v.sessions.length ≤ i → es.filterMap (Event.own i) = []

section Tracks

variable {es : List Event} {e : Event}

theorem Tracks.notAccepted (h : Tracks es v) (hv : v'.sessions = v.sessions) :
    Tracks (es ++ [.notAccepted]) v' := by
  have hown : ∀ i, (es ++ [Event.notAccepted]).filterMap (Event.own i) =
      es.filterMap (Event.own i) := by
    intro i
    rw [own_snoc]
    exact List.append_nil _
  refine ⟨fun {i s} hs => ?_, fun {i} hi => ?_⟩
  · rw [hown]
    exact h.run (hv ▸ hs)
  · rw [hown]
    exact h.none (hv ▸ hi)

theorem Tracks.accepted (h : Tracks es v) {cb sb : Buffer}
    (hv : v'.sessions = v.sessions ++ [.start cb sb]) : Tracks (es ++ [.accepted cb sb]) v' := by
  have hown : ∀ i, (es ++ [Event.accepted cb sb]).filterMap (Event.own i) =
      es.filterMap (Event.own i) := by
    intro i
    rw [own_snoc]
    exact List.append_nil _
  refine ⟨fun {i s} hs => ?_, fun {i} hi => ?_⟩
  · rw [hown]
    rw [hv] at hs
    by_cases hi : i < v.sessions.length
    · rw [List.getElem?_append_left hi] at hs
      exact h.run hs
    · rw [List.getElem?_append_right (Nat.not_lt.mp hi)] at hs
      rw [h.none (Nat.not_lt.mp hi)]
      exact ⟨cb, sb, congrArg some (List.mem_singleton.mp (List.mem_of_getElem? hs)).symm⟩
  · rw [hv, List.length_append] at hi
    rw [hown]
    exact h.none (Nat.le_trans (Nat.le_add_right _ _) hi)

theorem Tracks.session (h : Tracks es v) {j : Nat} {c : Completion} {s s' : Session}
    (hj : v.sessions[j]? = some s) (hstep : s.step c = some s')
    (hv : v'.sessions = v.sessions.set j s') : Tracks (es ++ [.session j c]) v' := by
  have hlt := (List.getElem?_eq_some_iff.mp hj).1
  have hother : ∀ {i}, j ≠ i →
      (es ++ [Event.session j c]).filterMap (Event.own i) = es.filterMap (Event.own i) := by
    intro i hij
    rw [own_snoc, Event.own, if_neg hij]
    exact List.append_nil _
  refine ⟨fun {i t} ht => ?_, fun {i} hi => ?_⟩
  · rw [hv] at ht
    by_cases hij : j = i
    · subst hij
      rw [List.getElem?_set_self hlt] at ht
      obtain rfl := Option.some.inj ht
      obtain ⟨cb, sb, hown⟩ := h.run hj
      refine ⟨cb, sb, ?_⟩
      rw [own_snoc, Event.own, if_pos rfl]
      exact (Session.run_snoc hown).trans hstep
    · rw [List.getElem?_set_ne hij] at ht
      rw [hother hij]
      exact h.run ht
  · rw [hv, List.length_set] at hi
    rw [hother (Nat.ne_of_lt (Nat.lt_of_lt_of_le hlt hi))]
    exact h.none hi

theorem Tracks.step (h : Tracks es v) (hstep : v.step e = some v') : Tracks (es ++ [e]) v' := by
  rcases step_cases hstep with ⟨rfl, hv⟩ | ⟨cb, sb, rfl, hv⟩ | ⟨j, c, s, s', rfl, hj, hs, hv⟩
  · exact h.notAccepted hv
  · exact h.accepted hv
  · exact h.session hj hs hv

theorem tracks_of_run (h : boot.run es = some v) : Tracks es v := by
  induction es using List.reverseRecOn generalizing v with
  | nil =>
    cases h
    exact ⟨(fun hs => nomatch hs), fun _ => rfl⟩
  | append_singleton es e ih =>
    rw [run, List.foldlM_append, Option.bind_eq_bind, Option.bind_eq_some_iff] at h
    obtain ⟨v₁, hrun, hstep⟩ := h
    rw [List.foldlM_cons] at hstep
    exact (ih hrun).step ((Option.bind_fun_some _).symm.trans hstep)

end Tracks

end Server

/-- **When a session relays faithfully**, in every run of the server.  What goes back to
the client is always a prefix of what has come from the server.  What goes to the server
is a prefix of what has come from the client exactly if the client's bytes start with as
many `'a'` as the server's socket takes. -/
theorem relays_iff {es : List Event} {v : Server} (h : Server.boot.run es = some v) {i : Nat}
    {s : Session} (hs : v.sessions[i]? = some s) :
    s.toClient <+: s.fromServer ∧
    (s.toServer <+: s.fromClient ∧ s.toClient <+: s.fromServer ↔
      List.replicate ((es.filterMap (Event.own i)).map Completion.taken).sum fillByte <+:
        (es.filterMap (Event.own i)).flatMap Completion.received) := by
  obtain ⟨cb, sb, hrun⟩ := (Server.tracks_of_run h).run hs
  obtain ⟨hinv, hfrom, hto⟩ := Session.inv_run (Session.inv_start cb sb) hrun
  refine ⟨hinv.back, ?_⟩
  have hfrom' : s.fromClient = (es.filterMap (Event.own i)).flatMap Completion.received := hfrom
  have hlen : s.toServer.length = ((es.filterMap (Event.own i)).map Completion.taken).sum :=
    hto.trans (Nat.zero_add _)
  have hto' : s.toServer =
      List.replicate ((es.filterMap (Event.own i)).map Completion.taken).sum fillByte :=
    List.eq_replicate_iff.mpr ⟨hlen, hinv.fill⟩
  rw [hto', hfrom', and_iff_left hinv.back]

def exampleBuffer : Buffer := Vector.replicate bufferSize 0

/-- The client sends `bytes`, and the server's socket takes one byte. -/
def exampleEvents (bytes : List UInt8) : List Event :=
  [.accepted exampleBuffer exampleBuffer, .session 0 (.clientRead bytes true),
    .session 0 .connected, .session 0 (.serverTook 1)]

/-- The streams of the first session. -/
def streams (v : Server) : Option (List UInt8 × List UInt8) :=
  v.sessions[0]?.map fun s => (s.fromClient, s.toServer)

theorem relays_iff_example :
    ∃ v s, Server.boot.run (exampleEvents [97, 98]) = some v ∧ v.sessions[0]? = some s ∧
      s.toServer <+: s.fromClient := by
  have hstreams : ((Server.boot.run (exampleEvents [97, 98])).bind streams) =
      some ([97, 98], [97]) := by
    decide +kernel
  obtain ⟨v, hrun, hv⟩ := Option.bind_eq_some_iff.mp hstreams
  obtain ⟨s, hs, -⟩ := Option.map_eq_some_iff.mp hv
  exact ⟨v, s, hrun, hs, ((relays_iff hrun hs).2.mpr ⟨[98], rfl⟩).1⟩

/-- **The server gets what the client has not sent.**  The client sends a single `'x'`. -/
theorem sends_fill_byte :
    ∃ v s, Server.boot.run (exampleEvents [120]) = some v ∧ v.sessions[0]? = some s ∧
      s.fromClient = [120] ∧ s.toServer = [97] ∧ ¬ s.toServer <+: s.fromClient := by
  have hstreams : ((Server.boot.run (exampleEvents [120])).bind streams) = some ([120], [97]) := by
    decide +kernel
  obtain ⟨v, hrun, hv⟩ := Option.bind_eq_some_iff.mp hstreams
  obtain ⟨s, hs, heq⟩ := Option.map_eq_some_iff.mp hv
  obtain ⟨hfrom, hto⟩ := Prod.mk.inj heq
  refine ⟨v, s, hrun, hs, hfrom, hto, ?_⟩
  rw [hfrom, hto]
  decide

end NetworkAnalyse.Proxy
