import NetworkAnalyse.Server.Epoll

/-!
# The kernel's tables

* `Table`: what always holds of the descriptors, the epoll sets and the touches so far.
* `Live`: what an entry of a batch can be relied on for until it is handled.
* `Table.accept`, …: every system call keeps the tables, where a worker reads from and
  closes live entries only.
-/

namespace NetworkAnalyse.Server

open Lib

/-- The bytes that have been read from connection `k`, in the order of the reads. -/
def readsOf (k : ConnId) (touches : List Touch) : List UInt8 :=
  (touches.filter (·.conn = some k)).flatMap (·.bytes)

/-- `recvmsg` has reported the end of the connection, or an error. -/
def Sock.Over (sock : Sock) : Prop :=
  (sock.buffer = [] ∧ sock.ended = true) ∨ sock.failed = true

/-- The touch is one of the connection's owner, and of the connection that the batch
meant. -/
def Touch.Lawful (s : State) (t : Touch) : Prop :=
  ∃ k, t.conn = some k ∧ t.named = some k ∧ t.worker = owner t.fd ∧ k < s.next ∧
    (s.socks k).home = t.fd

/-- **What always holds.** -/
structure Table (s : State) : Prop where
  owned : ∀ w fd, fd ∈ s.sets w → w = owner fd ∧ (s.fds fd).isSome = true
  home : ∀ fd k, s.fds fd = some k → k < s.next ∧ (s.socks k).home = fd
  touched : ∀ t ∈ s.touches, t.Lawful s
  streams : ∀ k, readsOf k s.touches ++ (s.socks k).buffer = (s.socks k).arrived
  closed : ∀ k < s.next, s.fds (s.socks k).home ≠ some k → (s.socks k).Over

/-- Worker `w` can still rely on an entry of its batch: the descriptor stands for the
connection that it stood for, and the connection is ready. -/
def Live (w : Worker) (fd : Fd) (s : State) (P : Sock → Prop) : Prop :=
  ∃ k, s.fds fd = some k ∧ fd ∈ s.sets w ∧ s.named w fd = some k ∧ P (s.socks k)

/-! ### Reading the log of touches -/

section Touches

variable {k : ConnId} {l : List Touch} {t : Touch}

theorem readsOf_snoc :
    readsOf k (l ++ [t]) = readsOf k l ++ if t.conn = some k then t.bytes else [] := by
  rw [readsOf, List.filter_append, List.flatMap_append]
  refine congrArg _ ?_
  by_cases h : t.conn = some k <;> simp [h]

theorem readsOf_snoc_nil (h : t.bytes = []) : readsOf k (l ++ [t]) = readsOf k l := by
  rw [readsOf_snoc, h, ite_self, List.append_nil]

theorem readsOf_eq_nil (h : ∀ t ∈ l, t.conn ≠ some k) : readsOf k l = [] := by
  rw [readsOf, List.filter_eq_nil_iff.mpr (fun t ht => by simpa using h t ht)]
  rfl

end Touches

/-! ### Steps on the tables -/

section Steps

variable {s : State}

theorem table_boot (stack : Worker → DataSection) : Table (State.boot stack) where
  owned _ _ h := absurd h (Finset.notMem_empty _)
  home _ _ h := by cases h
  touched _ h := absurd h List.not_mem_nil
  streams _ := rfl
  closed _ h := absurd h (Nat.not_lt_zero _)

/-- A connection has one descriptor. -/
theorem Table.fd_inj (h : Table s) {fd fd' : Fd} {k : ConnId} (h₁ : s.fds fd = some k)
    (h₂ : s.fds fd' = some k) : fd = fd' := by
  rw [← (h.home fd k h₁).2, (h.home fd' k h₂).2]

theorem Table.owner_eq (h : Table s) {w : Worker} {fd : Fd} {P : Sock → Prop} (hl : Live w fd s P) :
    w = owner fd := by
  obtain ⟨k, -, hset, -⟩ := hl
  exact (h.owned w fd hset).1

theorem Touch.Lawful.congr {t : Touch} {s' : State} (h : t.Lawful s) (hnext : s.next ≤ s'.next)
    (hhome : ∀ k < s.next, (s'.socks k).home = (s.socks k).home) : t.Lawful s' := by
  obtain ⟨k, hconn, hnamed, hw, hlt, ht⟩ := h
  exact ⟨k, hconn, hnamed, hw, Nat.lt_of_lt_of_le hlt hnext, (hhome k hlt).trans ht⟩

/-- A step that does not touch the tables. -/
theorem Table.congr {s' : State} (h : Table s) (hfds : s'.fds = s.fds) (hsets : s'.sets = s.sets)
    (hsocks : s'.socks = s.socks) (hnext : s'.next = s.next) (htouches : s'.touches = s.touches) :
    Table s' where
  owned := by
    rw [hsets, hfds]
    exact h.owned
  home := by
    rw [hfds, hsocks, hnext]
    exact h.home
  touched := by
    rw [htouches]
    intro t ht
    exact (h.touched t ht).congr (Nat.le_of_eq hnext.symm) (fun k _ => by rw [hsocks])
  streams := by
    rw [htouches, hsocks]
    exact h.streams
  closed := by
    rw [hnext, hfds, hsocks]
    exact h.closed

/-- `accept` gives a number that is not open to a new connection. -/
theorem Table.accept {s' : State} (h : Table s) {fd : Fd} (hfree : s.fds fd = none)
    (hfds : s'.fds = Function.update s.fds fd (some s.next)) (hsets : s'.sets = s.sets)
    (hsocks : s'.socks = Function.update s.socks s.next { home := fd })
    (hnext : s'.next = s.next + 1) (htouches : s'.touches = s.touches) : Table s' where
  owned w fd' hmem := by
    rw [hsets] at hmem
    obtain ⟨hw, hopen⟩ := h.owned w fd' hmem
    refine ⟨hw, ?_⟩
    rw [hfds]
    by_cases hfd : fd' = fd
    · rw [hfd, Function.update_self]
      rfl
    · rw [Function.update_of_ne hfd, hopen]
  home fd' k hk := by
    rw [hfds] at hk
    rw [hsocks, hnext]
    by_cases hfd : fd' = fd
    · rw [hfd, Function.update_self] at hk
      obtain rfl := Option.some.inj hk
      rw [Function.update_self]
      exact ⟨Nat.lt_succ_self _, hfd.symm⟩
    · rw [Function.update_of_ne hfd] at hk
      obtain ⟨hlt, hhome⟩ := h.home fd' k hk
      rw [Function.update_of_ne (Nat.ne_of_lt hlt)]
      exact ⟨Nat.lt_succ_of_lt hlt, hhome⟩
  touched t ht := by
    rw [htouches] at ht
    refine (h.touched t ht).congr (hnext ▸ Nat.le_succ _) (fun k hk => ?_)
    rw [hsocks, Function.update_of_ne (Nat.ne_of_lt hk)]
  streams k := by
    rw [htouches, hsocks]
    by_cases hk : k = s.next
    · rw [hk, Function.update_self, readsOf_eq_nil]
      · rfl
      · intro t ht hconn
        obtain ⟨j, hj, -, -, hlt, -⟩ := h.touched t ht
        rw [hj] at hconn
        exact Nat.ne_of_lt hlt (Option.some.inj hconn)
    · rw [Function.update_of_ne hk]
      exact h.streams k
  closed k hk hne := by
    rw [hsocks, hfds] at hne
    rw [hsocks]
    by_cases hkn : k = s.next
    · rw [hkn, Function.update_self, Function.update_self] at hne
      exact absurd rfl hne
    · rw [Function.update_of_ne hkn] at hne ⊢
      rw [hnext] at hk
      refine h.closed k (Nat.lt_of_le_of_ne (Nat.le_of_lt_succ hk) hkn) fun hopen => hne ?_
      rw [Function.update_of_ne, hopen]
      intro hfd
      rw [hfd, hfree] at hopen
      cases hopen

/-- `epoll_ctl` of an open descriptor to the set of its owner. -/
theorem Table.add {s' : State} (h : Table s) {fd : Fd} (hopen : (s.fds fd).isSome = true)
    (hfds : s'.fds = s.fds)
    (hsets : s'.sets = Function.update s.sets (owner fd) (insert fd (s.sets (owner fd))))
    (hsocks : s'.socks = s.socks) (hnext : s'.next = s.next) (htouches : s'.touches = s.touches) :
    Table s' := by
  have hkeep : Table { s' with sets := s.sets } := h.congr hfds rfl hsocks hnext htouches
  refine ⟨?_, hkeep.home, fun t ht => hkeep.touched t ht, hkeep.streams, hkeep.closed⟩
  intro w fd' hmem
  rw [hsets] at hmem
  rw [hfds]
  by_cases hw : w = owner fd
  · subst hw
    rw [Function.update_self, Finset.mem_insert] at hmem
    rcases hmem with rfl | hmem
    · exact ⟨rfl, hopen⟩
    · exact h.owned _ _ hmem
  · rw [Function.update_of_ne hw] at hmem
    exact h.owned _ _ hmem

/-- A step that changes one open connection and notes what was read from it. -/
theorem Table.update_sock {s' : State} (h : Table s) {fd : Fd} {k : ConnId} {m : Sock}
    (hfd : s.fds fd = some k) (hhome : m.home = (s.socks k).home) (hfds : s'.fds = s.fds)
    (hsets : s'.sets = s.sets) (hsocks : s'.socks = Function.update s.socks k m)
    (hnext : s'.next = s.next) (hlaw : ∀ t ∈ s'.touches, t.Lawful s)
    (hreads : readsOf k s'.touches ++ m.buffer = m.arrived)
    (hothers : ∀ j, j ≠ k → readsOf j s'.touches = readsOf j s.touches) : Table s' := by
  have hhomes : ∀ j, (s'.socks j).home = (s.socks j).home := by
    intro j
    rw [hsocks]
    by_cases hjk : j = k
    · rw [hjk, Function.update_self, hhome]
    · rw [Function.update_of_ne hjk]
  constructor
  · rw [hsets, hfds]
    exact h.owned
  · intro fd' j hj
    rw [hfds] at hj
    rw [hnext, hhomes]
    exact h.home fd' j hj
  · intro t ht
    exact (hlaw t ht).congr (Nat.le_of_eq hnext.symm) (fun j _ => hhomes j)
  · intro j
    rw [hsocks]
    by_cases hjk : j = k
    · subst hjk
      rw [Function.update_self]
      exact hreads
    · rw [Function.update_of_ne hjk, hothers j hjk]
      exact h.streams j
  · intro j hj hne
    rw [hnext] at hj
    rw [hhomes, hfds] at hne
    have hjk : j ≠ k := by
      rintro rfl
      rw [(h.home fd j hfd).2] at hne
      exact hne hfd
    rw [hsocks, Function.update_of_ne hjk]
    exact h.closed j hj hne

/-- `close` of a descriptor whose connection is over. -/
theorem Table.close (h : Table s) {w : Worker} {fd : Fd} (hl : Live w fd s Sock.Over) :
    Table (s.close w fd).2 := by
  have hw := h.owner_eq hl
  obtain ⟨k, hfd, hset, hnamed, hover⟩ := hl
  obtain ⟨hlt, hhome⟩ := h.home fd k hfd
  constructor
  · intro v fd' hmem
    obtain ⟨hne, hmem⟩ := Finset.mem_erase.mp hmem
    obtain ⟨hv, hopen⟩ := h.owned v fd' hmem
    refine ⟨hv, ?_⟩
    show (Function.update s.fds fd none fd').isSome = true
    rw [Function.update_of_ne hne, hopen]
  · intro fd' j hj
    have hj' : Function.update s.fds fd none fd' = some j := hj
    by_cases hne : fd' = fd
    · rw [hne, Function.update_self] at hj'
      cases hj'
    · rw [Function.update_of_ne hne] at hj'
      exact h.home fd' j hj'
  · intro t ht
    rcases List.mem_append.mp ht with ht | ht
    · exact h.touched t ht
    · rw [List.mem_singleton.mp ht]
      exact ⟨k, hfd, hnamed, hw, hlt, hhome⟩
  · intro j
    show readsOf j (s.touches ++ [_]) ++ _ = _
    rw [readsOf_snoc_nil rfl]
    exact h.streams j
  · intro j hj hne
    have hne' : Function.update s.fds fd none (s.socks j).home ≠ some j := hne
    by_cases hjk : j = k
    · rw [hjk]
      exact hover
    · refine h.closed j hj fun hopen => hne' ?_
      rw [Function.update_of_ne, hopen]
      intro hfd'
      rw [hfd', hfd] at hopen
      exact hjk (Option.some.inj hopen).symm

/-- What `accept` can give: nothing, or a number that was not open. -/
theorem State.accept_cases {s' : State} {new r : Option Fd} (h : s.accept new = some (r, s')) :
    (r = none ∧ s' = s) ∨ ∃ fd, r = some fd ∧ s.fds fd = none ∧ s' = { s with
      fds := Function.update s.fds fd (some s.next)
      socks := Function.update s.socks s.next { home := fd }
      next := s.next + 1 } := by
  cases new with
  | none =>
    cases h
    exact Or.inl ⟨rfl, rfl⟩
  | some fd =>
    rw [State.accept, Option.ite_none_right_eq_some] at h
    obtain ⟨hfree, heq⟩ := h
    cases heq
    exact Or.inr ⟨fd, rfl, hfree, rfl⟩

/-- `epoll_wait` gives descriptors of the worker's set that are ready, each of them once,
and notes which connections they name. -/
theorem epollWait_eq {s' : State} {inp : Inp} {w : Worker} {events : List EpollEvent}
    (h : exec inp (.epollWait w) s = some (events, s')) :
    (events.map (·.fd)).Nodup ∧ (∀ event ∈ events, event.fd ∈ s.sets w ∧ s.Ready event.fd) ∧
      s' = { s with
        named := Function.update s.named w fun fd =>
          if fd ∈ events.map (·.fd) then s.fds fd else none } := by
  rw [exec, Option.ite_none_right_eq_some] at h
  obtain ⟨⟨-, hnodup, hready⟩, heq⟩ := h
  cases heq
  exact ⟨hnodup, hready, rfl⟩

/-- What the other side can do to its connection. -/
theorem Peer.act_cases {e : Peer} {sock sock' : Sock} (h : e.act sock = some sock') :
    (∃ bytes, ¬ sock.ended = true ∧ sock' = { sock with
      arrived := sock.arrived ++ bytes, buffer := sock.buffer ++ bytes }) ∨
      sock' = { sock with ended := true } ∨ sock' = { sock with failed := true } := by
  cases e with
  | sends fd bytes =>
    rw [Peer.act, Option.ite_none_left_eq_some] at h
    obtain ⟨hopen, heq⟩ := h
    exact Or.inl ⟨bytes, hopen, (Option.some.inj heq).symm⟩
  | closes fd => exact Or.inr (Or.inl (Option.some.inj h).symm)
  | resets fd => exact Or.inr (Or.inr (Option.some.inj h).symm)

/-- It happens to one connection, which is open. -/
theorem peer_eq {s' : State} {e : Peer} (h : peer e s = some s') :
    ∃ k sock, s.fds e.fd = some k ∧ e.act (s.socks k) = some sock ∧
      s' = { s with socks := Function.update s.socks k sock } := by
  rw [peer] at h
  split at h
  · cases h
  · rename_i k hfd
    obtain ⟨sock, hact, heq⟩ := Option.map_eq_some_iff.mp h
    exact ⟨k, sock, hfd, hact, heq.symm⟩

/-- What `recvmsg` can give: the first bytes of the buffer, or nothing.  On a ready
connection nothing means that the connection is over. -/
theorem Sock.recv_cases {sock : Sock} {r : Recv} {bytes : List UInt8} {n : Int}
    (h : sock.recv r = some (bytes, n)) :
    bytes ++ sock.buffer.drop bytes.length = sock.buffer ∧ bytes.length ≤ bufferSize ∧
      ((n = bytes.length ∧ 0 < bytes.length) ∨
        (n ≤ 0 ∧ bytes = [] ∧ (sock.Ready → sock.Over))) := by
  cases r with
  | data m =>
    rw [Sock.recv, Option.ite_none_right_eq_some] at h
    obtain ⟨⟨hpos, hsize, hlen⟩, heq⟩ := h
    cases heq
    rw [List.length_take, Nat.min_eq_left hlen]
    exact ⟨List.take_append_drop _ _, hsize, Or.inl ⟨rfl, hpos⟩⟩
  | eof =>
    rw [Sock.recv, Option.ite_none_right_eq_some] at h
    obtain ⟨hend, heq⟩ := h
    cases heq
    exact ⟨rfl, Nat.zero_le _, Or.inr ⟨Int.le_refl _, rfl, fun _ => Or.inl hend⟩⟩
  | error =>
    rw [Sock.recv, Option.ite_none_right_eq_some] at h
    obtain ⟨hfail, heq⟩ := h
    cases heq
    exact ⟨rfl, Nat.zero_le _, Or.inr ⟨by decide, rfl, fun _ => Or.inr hfail⟩⟩
  | again =>
    rw [Sock.recv, Option.ite_none_right_eq_some] at h
    obtain ⟨hnot, heq⟩ := h
    cases heq
    exact ⟨rfl, Nat.zero_le _, Or.inr ⟨by decide, rfl, fun hr => absurd hr hnot⟩⟩

/-- **`recvmsg` on a live descriptor** takes the first bytes of the connection's buffer
and notes them. -/
theorem State.recvmsg_eq {w : Worker} {fd : Fd} (hl : Live w fd s Sock.Ready) {r : Recv} {n : Int}
    {s' : State} (h : s.recvmsg w fd r = some (n, s')) :
    ∃ k bytes, s.fds fd = some k ∧ s.named w fd = some k ∧
      (s.socks k).recv r = some (bytes, n) ∧ s' = { s with
        socks := Function.update s.socks k
          { s.socks k with buffer := (s.socks k).buffer.drop bytes.length }
        source := Function.update s.source w (some k)
        stack := Function.update s.stack w (fillBuffer (s.stack w) bytes)
        touches := s.touches ++ [⟨w, fd, some k, some k, bytes⟩]
        writes := s.writes ++ [⟨w, 0, bytes.length⟩] } := by
  obtain ⟨k, hfd, -, hnamed, -⟩ := hl
  simp only [State.recvmsg, hfd, hnamed, Option.map_eq_some_iff] at h
  obtain ⟨⟨bytes, m⟩, hrecv, heq⟩ := h
  obtain ⟨rfl, rfl⟩ := Prod.mk.inj heq
  exact ⟨k, bytes, hfd, hnamed, hrecv, rfl⟩

theorem Table.recvmsg {s' : State} (h : Table s) {w : Worker} {fd : Fd}
    (hl : Live w fd s Sock.Ready) {r : Recv} {n : Int} (hexec : s.recvmsg w fd r = some (n, s')) :
    Table s' := by
  have hw := h.owner_eq hl
  obtain ⟨k, bytes, hfd, hnamed, hrecv, rfl⟩ := State.recvmsg_eq hl hexec
  obtain ⟨hbuffer, -, -⟩ := Sock.recv_cases hrecv
  refine h.update_sock (m := { s.socks k with buffer := (s.socks k).buffer.drop bytes.length })
    hfd rfl rfl rfl rfl rfl ?_ ?_ ?_
  · intro t ht
    rcases List.mem_append.mp ht with ht | ht
    · exact h.touched t ht
    · rw [List.mem_singleton.mp ht]
      exact ⟨k, rfl, rfl, hw, h.home fd k hfd⟩
  · show readsOf k (s.touches ++ [_]) ++ (s.socks k).buffer.drop bytes.length = _
    rw [readsOf_snoc, if_pos rfl, List.append_assoc, hbuffer]
    exact h.streams k
  · intro j hj
    show readsOf j (s.touches ++ [_]) = _
    rw [readsOf_snoc, if_neg (fun heq => hj (Option.some.inj heq).symm), List.append_nil]

theorem Table.peer {s' : State} (h : Table s) {e : Peer} (hpeer : peer e s = some s') :
    Table s' := by
  obtain ⟨k, sock, hfd, hact, rfl⟩ := peer_eq hpeer
  have hbooks : sock.home = (s.socks k).home ∧
      readsOf k s.touches ++ sock.buffer = sock.arrived := by
    have hk := h.streams k
    rcases Peer.act_cases hact with ⟨bytes, -, rfl⟩ | rfl | rfl
    · refine ⟨rfl, ?_⟩
      show _ ++ ((s.socks k).buffer ++ bytes) = (s.socks k).arrived ++ bytes
      rw [← List.append_assoc, hk]
    · exact ⟨rfl, hk⟩
    · exact ⟨rfl, hk⟩
  exact h.update_sock hfd hbooks.1 rfl rfl rfl rfl h.touched hbooks.2 (fun _ _ => rfl)

end Steps

end NetworkAnalyse.Server
