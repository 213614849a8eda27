import NetworkAnalyse.Server.Table

/-!
# Who owns a connection

The threads of the server share the process's descriptor numbers, and a number is
handed out again as soon as it is closed.  Still no worker ever touches a connection
that is not its own, and none is stale in a batch.

* `ownership`: the outline, one view for each thread.
* `connections_owned`: registration, ownership and the bytes of every connection.
-/

namespace NetworkAnalyse.Server

open Lib

/-! ### The outline -/

/-- Where a thread stands in its pass: the descriptor that `main` has yet to register,
the descriptors that a worker has yet to read from, and the one it is about to close. -/
structure Stage where
  inflight : Option Fd := none
  pending : List Fd := []
  closing : Option Fd := none

/-- Every open descriptor is registered with its owner, but for the one in flight. -/
structure Registered (s : State) (v : Stage) : Prop where
  registered : ∀ fd, (s.fds fd).isSome = true → fd ∈ s.sets (owner fd) ∨ v.inflight = some fd
  inflight : ∀ fd, v.inflight = some fd → (s.fds fd).isSome = true ∧ fd ∉ s.sets (owner fd)

/-- The entries that a worker has yet to handle are live. -/
structure Holding (w : Worker) (s : State) (v : Stage) : Prop where
  nodup : v.pending.Nodup
  live : ∀ fd ∈ v.pending, Live w fd s Sock.Ready
  closing : ∀ fd, v.closing = some fd → fd ∉ v.pending ∧ Live w fd s Sock.Over

def View (l : Loop) (s : State) (_ : List (Entry Op Op.Res Loop Unit)) (v : Stage) : Prop :=
  Table s ∧
    match l with
    | .main => Registered s v
    | .worker w => Holding w s v

def Idle (_ : Loop) (v : Stage) : Prop := v = {}

def Can : Loop → Op → Stage → Prop
  | .main, .accept, v => v = {}
  | .main, .epollCtlAdd w fd, v => v = { inflight := some fd } ∧ w = owner fd
  | .worker w, .epollWait w', v => w' = w ∧ v = {}
  | .worker w, .recvmsg w' fd, v => w' = w ∧ ∃ rest, v = { pending := fd :: rest }
  | .worker w, .close w' fd, v => w' = w ∧ v.closing = some fd
  | .worker w, .memset w', _ => w' = w
  | .worker w, .store w' _, _ => w' = w
  | .worker w, .print w', _ => w' = w
  | _, _, _ => False

def Next (_ : Loop) : (op : Op) → Stage → op.Res → Stage → Prop
  | .accept, _, r, v' => v' = { inflight := r }
  | .epollCtlAdd _ _, _, _, v' => v' = {}
  | .epollWait _, _, events, v' => v' = { pending := (events.filter (·.epollin)).map (·.fd) }
  | .recvmsg _ fd, v, n, v' =>
    v' = { pending := v.pending.tail, closing := if n ≤ 0 then some fd else none }
  | .close _ _, v, _, v' => v' = { pending := v.pending }
  | _, v, _, v' => v' = v

def Done (l : Loop) (_ : Loop) (_ : Trace Op Op.Res) (_ : Unit) (v : Stage) : Prop := Idle l v

/-! ### The passes keep to the outline -/

theorem ok_acceptLoop : acceptLoop.Ok (Can .main) (Next .main) (Done .main .main) [] {} := by
  simp only [acceptLoop, accept, epollCtlAdd, Prog.perform_bind, Prog.ok_call]
  refine ⟨rfl, fun r v hv => ?_⟩
  obtain rfl : v = { inflight := r } := hv
  cases r with
  | none => exact rfl
  | some fd => exact ⟨⟨rfl, rfl⟩, fun _ v hv => hv⟩

/-- The loop over the batch, by induction on the events that are left. -/
theorem ok_handleEvents (w : Worker) (events : List EpollEvent) :
    ∀ tr, (handleEvents w events).Ok (Can (.worker w)) (Next (.worker w))
      (Done (.worker w) (.worker w)) tr { pending := (events.filter (·.epollin)).map (·.fd) } := by
  induction events with
  | nil =>
    intro tr
    exact rfl
  | cons event events ih =>
    intro tr
    obtain ⟨fd, epollin⟩ := event
    cases epollin with
    | false => exact ih tr
    | true =>
      rw [handleEvents_cons]
      refine ⟨rfl, fun _ v hv => ?_⟩
      obtain rfl := hv
      refine ⟨⟨rfl, _, rfl⟩, fun n v hv => ?_⟩
      obtain rfl := hv
      beta_reduce
      by_cases hn : n ≤ 0
      · rw [if_pos hn, if_pos hn]
        refine ⟨⟨rfl, rfl⟩, fun _ v hv => ?_⟩
        obtain rfl := hv
        exact ih _
      · rw [if_neg hn, if_neg hn]
        refine ⟨rfl, fun _ v hv => ?_⟩
        obtain rfl := hv
        refine ⟨rfl, fun _ v hv => ?_⟩
        obtain rfl := hv
        exact ih _

theorem ok_workerThread (w : Worker) :
    (workerThread w).Ok (Can (.worker w)) (Next (.worker w)) (Done (.worker w) (.worker w))
      [] {} := by
  refine ⟨⟨rfl, rfl⟩, fun events v hv => ?_⟩
  obtain rfl := hv
  exact ok_handleEvents w events _

/-! ### The steps keep the views -/

section Views

variable {s s' : State} {v : Stage} {w w' : Worker} {fd : Fd}

theorem Live.congr {P : Sock → Prop} (h : Live w fd s P) (hfds : s'.fds fd = s.fds fd)
    (hsets : fd ∈ s.sets w → fd ∈ s'.sets w) (hnamed : s'.named w fd = s.named w fd)
    (hsock : ∀ k, s.fds fd = some k → P (s.socks k) → P (s'.socks k)) : Live w fd s' P := by
  obtain ⟨k, hk, hset, hname, hP⟩ := h
  exact ⟨k, hfds.trans hk, hsets hset, hnamed.trans hname, hsock k hk hP⟩

theorem Holding.congr (h : Holding w s v)
    (hlive : ∀ fd P, Live w fd s P → Live w fd s' P) : Holding w s' v where
  nodup := h.nodup
  live fd hfd := hlive fd _ (h.live fd hfd)
  closing fd hfd := ⟨(h.closing fd hfd).1, hlive fd _ (h.closing fd hfd).2⟩

/-- A step on another descriptor leaves an entry live. -/
theorem Live.recvmsg_of_ne {P : Sock → Prop} {fd' : Fd} (ht : Table s) (h : Live w fd s P)
    (hne : fd ≠ fd') (hl : Live w' fd' s Sock.Ready) {r : Recv} {n : Int}
    (hexec : s.recvmsg w' fd' r = some (n, s')) : Live w fd s' P := by
  obtain ⟨k', bytes, hk', -, -, rfl⟩ := State.recvmsg_eq hl hexec
  refine h.congr rfl id rfl fun k hk hP => ?_
  have hkk : k ≠ k' := by
    rintro rfl
    exact hne (ht.fd_inj hk hk')
  show P (Function.update s.socks k' _ k)
  rwa [Function.update_of_ne hkk]

theorem Live.close_of_ne {P : Sock → Prop} {fd' : Fd} (h : Live w fd s P) (hne : fd ≠ fd') :
    Live w fd (s.close w' fd').2 P := by
  refine h.congr ?_ (fun hset => Finset.mem_erase.mpr ⟨hne, hset⟩) rfl (fun _ _ hP => hP)
  exact Function.update_of_ne hne _ _

/-- What a peer does leaves the entries of a batch live. -/
theorem Live.peer {e : Peer} (hpeer : peer e s = some s') {P : Sock → Prop}
    (hP : ∀ sock sock', e.act sock = some sock' → P sock → P sock') (h : Live w fd s P) :
    Live w fd s' P := by
  obtain ⟨k', sock, -, hact, rfl⟩ := peer_eq hpeer
  refine h.congr rfl id rfl fun k hk hk₁ => ?_
  by_cases hkk : k = k'
  · subst hkk
    show P (Function.update s.socks k sock k)
    rw [Function.update_self]
    exact hP _ _ hact hk₁
  · show P (Function.update s.socks k' sock k)
    rwa [Function.update_of_ne hkk]

theorem Sock.Ready.act {e : Peer} {sock sock' : Sock} (hact : e.act sock = some sock')
    (h : sock.Ready) : sock'.Ready := by
  rcases Peer.act_cases hact with ⟨bytes, -, rfl⟩ | rfl | rfl
  · rcases h with h | h
    · refine Or.inl fun hnil => h ?_
      exact (List.append_eq_nil_iff.mp hnil).1
    · exact Or.inr h
  · exact Or.inr (Or.inl rfl)
  · exact Or.inr (Or.inr rfl)

theorem Sock.Over.act {e : Peer} {sock sock' : Sock} (hact : e.act sock = some sock')
    (h : sock.Over) : sock'.Over := by
  rcases Peer.act_cases hact with ⟨bytes, hopen, rfl⟩ | rfl | rfl
  · rcases h with h | h
    · exact absurd h.2 hopen
    · exact Or.inr h
  · rcases h with h | h
    · exact Or.inl ⟨h.1, rfl⟩
    · exact Or.inr h
  · exact Or.inr rfl

theorem view_peer {l : Loop} {L : List (Entry Op Op.Res Loop Unit)} {e : Peer}
    (hpeer : peer e s = some s') (hv : View l s L v) : View l s' L v := by
  obtain ⟨ht, hv⟩ := hv
  refine ⟨ht.peer hpeer, ?_⟩
  cases l with
  | main =>
    obtain ⟨k, sock, -, -, rfl⟩ := peer_eq hpeer
    exact ⟨hv.registered, hv.inflight⟩
  | worker w =>
    refine ⟨hv.nodup, fun fd hfd => ?_, fun fd hfd => ?_⟩
    · exact (hv.live fd hfd).peer hpeer (fun _ _ hact h => h.act hact)
    · obtain ⟨hmem, hl⟩ := hv.closing fd hfd
      exact ⟨hmem, hl.peer hpeer (fun _ _ hact h => h.act hact)⟩

/-! ### A thread's own steps -/

theorem Registered.accept (ht : Table s) (h : Registered s {}) (hfree : s.fds fd = none)
    (hfds : s'.fds = Function.update s.fds fd (some s.next)) (hsets : s'.sets = s.sets) :
    Registered s' { inflight := some fd } := by
  constructor
  · intro fd' hopen
    rw [hfds] at hopen
    by_cases hne : fd' = fd
    · exact Or.inr (congrArg some hne.symm)
    · rw [Function.update_of_ne hne] at hopen
      rw [hsets]
      rcases h.registered fd' hopen with hmem | hnone
      · exact Or.inl hmem
      · cases hnone
  · intro fd' hfd
    obtain rfl := Option.some.inj hfd
    rw [hfds, Function.update_self, hsets]
    refine ⟨rfl, fun hmem => ?_⟩
    have hopen := (ht.owned _ _ hmem).2
    rw [hfree] at hopen
    cases hopen

theorem Registered.add (h : Registered s { inflight := some fd }) (hfds : s'.fds = s.fds)
    (hsets : s'.sets = Function.update s.sets (owner fd) (insert fd (s.sets (owner fd)))) :
    Registered s' {} := by
  refine ⟨fun fd' hopen => Or.inl ?_, fun _ hnone => by cases hnone⟩
  rw [hfds] at hopen
  rw [hsets]
  by_cases hw : owner fd' = owner fd
  · rw [hw, Function.update_self, Finset.mem_insert]
    rcases h.registered fd' hopen with hmem | heq
    · rw [hw] at hmem
      exact Or.inr hmem
    · exact Or.inl (Option.some.inj heq).symm
  · rw [Function.update_of_ne hw]
    rcases h.registered fd' hopen with hmem | heq
    · exact hmem
    · rw [Option.some.inj heq] at hw
      exact absurd rfl hw

/-- The batch that `epoll_wait` gives is live. -/
theorem Holding.wait {events : List EpollEvent} (hnodup : (events.map (·.fd)).Nodup)
    (hready : ∀ event ∈ events, event.fd ∈ s.sets w ∧ s.Ready event.fd) :
    Holding w { s with
        named := Function.update s.named w fun fd =>
          if fd ∈ events.map (·.fd) then s.fds fd else none }
      { pending := (events.filter (·.epollin)).map (·.fd) } := by
  refine ⟨hnodup.sublist (List.filter_sublist.map _), fun fd hfd => ?_, fun _ h => by cases h⟩
  obtain ⟨event, hmem, rfl⟩ := List.mem_map.mp hfd
  have hevent := List.mem_of_mem_filter hmem
  obtain ⟨hset, k, hk, hsock⟩ := hready event hevent
  refine ⟨k, hk, hset, ?_, hsock⟩
  show Function.update s.named w _ w event.fd = some k
  rw [Function.update_self, if_pos (List.mem_map_of_mem hevent)]
  exact hk

theorem Holding.recvmsg {rest : List Fd} (ht : Table s) (h : Holding w s { pending := fd :: rest })
    {r : Recv} {n : Int} (hexec : s.recvmsg w fd r = some (n, s')) :
    Holding w s' { pending := rest, closing := if n ≤ 0 then some fd else none } := by
  have hl := h.live fd List.mem_cons_self
  obtain ⟨hnot, hrest⟩ := List.nodup_cons.mp h.nodup
  refine ⟨hrest, fun fd' hfd' => ?_, fun fd' hfd' => ?_⟩
  · refine (h.live fd' (List.mem_cons_of_mem _ hfd')).recvmsg_of_ne ht ?_ hl hexec
    rintro rfl
    exact hnot hfd'
  · obtain ⟨hle, heq⟩ := Option.ite_none_right_eq_some.mp hfd'
    obtain rfl := Option.some.inj heq
    refine ⟨hnot, ?_⟩
    obtain ⟨k, bytes, hk, hnamed, hrecv, rfl⟩ := State.recvmsg_eq hl hexec
    obtain ⟨k', hk', hset, -, hready⟩ := hl
    obtain rfl : k = k' := Option.some.inj (hk.symm.trans hk')
    refine ⟨k, hk, hset, hnamed, ?_⟩
    show Sock.Over (Function.update s.socks k _ k)
    rw [Function.update_self]
    -- a positive answer does not lead to a close
    rcases (Sock.recv_cases hrecv).2.2 with ⟨hn, hpos⟩ | ⟨-, rfl, hover⟩
    · omega
    · exact hover hready

theorem Holding.close (h : Holding w s v) (hfd : v.closing = some fd) :
    Holding w (s.close w fd).2 { pending := v.pending } := by
  obtain ⟨hnot, -⟩ := h.closing fd hfd
  refine ⟨h.nodup, fun fd' hfd' => ?_, fun _ hnone => by cases hnone⟩
  refine (h.live fd' hfd').close_of_ne ?_
  rintro rfl
  exact hnot hfd'

theorem view_own {l : Loop} {L : List (Entry Op Op.Res Loop Unit)} {inp : Inp} {op : Op}
    {r : op.Res} (hv : View l s L v) (hcan : Can l op v) (hexec : exec inp op s = some (r, s')) :
    ∃ v', Next l op v r v' ∧ View l s' L v' := by
  obtain ⟨ht, hv⟩ := hv
  cases l with
  | main =>
    cases op with
    | accept =>
      obtain rfl := hcan
      rcases State.accept_cases hexec with ⟨rfl, rfl⟩ | ⟨fd, rfl, hfree, rfl⟩
      · exact ⟨_, rfl, ht, hv⟩
      · exact ⟨_, rfl, ht.accept hfree rfl rfl rfl rfl rfl, Registered.accept ht hv hfree rfl rfl⟩
    | epollCtlAdd w fd =>
      obtain ⟨rfl, rfl⟩ := hcan
      obtain ⟨hopen, hnew⟩ := hv.inflight fd rfl
      rw [exec, if_pos ⟨hopen, hnew⟩] at hexec
      cases hexec
      exact ⟨_, rfl, ht.add hopen rfl rfl rfl rfl rfl, Registered.add hv rfl rfl⟩
    | _ => cases hcan
  | worker w =>
    cases op with
    | epollWait w' =>
      obtain ⟨rfl, rfl⟩ := hcan
      obtain ⟨hnodup, hready, rfl⟩ := epollWait_eq hexec
      exact ⟨_, rfl, ht.congr rfl rfl rfl rfl rfl, Holding.wait hnodup hready⟩
    | recvmsg w' fd =>
      obtain ⟨rfl, rest, rfl⟩ := hcan
      exact ⟨_, rfl, ht.recvmsg (hv.live fd List.mem_cons_self) hexec, Holding.recvmsg ht hv hexec⟩
    | close w' fd =>
      obtain ⟨rfl, hclosing⟩ := hcan
      cases hexec
      exact ⟨_, rfl, ht.close (hv.closing fd hclosing).2, hv.close hclosing⟩
    | memset w' =>
      cases hexec
      exact ⟨v, rfl, ht.congr rfl rfl rfl rfl rfl, hv.congr fun _ _ hl => hl⟩
    | store w' i =>
      cases hexec
      exact ⟨v, rfl, ht.congr rfl rfl rfl rfl rfl, hv.congr fun _ _ hl => hl⟩
    | print w' =>
      cases hexec
      exact ⟨v, rfl, ht.congr rfl rfl rfl rfl rfl, hv.congr fun _ _ hl => hl⟩
    | accept => cases hcan
    | epollCtlAdd w' fd => cases hcan

/-! ### The steps of the other threads -/

/-- A worker's steps leave the registrations of the others alone, since what it closes
was registered. -/
theorem Registered.close (h : Registered s v) (ht : Table s) {P : Sock → Prop}
    (hl : Live w fd s P) : Registered (s.close w fd).2 v := by
  have hmem : fd ∈ s.sets (owner fd) := by
    rw [← ht.owner_eq hl]
    obtain ⟨k, -, hset, -⟩ := hl
    exact hset
  constructor
  · intro fd' hopen
    have hopen' : (Function.update s.fds fd none fd').isSome = true := hopen
    by_cases hne : fd' = fd
    · rw [hne, Function.update_self] at hopen'
      cases hopen'
    · rw [Function.update_of_ne hne] at hopen'
      rcases h.registered fd' hopen' with hset | heq
      · exact Or.inl (Finset.mem_erase.mpr ⟨hne, hset⟩)
      · exact Or.inr heq
  · intro fd' hfd'
    obtain ⟨hopen, hnot⟩ := h.inflight fd' hfd'
    have hne : fd' ≠ fd := by
      rintro rfl
      exact hnot hmem
    refine ⟨?_, fun hset => hnot (Finset.mem_of_mem_erase hset)⟩
    show (Function.update s.fds fd none fd').isSome = true
    rw [Function.update_of_ne hne, hopen]

/-- A new connection gets a number that is not open, and an id that is not in use. -/
theorem Live.accept {P : Sock → Prop} (h : Live w fd s P) (ht : Table s) {new r : Option Fd}
    (hexec : s.accept new = some (r, s')) : Live w fd s' P := by
  rcases State.accept_cases hexec with ⟨-, rfl⟩ | ⟨fd', -, hfree, rfl⟩
  · exact h
  · refine h.congr ?_ id rfl fun k hk hP => ?_
    · refine Function.update_of_ne ?_ _ _
      rintro rfl
      obtain ⟨k, hk, -⟩ := h
      rw [hfree] at hk
      cases hk
    · show P (Function.update s.socks s.next _ k)
      rwa [Function.update_of_ne (Nat.ne_of_lt (ht.home fd k hk).1)]

theorem Live.epollCtlAdd {P : Sock → Prop} (h : Live w fd s P) {inp : Inp} {fd' : Fd} {n : Int}
    (hexec : exec inp (.epollCtlAdd w' fd') s = some (n, s')) : Live w fd s' P := by
  rw [exec] at hexec
  split at hexec
  · cases hexec
    refine h.congr rfl (fun hset => ?_) rfl (fun _ _ hP => hP)
    show fd ∈ Function.update s.sets w' _ w
    by_cases hw : w = w'
    · subst hw
      rw [Function.update_self]
      exact Finset.mem_insert_of_mem hset
    · rwa [Function.update_of_ne hw]
  · cases hexec
    exact h

theorem Live.epollWait_of_ne {P : Sock → Prop} (h : Live w fd s P) (hne : w ≠ w') {inp : Inp}
    {events : List EpollEvent} (hexec : exec inp (.epollWait w') s = some (events, s')) :
    Live w fd s' P := by
  obtain ⟨-, -, rfl⟩ := epollWait_eq hexec
  refine h.congr rfl id ?_ (fun _ _ hP => hP)
  show Function.update s.named w' _ w fd = s.named w fd
  rw [Function.update_of_ne hne]

/-- What a step of thread `l` leaves alone for another worker. -/
theorem live_other {l : Loop} {L : List (Entry Op Op.Res Loop Unit)} {inp : Inp} {op : Op}
    {r : op.Res} (hk : Loop.worker w' ≠ l) (hv : View l s L v) (hcan : Can l op v)
    (hexec : exec inp op s = some (r, s')) {P : Sock → Prop} (hlive : Live w' fd s P) :
    Live w' fd s' P := by
  obtain ⟨ht, hv⟩ := hv
  cases l with
  | main =>
    cases op with
    | accept => exact hlive.accept ht hexec
    | epollCtlAdd w fd₁ => exact hlive.epollCtlAdd hexec
    | _ => cases hcan
  | worker w =>
    have hw : w' ≠ w := fun h => hk (congrArg Loop.worker h)
    -- two workers never hold the same descriptor
    have hne : ∀ {fd₁ : Fd} {Q : Sock → Prop}, Live w fd₁ s Q → fd ≠ fd₁ := by
      rintro fd₁ Q hl rfl
      exact hw ((ht.owner_eq hlive).trans (ht.owner_eq hl).symm)
    cases op with
    | epollWait w₁ =>
      obtain ⟨rfl, rfl⟩ := hcan
      exact hlive.epollWait_of_ne hw hexec
    | recvmsg w₁ fd₁ =>
      obtain ⟨rfl, rest, rfl⟩ := hcan
      have hl := hv.live fd₁ List.mem_cons_self
      exact hlive.recvmsg_of_ne ht (hne hl) hl hexec
    | close w₁ fd₁ =>
      obtain ⟨rfl, hclosing⟩ := hcan
      cases hexec
      exact hlive.close_of_ne (hne (hv.closing fd₁ hclosing).2)
    | memset w₁ =>
      cases hexec
      exact hlive
    | store w₁ i =>
      cases hexec
      exact hlive
    | print w₁ =>
      cases hexec
      exact hlive
    | accept => cases hcan
    | epollCtlAdd w₁ fd₁ => cases hcan

theorem view_other {l l' : Loop} {L : List (Entry Op Op.Res Loop Unit)} {inp : Inp} {op : Op}
    {r : op.Res} {v' : Stage} (hk : l' ≠ l) (hv : View l s L v) (hcan : Can l op v)
    (hexec : exec inp op s = some (r, s')) (hv' : View l' s L v') : View l' s' L v' := by
  obtain ⟨-, -, ht', -⟩ := view_own hv hcan hexec
  refine ⟨ht', ?_⟩
  cases l' with
  | worker w' => exact hv'.2.congr fun fd P hlive => live_other hk hv hcan hexec hlive
  | main =>
    obtain ⟨ht, hreg⟩ := hv'
    cases l with
    | main => exact absurd rfl hk
    | worker w =>
      cases op with
      | epollWait w₁ =>
        obtain ⟨-, -, rfl⟩ := epollWait_eq hexec
        exact ⟨hreg.registered, hreg.inflight⟩
      | recvmsg w₁ fd₁ =>
        obtain ⟨rfl, rest, rfl⟩ := hcan
        obtain ⟨k, bytes, -, -, -, rfl⟩ :=
          State.recvmsg_eq (hv.2.live fd₁ List.mem_cons_self) hexec
        exact ⟨hreg.registered, hreg.inflight⟩
      | close w₁ fd₁ =>
        obtain ⟨rfl, hclosing⟩ := hcan
        cases hexec
        exact hreg.close ht (hv.2.closing fd₁ hclosing).2
      | memset w₁ =>
        cases hexec
        exact ⟨hreg.registered, hreg.inflight⟩
      | store w₁ i =>
        cases hexec
        exact ⟨hreg.registered, hreg.inflight⟩
      | print w₁ =>
        cases hexec
        exact ⟨hreg.registered, hreg.inflight⟩
      | accept => cases hcan
      | epollCtlAdd w₁ fd₁ => cases hcan

end Views

/-- The outline: one view for each thread. -/
def ownership : Outline server Stage where
  View := View
  Idle := Idle
  Can := Can
  Next := Next
  Done := Done
  spawn {l v} hv := by
    obtain rfl : v = {} := hv
    cases l with
    | main => exact ok_acceptLoop
    | worker w => exact ok_workerThread w
  own hv hcan hexec := view_own hv hcan hexec
  other hk hv hcan hexec hw := view_other hk hv hcan hexec hw
  env he hv := view_peer he hv
  finish {_ _ _ _ _ v} hv hdone := ⟨v, hdone, hv⟩
  finish_other _ hv := hv

/-! ### Every run -/

section Runs

variable {stack : Worker → DataSection} {acts : List (Act Loop Inp Peer Loop)}
  {c : Config Loop Op Op.Res State Loop Unit}

theorem view_boot (stack : Worker → DataSection) (l : Loop) :
    ∃ v, ownership.View l (State.boot stack) [] v ∧ ownership.Idle l v := by
  refine ⟨{}, ⟨table_boot stack, ?_⟩, rfl⟩
  cases l with
  | main => exact ⟨fun _ h => (by cases h), fun _ h => (by cases h)⟩
  | worker w => exact ⟨List.nodup_nil, fun _ h => absurd h List.not_mem_nil, fun _ h => by cases h⟩

theorem table_of_run (h : server.run (server.init (State.boot stack)) acts = some c) :
    Table c.shared := by
  obtain ⟨v, hv, -⟩ := ownership.holds_run (view_boot stack) h .main
  exact hv.1

/-- `main` is between the `accept` that gave it `fd` and the `epoll_ctl`. -/
def Accepting (c : Config Loop Op Op.Res State Loop Unit) (fd : Fd) : Prop :=
  ∃ th f, c.running .main = some th ∧ th.rest = .call (.epollCtlAdd (owner fd) fd) f

theorem mem_sets_of_run (h : server.run (server.init (State.boot stack)) acts = some c) {fd : Fd}
    (hopen : (c.shared.fds fd).isSome = true) (hacc : ¬ Accepting c fd) :
    fd ∈ c.shared.sets (owner fd) := by
  obtain ⟨v, ⟨-, hreg⟩, hcase⟩ := ownership.idle_or_can (view_boot stack) h .main
  rcases hreg.registered fd hopen with hmem | hfd
  · exact hmem
  · rcases hcase with ⟨-, hidle⟩ | ⟨th, op, f, hrun, hrest, hcan⟩
    · rw [show v = {} from hidle] at hfd
      cases hfd
    · have hcan' : Can .main op v := hcan
      cases op with
      | accept =>
        rw [show v = {} from hcan'] at hfd
        cases hfd
      | epollCtlAdd w fd' =>
        obtain ⟨rfl, rfl⟩ := hcan'
        obtain rfl := Option.some.inj hfd
        exact absurd ⟨th, f, hrun, hrest⟩ hacc
      | _ => cases hcan'

theorem eq_owner_iff {w : Worker} {fd : Fd} : w = owner fd ↔ (w : Nat) = fd % numThreads :=
  Fin.ext_iff

/-- **Connection ownership.**  In every state that the server can reach:

* a descriptor that is open, and that `main` is not just about to register, is in
  exactly one epoll set, that of worker `fd % NUM_THREADS`;
* whatever was read or closed, it was so by worker `fd % NUM_THREADS`, and it was
  the connection that the descriptor stood for when the batch named it;
* a connection has one such worker, the bytes read from it and the bytes still in its
  buffer are together the bytes that arrived, in their order, and once its descriptor
  is closed no byte is left unread unless the connection broke. -/
theorem connections_owned (h : server.run (server.init (State.boot stack)) acts = some c) :
    (∀ fd, (c.shared.fds fd).isSome = true → ¬ Accepting c fd →
      ∀ w : Worker, fd ∈ c.shared.sets w ↔ (w : Nat) = fd % numThreads) ∧
    (∀ t ∈ c.shared.touches, (t.worker : Nat) = t.fd % numThreads ∧
      ∃ k, t.conn = some k ∧ t.named = some k) ∧
    ∀ k < c.shared.next,
      (∀ t ∈ c.shared.touches, t.conn = some k → t.fd = (c.shared.socks k).home ∧
        (t.worker : Nat) = (c.shared.socks k).home % numThreads) ∧
      readsOf k c.shared.touches ++ (c.shared.socks k).buffer = (c.shared.socks k).arrived ∧
      (c.shared.fds (c.shared.socks k).home ≠ some k →
        (c.shared.socks k).buffer = [] ∨ (c.shared.socks k).failed = true) := by
  have ht := table_of_run h
  refine ⟨fun fd hopen hacc w => ?_, fun t hmem => ?_,
    fun k hk => ⟨fun t hmem hconn => ?_, ?_, ?_⟩⟩
  · rw [← eq_owner_iff]
    constructor
    · intro hmem
      exact (ht.owned w fd hmem).1
    · rintro rfl
      exact mem_sets_of_run h hopen hacc
  · obtain ⟨k, hconn, hnamed, hw, -⟩ := ht.touched t hmem
    exact ⟨eq_owner_iff.mp hw, k, hconn, hnamed⟩
  · obtain ⟨j, hj, -, hw, -, hhome⟩ := ht.touched t hmem
    obtain rfl := Option.some.inj (hj.symm.trans hconn)
    exact ⟨hhome.symm, hhome ▸ eq_owner_iff.mp hw⟩
  · exact ht.streams k
  · intro hclosed
    rcases ht.closed k hk hclosed with hover | hfail
    · exact Or.inl hover.1
    · exact Or.inr hfail

end Runs

theorem one_lt_numThreads : 1 < numThreads := by decide

/-- Three bytes are read in two passes, the peer closes, and descriptor 5 is handed
out again. -/
def exampleActs : List (Act Loop Inp Peer Loop) :=
  let w : Loop := .worker ⟨1, one_lt_numThreads⟩
  let wait : Inp := { events := [⟨5, true⟩] }
  let recv (r : Recv) : Inp := { received := r }
  [.spawn .main, .step .main { accepted := some 5 }, .step .main {}, .env (.sends 5 [1, 2, 3]),
    .spawn w, .step w wait, .step w {}, .step w (recv (.data 2)), .step w {}, .step w {},
    .spawn w, .step w wait, .step w {}, .step w (recv (.data 1)), .step w {}, .env (.closes 5),
    .step w {}, .spawn w, .step w wait, .step w {}, .step w (recv .eof), .step w {},
    .spawn .main, .step .main { accepted := some 5 }, .step .main {}]

theorem connections_owned_reused :
    ∃ c, server.run (server.init (State.boot fun _ => ⟨[]⟩)) exampleActs = some c ∧
      c.shared.next = 2 ∧ readsOf 0 c.shared.touches = [1, 2, 3] ∧ c.shared.fds 5 = some 1 ∧
      ∀ t ∈ c.shared.touches, (t.worker : Nat) = t.fd % numThreads ∧
        ∃ k, t.conn = some k ∧ t.named = some k := by
  have h : (server.run (server.init (State.boot fun _ => ⟨[]⟩)) exampleActs).map (fun c =>
      (c.shared.next, readsOf 0 c.shared.touches, c.shared.fds 5)) =
        some (2, [1, 2, 3], some 1) := by
    decide +kernel
  obtain ⟨c, hc, he⟩ := Option.map_eq_some_iff.mp h
  obtain ⟨hnext, hreads, hfds⟩ : c.shared.next = 2 ∧ readsOf 0 c.shared.touches = [1, 2, 3] ∧
      c.shared.fds 5 = some 1 := by simpa using he
  exact ⟨c, hc, hnext, hreads, hfds, (connections_owned hc).2.1⟩

end NetworkAnalyse.Server
