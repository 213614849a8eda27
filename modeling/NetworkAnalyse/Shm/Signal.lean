import NetworkAnalyse.Shm.Safety

/-!
# Whether a signal is lost

A writer sets the semaphore to 0 before it writes, which undoes the signal of a writer
before it.  A reader removes the segment and the semaphore when it is done, which undoes
the signal of a writer that has come in between.  `Handshake` excludes these steps.

* `Live`: the objects under the key hold the message and a signal.
* `Held`: what the records of the writers say about the objects.
* `signal_held`: a completed write is there for the next reader, in every run whose steps
  meet `Handshake`.
-/

namespace NetworkAnalyse.Shm

open Lib

/-- Besides being orderly: a writer resets a semaphore only at 0.  A reader takes a signal
only when the writers that have signalled this semaphore have returned.  It removes a
segment only when nobody is writing to it and its semaphore is at 0. -/
def Handshake : Op → State → Prop
  | .shmget _ key _, st => st.shm key = none → st.sem key = none
  | .setval m _, st => (st.sems m).value = 0
  | .semop _ m i, st => i < 0 → ∀ x ∈ st.signalled, x.2 ≠ m
  | .shmRmid s, st => (∀ x ∈ st.looking, x.2 ≠ s) ∧ (∀ x ∈ st.writing, x.2 ≠ s) ∧
    ∀ m < st.nextSem, (st.sems m).segment = some s → (st.sems m).value = 0
  | _, _ => True

instance (op : Op) (st : State) : Decidable (Handshake op st) :=
  match op with
  | .shmget _ _ _ => inferInstanceAs (Decidable (_ → _))
  | .setval _ _ => inferInstanceAs (Decidable (_ = _))
  | .semop _ _ _ => inferInstanceAs (Decidable (_ → ∀ x ∈ st.signalled, _))
  | .shmRmid _ =>
    inferInstanceAs (Decidable ((∀ x ∈ st.looking, _) ∧ (∀ x ∈ st.writing, _) ∧
      ∀ m < st.nextSem, _))
  | .ftok _ _ | .semget _ | .shmat _ _ | .copyIn _ _ _ | .copyOut _ _ | .shmdt _ _ | .semRmid _ =>
    .isTrue trivial

theorem Handshake.orderly {op : Op} {st : State} (h : Handshake op st) : Orderly op st := by
  cases op with
  | shmget c key size => exact h
  | shmRmid s => exact h.1
  | _ => trivial

/-! ### What a call records -/

/-- The call is a wait. -/
def Op.Waits : Op → Prop
  | .semop _ _ i => i < 0
  | _ => False

structure Records (op : Op) (st st' : State) : Prop where
  writing : ∀ x ∈ st'.writing, x ∈ st.writing ∨ op = .shmat x.1 x.2
  signalled : ∀ x ∈ st'.signalled, x ∈ st.signalled ∨ ∃ i, op = .semop x.1 x.2 i ∧ ¬ i < 0
  hist : (st'.hist = st.hist ∧ ¬ op.Waits) ∨ ∃ e, st'.hist = st.hist ++ [e] ∧
    (op.Waits → ∃ c, e = .passed c) ∧
    ∀ c, e = .completed c → ∃ str, op = .shmdt c str ∧ c.fn = .write

theorem records_semop {st st' : State} {c : Caller} {m : SemId} {i n : Int}
    (h : st.semop c m i = some (n, st')) : Records (.semop c m i) st st' := by
  have hpass : Records (.semop c m i) st (st.pass c m i) := by
    rw [State.pass]
    split
    · rename_i hi
      refine ⟨fun x hx => Or.inl hx, fun x hx => Or.inl hx, Or.inr ⟨_, rfl, fun _ => ⟨c, rfl⟩, ?_⟩⟩
      exact fun _ hc => Event.noConfusion hc
    · rename_i hi
      refine ⟨fun x hx => Or.inl (List.mem_of_mem_filter hx), fun x hx => ?_, Or.inl ⟨rfl, hi⟩⟩
      rcases List.mem_cons.mp hx with rfl | hx
      · exact Or.inr ⟨i, rfl, hi⟩
      · exact Or.inl hx
  rcases State.semop_cases h with rfl | rfl
  · exact hpass
  · exact ⟨hpass.writing, hpass.signalled, hpass.hist⟩

/-- A call that records nothing about writers and is no wait. -/
theorem Records.plain {op : Op} {st st' : State} (hw : st'.writing = st.writing)
    (hs : st'.signalled = st.signalled) (hop : ¬ op.Waits)
    (hh : st'.hist = st.hist ∨ ∃ e, st'.hist = st.hist ++ [e] ∧ ∀ c, e ≠ .completed c) :
    Records op st st' := by
  refine ⟨fun x hx => Or.inl (hw ▸ hx), fun x hx => Or.inl (hs ▸ hx), ?_⟩
  rcases hh with hh | ⟨e, hh, he⟩
  · exact Or.inl ⟨hh, hop⟩
  · exact Or.inr ⟨e, hh, fun hwait => absurd hwait hop, fun c hc => absurd hc (he c)⟩

theorem records_of_exec {op : Op} {st st' : State} {r : op.Res} (h : exec op st = some (r, st')) :
    Records op st st' := by
  cases op with
  | ftok path projId =>
    cases h
    exact .plain rfl rfl id (Or.inl rfl)
  | shmget c key size =>
    simp only [exec, State.shmget] at h
    split at h <;> cases h <;> exact .plain rfl rfl id (Or.inl rfl)
  | semget key =>
    simp only [exec, State.semget] at h
    split at h <;> cases h <;> exact .plain rfl rfl id (Or.inl rfl)
  | setval m val =>
    simp only [exec] at h
    split at h <;> cases h <;> exact .plain rfl rfl id (Or.inl rfl)
  | semop c m i => exact records_semop h
  | shmat c s =>
    simp only [exec, State.shmat] at h
    split at h
    · cases h
      exact .plain rfl rfl id (Or.inl rfl)
    · cases h
      refine ⟨fun x hx => ?_, fun x hx => Or.inl hx, Or.inl ⟨rfl, id⟩⟩
      dsimp only at hx
      split at hx
      · rcases List.mem_cons.mp hx with rfl | hx
        · exact Or.inr rfl
        · exact Or.inl hx
      · exact Or.inl hx
  | copyIn c str bytes =>
    cases str <;> cases h <;>
      exact .plain rfl rfl id (Or.inr ⟨_, rfl, fun _ h => Event.noConfusion h⟩)
  | copyOut c str =>
    cases str <;> cases h <;>
      exact .plain rfl rfl id (Or.inr ⟨_, rfl, fun _ h => Event.noConfusion h⟩)
  | shmdt c str =>
    cases str with
    | none =>
      cases h
      exact .plain rfl rfl id (Or.inl rfl)
    | some s =>
      simp only [exec, State.shmdt] at h
      split at h
      · cases h
        exact .plain rfl rfl id (Or.inl rfl)
      · cases h
        rename_i hfn
        refine ⟨fun x hx => Or.inl hx, fun x hx => Or.inl (List.mem_of_mem_filter hx), Or.inr ?_⟩
        refine ⟨_, rfl, False.elim, fun c' hc' => ?_⟩
        cases hc'
        exact ⟨some s, rfl, hfn⟩
  | shmRmid s =>
    simp only [exec] at h
    split at h <;> cases h <;> exact .plain rfl rfl id (Or.inl rfl)
  | semRmid m =>
    simp only [exec] at h
    split at h <;> cases h <;> exact .plain rfl rfl id (Or.inl rfl)

/-! ### Signals that are there -/

/-- A segment and a signalled semaphore are under the key. -/
structure Live (st : State) (m : SemId) : Prop where
  shm : ∃ s, st.shm theKey = some s
  sem : st.sem theKey = some m
  value : 0 < (st.sems m).value

/-- A write has completed, and no reader has passed its `semop` since. -/
def Pending (h : List Event) : Prop :=
  ∃ pre w post, h = pre ++ .completed w :: post ∧ ∀ r, .passed r ∉ post

theorem Pending.of_snoc {h : List Event} {e : Event} (hp : Pending (h ++ [e])) :
    (∃ w, e = .completed w) ∨ (Pending h ∧ ∀ r, e ≠ .passed r) := by
  obtain ⟨pre, w, post, heq, hpost⟩ := hp
  rcases snoc_eq_append_cons heq with ⟨-, he, -⟩ | ⟨post', rfl, hh⟩
  · exact Or.inl ⟨w, he.symm⟩
  · refine Or.inr ⟨⟨pre, w, post', hh, fun r hr => ?_⟩, ?_⟩
    · exact hpost r (List.mem_append_left _ hr)
    · rintro r rfl
      exact hpost r (List.mem_append_right _ (List.mem_singleton_self _))

/-- What the records say: who is writing has the segment under the key, and who has
signalled has left a signal, as has a write that has completed since the last wait. -/
structure Held (st : State) : Prop where
  writing : ∀ x ∈ st.writing, st.shm theKey = some x.2
  signalled : ∀ x ∈ st.signalled, Live st x.2
  pending : Pending st.hist → ∃ m, Live st m

theorem held_boot : Held .boot where
  writing _ hx := nomatch hx
  signalled _ hx := nomatch hx
  pending hp := by
    obtain ⟨pre, w, post, heq, -⟩ := hp
    rw [State.boot] at heq
    simp at heq

section Steps

variable {c : Caller} {op : Op} {v : List Fact} {st st' : State} {r : op.Res} {m : SemId}

/-- A signal stays until a reader waits for it. -/
theorem Live.of_exec (h : Live st m) (hs : Sound st) (hv : ∀ f ∈ v, f.Holds c st)
    (hcan : Can c op v) (hg : Handshake op st) (hexec : exec op st = some (r, st'))
    (hop : ∀ c' i, op = .semop c' m i → 0 ≤ i) : Live st' m := by
  have hframe := frame_of_exec hexec
  obtain ⟨s, hshm⟩ := h.shm
  have hseg := hs.pair hshm h.sem
  have hlt := (hs.live h.sem).1
  refine ⟨⟨s, (hframe.shm hshm).resolve_right ?_⟩, (hframe.sem h.sem).resolve_right ?_, ?_⟩
  · rintro rfl
    exact Nat.ne_of_gt h.value (hg.2.2 m hlt hseg)
  · rintro rfl
    obtain ⟨s', hpair, hgone⟩ := hcan
    obtain rfl := Option.some.inj (hseg.symm.trans (hv _ hpair).2)
    exact (hv _ hgone).2 hshm
  · refine Nat.lt_of_lt_of_le h.value ((hframe.value m hlt).resolve_right fun hlow => ?_)
    cases op with
    | setval m' val =>
      obtain rfl := hlow
      exact Nat.ne_of_gt h.value hg
    | semop c' m' i =>
      obtain ⟨rfl, hi⟩ := hlow
      exact Int.not_le.mpr hi (hop c' i rfl)
    | _ => exact hlow

/-- A signal raises the semaphore, unless it is at its maximum. -/
theorem value_pos_of_signal {n : Int} (hr : (st.sems m).removed = false)
    (h : st.semop c m 1 = some (n, st')) : 0 < (st'.sems m).value := by
  simp only [State.semop, hr, Bool.false_eq_true, if_false] at h
  split at h
  · cases h
  split at h
  · rename_i hmax
    cases h
    have hpos : 0 < (st.sems m).value := by
      unfold semvmx at hmax
      omega
    exact hpos
  · cases h
    simp only [State.setSem, Function.update_self]
    omega

/-- A writer that signals leaves a signal. -/
theorem Held.live_of_signal (h : Held st) (hs : Sound st) (hv : ∀ f ∈ v, f.Holds c st)
    {s : ShmId} {n : Int} (hpair : .paired s m ∈ v) (hwriting : .writing s ∈ v)
    (hexec : st.semop c m 1 = some (n, st')) : Live st' m := by
  have hframe := frame_semop hexec
  have hshm : st.shm theKey = some s := h.writing (c, s) (hv _ hwriting)
  obtain ⟨hlt, hseg⟩ := hv _ hpair
  have hr : (st.sems m).removed = false := by
    by_contra hr
    rw [Bool.not_eq_false] at hr
    exact hs.past hlt hr hseg hshm
  refine ⟨⟨s, (hframe.shm hshm).resolve_right nofun⟩, ?_, value_pos_of_signal hr hexec⟩
  exact (hframe.sem (hs.only hlt hr)).resolve_right nofun

theorem Held.of_exec (h : Held st) (hs : Sound st) (hv : ∀ f ∈ v, f.Holds c st)
    (hcan : Can c op v) (hg : Handshake op st) (hexec : exec op st = some (r, st')) : Held st' := by
  have hframe := frame_of_exec hexec
  have hrecords := records_of_exec hexec
  refine ⟨fun x hx => ?_, fun x hx => ?_, fun hp => ?_⟩
  · rcases hrecords.writing x hx with hx | rfl
    · refine (hframe.shm (h.writing x hx)).resolve_right ?_
      rintro rfl
      exact hg.2.1 x hx rfl
    · exact (hframe.shm (hv _ hcan.2).2).resolve_right nofun
  · rcases hrecords.signalled x hx with hx | ⟨i, rfl, hi⟩
    · refine (h.signalled x hx).of_exec hs hv hcan hg hexec ?_
      rintro c' i rfl
      exact Int.not_lt.mp fun hi => hg hi x hx rfl
    · rcases hcan.2 with ⟨rfl, -⟩ | ⟨rfl, s, hpair, -, hwriting⟩
      · exact absurd (show (-1 : Int) < 0 by decide) hi
      · obtain rfl := hcan.1
        exact h.live_of_signal hs hv hpair hwriting hexec
  · have hkeep : Pending st.hist → ¬ op.Waits → ∃ m, Live st' m := by
      intro hp hwait
      obtain ⟨m, hm⟩ := h.pending hp
      refine ⟨m, hm.of_exec hs hv hcan hg hexec ?_⟩
      rintro c' i rfl
      exact Int.not_lt.mp hwait
    rcases hrecords.hist with ⟨heq, hwait⟩ | ⟨e, heq, hwait, hcomp⟩
    · rw [heq] at hp
      exact hkeep hp hwait
    · rw [heq] at hp
      rcases hp.of_snoc with ⟨w, rfl⟩ | ⟨hp, hne⟩
      · -- the writer has signalled, and its signal is still there
        obtain ⟨str, rfl, hfn⟩ := hcomp w rfl
        obtain rfl : w = c := hcan.1
        obtain ⟨m, hm⟩ := hcan.2.2 hfn
        exact ⟨m, (h.signalled (w, m) (hv _ hm)).of_exec hs hv hcan hg hexec nofun⟩
      · refine hkeep hp fun hw => ?_
        obtain ⟨r, hr⟩ := hwait hw
        exact hne r hr

end Steps

/-! ### A reader that comes then -/

/-- A wait on a semaphore above 0 returns, and leaves the segments alone. -/
theorem semop_of_pos (st : State) {m : SemId} (c : Caller) (hr : (st.sems m).removed = false)
    (hpos : 0 < (st.sems m).value) :
    ∃ n st', st.semop c m (-1) = some (n, st') ∧ st'.segs = st.segs := by
  have hnonneg : ¬ ((st.sems m).value : Int) + -1 < 0 := by omega
  simp only [State.semop, hr, Bool.false_eq_true, if_false, if_neg hnonneg]
  split
  · exact ⟨_, _, rfl, rfl⟩
  · exact ⟨_, _, rfl, rfl⟩

/-- The removals return, whatever is there. -/
theorem exists_exec_rmid (st : State) (s : ShmId) (m : SemId) :
    (∃ r st', exec (.shmRmid s) st = some (r, st')) ∧
      ∃ r st', exec (.semRmid m) st = some (r, st') := by
  constructor
  · rw [exec]
    split
    · exact ⟨_, _, rfl⟩
    · exact ⟨_, _, rfl⟩
  · rw [exec]
    split
    · exact ⟨_, _, rfl⟩
    · exact ⟨_, _, rfl⟩

/-- A reader that finds a signal returns the message without blocking. -/
theorem read_of_live {st : State} {m : SemId} (hs : Sound st) (h : Live st m) (c : Caller) :
    ∃ st', (tcpConnectShmRead c).run exec st = some (.read message, st') := by
  obtain ⟨s, hshm⟩ := h.shm
  obtain ⟨hlt, hr⟩ := hs.live h.sem
  have htext := (hs.value hlt h.value (hs.pair hshm h.sem)).text.string_eq
  let st₁ : State := { st with looking := (c, s) :: st.looking }
  have hget : exec (.shmget c theKey 1024) st = some (s, st₁) := by
    simp only [exec, State.shmget, hshm]
    rfl
  have hsem : exec (.semget theKey) st₁ = some (m, st₁) := by
    simp only [exec, State.semget, st₁, h.sem]
  obtain ⟨n, st₂, hop, hsegs⟩ := semop_of_pos st₁ c hr h.value
  have hthere : (st₂.segs s).destroyed = false := by
    rw [hsegs, Segment.destroyed, (hs.found hshm).2]
    rfl
  have hat : exec (.shmat c s) st₂ = some (some s, (st₂.shmat c s).2) := by
    simp only [exec, State.shmat, hthere, Bool.false_eq_true, if_false]
  have hout : exec (.copyOut c (some s)) (st₂.shmat c s).2 =
      some (some message, (st₂.shmat c s).2.note (.copiedOut c (some s) message)) := by
    have hstring : ((st₂.shmat c s).2.segs s).data.string 0 = message := by
      simp only [State.shmat, hthere, Bool.false_eq_true, if_false, State.setSeg,
        Function.update_self]
      rw [hsegs]
      exact htext
    rw [exec, hstring]
  obtain ⟨r₁, st₃, hrm⟩ := (exists_exec_rmid
    (((st₂.shmat c s).2.note (.copiedOut c (some s) message)).shmdt c s) s m).1
  obtain ⟨r₂, st₄, hsrm⟩ := (exists_exec_rmid st₃ s m).2
  refine ⟨st₄, ?_⟩
  have hkey : exec (.ftok tcpConnectShmkey 65) st = some (theKey, st) := rfl
  have hdt : exec (.shmdt c (some s)) ((st₂.shmat c s).2.note (.copiedOut c (some s) message)) =
      some (0, ((st₂.shmat c s).2.note (.copiedOut c (some s) message)).shmdt c s) := rfl
  have hop' : exec (.semop c m (-1)) st₁ = some (n, st₂) := hop
  simp only [tcpConnectShmRead, call, Prog.perform_bind, Prog.run_call, hkey, hget, hsem, hop', hat,
    hout, hdt, hrm, hsrm, Option.bind_some]
  rfl

/-- **No signal is lost** in a run whose steps all meet the condition.  In every state in
which a write has completed and no reader has passed its `semop` since, the segment under
the key holds the message and the semaphore under the key is at least 1, and a reader
that comes then returns the message without blocking. -/
theorem signal_held {acts : List (Act Caller Unit Empty Caller)}
    {c : Config Caller Op Op.Res State Caller Outcome}
    (h : channel.run (channel.init .boot) acts = some c)
    (hk : channel.Keeps Handshake (channel.init .boot) acts) {pre post : List Event} {w : Caller}
    (hw : c.shared.hist = pre ++ .completed w :: post) (hpost : ∀ r, .passed r ∉ post) :
    ∃ s m, c.shared.shm theKey = some s ∧ c.shared.sem theKey = some m ∧
      (c.shared.segs s).data.string 0 = message ∧ 1 ≤ (c.shared.sems m).value ∧
      ∀ r, ∃ st', (tcpConnectShmRead r).run exec c.shared = some (.read message, st') := by
  have hrun := System.run_guard_iff.mpr ⟨h, hk⟩
  have hboot : ∀ c, ∃ v, View c .boot [] v ∧ v = [] := fun c => ⟨[], outline_boot c, rfl⟩
  let O := outline Handshake Handshake.orderly
  obtain ⟨v, hv, -⟩ := O.holds_run hboot hrun ⟨.read, 0⟩
  have hheld : Held c.shared := by
    refine O.shared_of_run (fun {k st L v inp op r st'} hv hcan hexec hheld => ?_)
      (fun {e} => e.elim) hboot held_boot hrun
    obtain ⟨hg, hexec⟩ := System.exec_guard_iff.mp hexec
    exact hheld.of_exec hv.sound hv.facts hcan hg hexec
  obtain ⟨m, hm⟩ := hheld.pending ⟨pre, w, post, hw, hpost⟩
  obtain ⟨s, hshm⟩ := hm.shm
  have hlt := (hv.sound.live hm.sem).1
  have hfull := hv.sound.value hlt hm.value (hv.sound.pair hshm hm.sem)
  exact ⟨s, m, hshm, hm.sem, hfull.text.string_eq, hm.value, read_of_live hv.sound hm⟩

/-- A write. -/
def oneWrite : List (Act Caller Unit Empty Caller) := .spawn exampleWriter :: steps exampleWriter 8

theorem signal_held_example :
    ∃ c, channel.run (channel.init .boot) oneWrite = some c ∧
      channel.Keeps Handshake (channel.init .boot) oneWrite ∧
      ∃ s m, c.shared.shm theKey = some s ∧ c.shared.sem theKey = some m ∧
        (c.shared.segs s).data.string 0 = message ∧ 1 ≤ (c.shared.sems m).value ∧
        ∀ r, ∃ st', (tcpConnectShmRead r).run exec c.shared = some (.read message, st') := by
  have hhist : ((channel.guard Handshake).run (channel.init .boot) oneWrite).map (·.shared.hist) =
      some ([.copiedIn exampleWriter (some 0)] ++ .completed exampleWriter :: []) := by
    decide +kernel
  obtain ⟨c, hrun, hhist⟩ := Option.map_eq_some_iff.mp hhist
  obtain ⟨h, hk⟩ := System.run_guard_iff.mp hrun
  exact ⟨c, h, hk, signal_held h hk hhist nofun⟩

/-- A second writer starts after the first one has returned. -/
def secondWriter : List (Act Caller Unit Empty Caller) :=
  oneWrite ++ .spawn ⟨.write, 1⟩ :: steps ⟨.write, 1⟩ 4

/-- A reader passes its `semop` between the writer's signal and its return. -/
def earlyReader : List (Act Caller Unit Empty Caller) :=
  .spawn exampleWriter :: steps exampleWriter 7 ++ .spawn exampleReader :: steps exampleReader 4 ++
    steps exampleWriter 1

/-- What `signal_held` is about, in a form that can be evaluated. -/
def signalView (c : Config Caller Op Op.Res State Caller Outcome) : List Event × Option Nat :=
  (c.shared.hist, (c.shared.sem theKey).map fun m => (c.shared.sems m).value)

/-- **Signals that are lost.**  A second writer's `SETVAL` undoes the signal of the first
one, which has returned.  And a reader that is quick takes the signal before the writer
has returned. -/
theorem signal_lost :
    (∃ c, channel.run (channel.init .boot) secondWriter = some c ∧ Pending c.shared.hist ∧
      ∃ m, c.shared.sem theKey = some m ∧ (c.shared.sems m).value = 0) ∧
    ∃ c, channel.run (channel.init .boot) earlyReader = some c ∧ Pending c.shared.hist ∧
      ∃ m, c.shared.sem theKey = some m ∧ (c.shared.sems m).value = 0 := by
  have h₁ : (channel.run (channel.init .boot) secondWriter).map signalView =
      some ([.copiedIn exampleWriter (some 0)] ++ .completed exampleWriter :: [], some 0) := by
    decide +kernel
  have h₂ : (channel.run (channel.init .boot) earlyReader).map signalView =
      some ([.copiedIn exampleWriter (some 0), .passed exampleReader] ++
        .completed exampleWriter :: [], some 0) := by
    decide +kernel
  obtain ⟨c₁, hrun₁, hview₁⟩ := Option.map_eq_some_iff.mp h₁
  obtain ⟨c₂, hrun₂, hview₂⟩ := Option.map_eq_some_iff.mp h₂
  obtain ⟨hhist₁, hvalue₁⟩ := Prod.mk.inj hview₁
  obtain ⟨hhist₂, hvalue₂⟩ := Prod.mk.inj hview₂
  refine ⟨⟨c₁, hrun₁, ⟨_, _, _, hhist₁, nofun⟩, ?_⟩, ⟨c₂, hrun₂, ⟨_, _, _, hhist₂, nofun⟩, ?_⟩⟩
  · exact Option.map_eq_some_iff.mp hvalue₁
  · exact Option.map_eq_some_iff.mp hvalue₂

end NetworkAnalyse.Shm
