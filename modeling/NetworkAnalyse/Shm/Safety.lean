import NetworkAnalyse.Shm.Objects

/-!
# What a reader gets

A reader removes the segment and the semaphore while other calls may hold their ids.
`Orderly` says when this is harmless: nobody is between `shmget` and `shmat` with the
segment that is removed, and no segment is made under the key while the old semaphore
is still there.  Then the segment and the semaphore that a call holds belong together,
a semaphore above 0 means that the message is in its segment, and no `shmat` fails.

* `Fact.Holds.of_frame`: what a call knows of its own objects, stays true.
* `outline`: what each call knows, from step to step.
* `reads_complete`: what readers return, in every run whose steps are orderly.
-/

namespace NetworkAnalyse.Shm

open Lib

/-! ### The condition -/

/-- A segment is removed only when no call has looked it up and not yet attached it, and
made only when no semaphore is left under the key. -/
def Orderly : Op → State → Prop
  | .shmget _ key _, st => st.shm key = none → st.sem key = none
  | .shmRmid s, st => ∀ x ∈ st.looking, x.2 ≠ s
  | _, _ => True

instance (op : Op) (st : State) : Decidable (Orderly op st) :=
  match op with
  | .shmget _ _ _ => inferInstanceAs (Decidable (_ → _))
  | .shmRmid _ => inferInstanceAs (Decidable (∀ x ∈ st.looking, _))
  | .ftok _ _ | .semget _ | .setval _ _ | .semop _ _ _ | .shmat _ _ | .copyIn _ _ _ | .copyOut _ _
  | .shmdt _ _ | .semRmid _ => .isTrue trivial

/-! ### What a call knows -/

/-- What a call knows of the objects it uses, and of what is recorded about it. -/
inductive Fact
  | looking (s : ShmId)
  | paired (s : ShmId) (m : SemId)
  | full (s : ShmId)
  | got (s : ShmId)
  | gone (s : ShmId)
  | writing (s : ShmId)
  | signalled (m : SemId)
  deriving DecidableEq

namespace Fact

def Holds (c : Caller) (st : State) : Fact → Prop
  | looking s => (c, s) ∈ st.looking ∧ st.shm theKey = some s
  | paired s m => m < st.nextSem ∧ (st.sems m).segment = some s
  | full s => s < st.nextShm ∧ Full st s
  | got s => .copiedOut c (some s) message ∈ st.hist
  | gone s => s < st.nextShm ∧ st.shm theKey ≠ some s
  | writing s => (c, s) ∈ st.writing
  | signalled m => (c, m) ∈ st.signalled

/-- The call of `op` does not end the record that the fact is about. -/
def survives (c : Caller) (op : Op) : Fact → Bool
  | looking _ => !op.attaches c
  | writing _ => !op.signals c
  | signalled _ => !op.detaches c
  | _ => true

end Fact

/-- **What a call knows, stays true** whatever the others do, if they are orderly. -/
theorem Fact.Holds.of_frame {f : Fact} {c : Caller} {op : Op} {st st' : State}
    (h : f.Holds c st) (hg : Orderly op st) (hf : Frame op st st')
    (hop : ∀ c s b, op = .copyIn c (some s) b → b = message) (hsurv : f.survives c op) :
    f.Holds c st' := by
  cases f with
  | looking s =>
    obtain ⟨hmem, hshm⟩ := h
    refine ⟨(hf.looking _ hmem).resolve_right (by simpa [survives] using hsurv),
      (hf.shm hshm).resolve_right ?_⟩
    rintro rfl
    exact hg (c, s) hmem rfl
  | paired s m => exact ⟨Nat.lt_of_lt_of_le h.1 hf.nextSem, (hf.segment m h.1).trans h.2⟩
  | full s => exact ⟨Nat.lt_of_lt_of_le h.1 hf.nextShm, h.2.of_frame h.1 hf hop⟩
  | got s => exact hf.hist _ h
  | gone s =>
    refine ⟨Nat.lt_of_lt_of_le h.1 hf.nextShm, fun hshm => ?_⟩
    rcases hf.fresh hshm with hshm | rfl
    · exact h.2 hshm
    · exact Nat.lt_irrefl _ h.1
  | writing s => exact (hf.writing _ h).resolve_right (by simpa [survives] using hsurv)
  | signalled m => exact (hf.signalled _ h).resolve_right (by simpa [survives] using hsurv)

/-! ### The outline of the two functions -/

/-- What a call knows when it makes an IPC call. -/
def Can (c : Caller) : Op → List Fact → Prop
  | .ftok path projId, _ => path = tcpConnectShmkey ∧ projId = 65
  | .shmget c' key size, _ => c' = c ∧ key = theKey ∧ size = shmSize
  | .semget key, v => key = theKey ∧ ∃ s, .looking s ∈ v
  | .setval _ val, _ => val = 0
  | .semop c' m i, v => c' = c ∧
    ((i = -1 ∧ ∃ s, .looking s ∈ v ∧ .paired s m ∈ v) ∨
      (i = 1 ∧ ∃ s, .paired s m ∈ v ∧ .full s ∈ v ∧ .writing s ∈ v))
  | .shmat c' s, v => c' = c ∧ .looking s ∈ v
  | .copyIn c' str bytes, v => c' = c ∧ bytes = message ∧ ∃ s m, str = some s ∧ .paired s m ∈ v
  | .copyOut c' str, v => c' = c ∧ ∃ s, str = some s ∧ .full s ∈ v
  | .shmdt c' str, v => c' = c ∧ (∃ s, str = some s) ∧ (c.fn = .write → ∃ m, .signalled m ∈ v)
  | .shmRmid s, v => ∃ m, .paired s m ∈ v
  | .semRmid m, v => ∃ s, .paired s m ∈ v ∧ .gone s ∈ v

/-- What the answer is, and what the call knows besides when it has it. -/
def Learns : (op : Op) → List Fact → op.Res → List Fact → Prop
  | .ftok path projId, _, key, new => key = ⟨path, projId⟩ ∧ new = []
  | .shmget _ _ _, _, s, new => new = [.looking s]
  | .semget _, v, m, new => ∃ s, .looking s ∈ v ∧ new = [.paired s m]
  | .setval _ _, _, _, new => new = []
  | .semop _ m i, v, _, new =>
    (i = -1 ∧ ∃ s, .paired s m ∈ v ∧ new = [.full s]) ∨ (i = 1 ∧ new = [.signalled m])
  | .shmat c s, _, str, new => str = some s ∧ new = if c.fn = .write then [.writing s] else []
  | .copyIn _ str _, _, ok, new => ok = true ∧ ∃ s, str = some s ∧ new = [.full s]
  | .copyOut _ str, _, ret, new => ret = some message ∧ ∃ s, str = some s ∧ new = [.got s]
  | .shmdt _ _, _, _, new => new = []
  | .shmRmid s, _, _, new => new = [.gone s]
  | .semRmid _, _, _, new => new = []

def Next (c : Caller) (op : Op) (v : List Fact) (r : op.Res) (v' : List Fact) : Prop :=
  ∃ new, Learns op v r new ∧ v' = new ++ v.filter (·.survives c op)

/-- How the two functions end. -/
def Done (_ : Trace Op Op.Res) (a : Outcome) (v : List Fact) : Prop :=
  a ≠ .segfault ∧ ∀ ret, a = .read ret → ret = message ∧ ∃ s, .got s ∈ v

section Steps

variable {c : Caller} {op : Op} {v : List Fact} {st st' : State} {r : op.Res}

/-- A call ends only its own records. -/
theorem survives_of_ne {c' : Caller} {f : Fact} (h : Can c op v) (hne : c' ≠ c) :
    f.survives c' op = true := by
  cases f <;> cases op <;> try rfl
  all_goals
    obtain rfl := h.1
    simpa [Fact.survives, Op.attaches, Op.signals, Op.detaches] using hne.symm

theorem Can.copyIn_eq (h : Can c op v) : ∀ c' s b, op = .copyIn c' (some s) b → b = message := by
  rintro c' s b rfl
  exact h.2.1

/-- A semaphore that a waiting reader holds is not removed. -/
theorem Sound.not_removed (h : Sound st) {s : ShmId} {m : SemId} (hs : Fact.Holds c st (.looking s))
    (hp : Fact.Holds c st (.paired s m)) : (st.sems m).removed = false := by
  by_contra hr
  rw [Bool.not_eq_false] at hr
  exact h.past hp.1 hr hp.2 hs.2

theorem sound_of_exec (hs : Sound st) (hv : ∀ f ∈ v, f.Holds c st) (hcan : Can c op v)
    (hg : Orderly op st) (h : exec op st = some (r, st')) : Sound st' := by
  cases op with
  | ftok path projId =>
    cases h
    exact hs
  | shmget c' key size =>
    obtain ⟨rfl, rfl, rfl⟩ := hcan
    obtain rfl := congrArg Prod.snd (Option.some.inj h)
    exact hs.shmget hg
  | semget key =>
    obtain ⟨rfl, s, hlook⟩ := hcan
    obtain rfl := congrArg Prod.snd (Option.some.inj h)
    exact hs.semget (hv _ hlook).2
  | setval m val =>
    obtain rfl := hcan
    simp only [exec] at h
    split at h
    · cases h
      exact hs
    · cases h
      exact hs.setSem rfl rfl fun hpos => absurd hpos (Nat.lt_irrefl 0)
  | semop c' m i =>
    obtain ⟨rfl, hi⟩ := hcan
    refine hs.semop (fun hpos hm s hseg => ?_) h
    rcases hi with ⟨rfl, -⟩ | ⟨-, s', hpair, hfull, -⟩
    · exact absurd hpos (by decide)
    · obtain rfl := Option.some.inj ((hv _ hpair).2.symm.trans hseg)
      exact (hv _ hfull).2
  | shmat c' s =>
    obtain rfl := congrArg Prod.snd (Option.some.inj h)
    exact hs.shmat c' s
  | copyIn c' str bytes =>
    obtain ⟨rfl, rfl, s, m, rfl, hpair⟩ := hcan
    obtain rfl := congrArg Prod.snd (Option.some.inj h)
    exact hs.copyIn c' s
  | copyOut c' str =>
    obtain ⟨rfl, s, rfl, hfull⟩ := hcan
    obtain rfl := congrArg Prod.snd (Option.some.inj h)
    have hfull := (hv _ hfull).2
    exact hs.note ⟨s, rfl, hfull.text.string_eq, hfull.copied⟩
  | shmdt c' str =>
    obtain ⟨rfl, ⟨s, rfl⟩, -⟩ := hcan
    obtain rfl := congrArg Prod.snd (Option.some.inj h)
    exact hs.shmdt c' s
  | shmRmid s =>
    simp only [exec] at h
    split at h
    · cases h
      exact hs
    · cases h
      exact hs.shmRmid s
  | semRmid m =>
    obtain ⟨s, hpair, hgone⟩ := hcan
    simp only [exec] at h
    split at h
    · cases h
      exact hs
    · cases h
      rename_i hr
      exact hs.semRmid (hv _ hpair).1 (hv _ hpair).2 (hv _ hgone).2 (Bool.eq_false_iff.mpr hr)

theorem Sound.lt_nextShm (h : Sound st) {s : ShmId} {m : SemId}
    (hp : Fact.Holds c st (.paired s m)) : s < st.nextShm := by
  obtain ⟨s', hlt, hs'⟩ := h.made hp.1
  obtain rfl := Option.some.inj (hp.2.symm.trans hs')
  exact hlt

/-- A wait that is not cut short by a removal finds the semaphore above 0. -/
theorem value_pos_of_wait {m : SemId} {n : Int} (hr : (st.sems m).removed = false)
    (h : st.semop c m (-1) = some (n, st')) : 0 < (st.sems m).value := by
  simp only [State.semop, hr, Bool.false_eq_true, if_false] at h
  split at h
  · cases h
  · omega

theorem mem_signalled_of_signal {m : SemId} {n : Int} (h : st.semop c m 1 = some (n, st')) :
    (c, m) ∈ st'.signalled := by
  have hpass : (c, m) ∈ (st.pass c m 1).signalled := List.mem_cons_self
  rcases State.semop_cases h with rfl | rfl
  · exact hpass
  · exact hpass

theorem looking_of_shmget {size : Nat} :
    Fact.Holds c (st.shmget c theKey size).2 (.looking (st.shmget c theKey size).1) := by
  rw [State.shmget]
  split
  · next hshm => exact ⟨List.mem_cons_self, hshm⟩
  · exact ⟨List.mem_cons_self, Function.update_self theKey (some st.nextShm) st.shm⟩

theorem Sound.paired_of_semget (hs : Sound st) {s : ShmId} (hshm : st.shm theKey = some s) :
    Fact.Holds c (st.semget theKey).2 (.paired s (st.semget theKey).1) := by
  rw [State.semget]
  split
  · next hsem => exact ⟨(hs.live hsem).1, hs.pair hshm hsem⟩
  · refine ⟨Nat.lt_succ_self _, ?_⟩
    simp only [Function.update_self, hshm]

/-- A reader whose wait is over knows that the message is there. -/
theorem Sound.full_of_wait (hs : Sound st) {s : ShmId} {m : SemId} {n : Int}
    (hlook : Fact.Holds c st (.looking s)) (hpair : Fact.Holds c st (.paired s m))
    (h : st.semop c m (-1) = some (n, st')) : Fact.Holds c st' (.full s) := by
  have hframe := frame_semop h
  have hlt := hs.lt_nextShm hpair
  have hpos := value_pos_of_wait (hs.not_removed hlook hpair) h
  have hfull := hs.value hpair.1 hpos hpair.2
  exact ⟨Nat.lt_of_lt_of_le hlt hframe.nextShm, hfull.of_frame hlt hframe nofun⟩

/-- The segment that a call has looked up is still there. -/
theorem Sound.shmat_eq (hs : Sound st) {s : ShmId} (hlook : Fact.Holds c st (.looking s)) :
    (st.shmat c s).1 = some s ∧ (c.fn = .write → Fact.Holds c (st.shmat c s).2 (.writing s)) := by
  have hthere : (st.segs s).destroyed = false := by
    rw [Segment.destroyed, (hs.found hlook.2).2]
    rfl
  simp only [State.shmat, hthere]
  refine ⟨rfl, fun hfn => ?_⟩
  show (c, s) ∈ if c.fn = .write then (c, s) :: st.writing else st.writing
  rw [if_pos hfn]
  exact List.mem_cons_self

theorem Sound.full_of_copyIn (hs : Sound st) {s : ShmId} {m : SemId}
    (hpair : Fact.Holds c st (.paired s m)) {r : Bool}
    (h : exec (.copyIn c (some s) message) st = some (r, st')) : Fact.Holds c st' (.full s) := by
  have hframe := frame_of_exec h
  have hlt := hs.lt_nextShm hpair
  refine ⟨Nat.lt_of_lt_of_le hlt hframe.nextShm, ?_, c, ?_⟩
  · rw [hframe.data s hlt, Op.written, if_pos rfl]
    refine DataSection.stringAt_write zero_not_mem_message ?_
    rw [hs.size hlt]
    decide
  · obtain rfl := congrArg Prod.snd (Option.some.inj h)
    exact List.mem_append_right _ (List.mem_singleton_self _)

theorem Sound.gone_of_shmRmid (hs : Sound st) {s : ShmId} {m : SemId}
    (hpair : Fact.Holds c st (.paired s m)) {r : Int} (h : exec (.shmRmid s) st = some (r, st')) :
    Fact.Holds c st' (.gone s) := by
  refine ⟨Nat.lt_of_lt_of_le (hs.lt_nextShm hpair) (frame_of_exec h).nextShm, ?_⟩
  simp only [exec] at h
  split at h
  · next hgone =>
    cases h
    intro hshm
    rw [Segment.destroyed, (hs.found hshm).2] at hgone
    cases hgone
  · cases h
    simp only [State.shmRmid]
    split
    · exact (Option.some_ne_none s).symm
    · assumption

theorem holds_singleton {f : Fact} (h : f.Holds c st) : ∀ g ∈ [f], Fact.Holds c st g := by
  intro g hg
  rwa [List.mem_singleton.mp hg]

/-- What a call learns is true. -/
theorem learns_of_exec (hs : Sound st) (hv : ∀ f ∈ v, f.Holds c st) (hcan : Can c op v)
    (h : exec op st = some (r, st')) : ∃ new, Learns op v r new ∧ ∀ f ∈ new, f.Holds c st' := by
  cases op with
  | ftok path projId =>
    cases h
    exact ⟨[], ⟨rfl, rfl⟩, nofun⟩
  | shmget c' key size =>
    obtain ⟨rfl, rfl, rfl⟩ := hcan
    obtain rfl := congrArg Prod.fst (Option.some.inj h)
    obtain rfl := congrArg Prod.snd (Option.some.inj h)
    exact ⟨_, rfl, holds_singleton looking_of_shmget⟩
  | semget key =>
    obtain ⟨rfl, s, hlook⟩ := hcan
    obtain rfl := congrArg Prod.fst (Option.some.inj h)
    obtain rfl := congrArg Prod.snd (Option.some.inj h)
    exact ⟨_, ⟨s, hlook, rfl⟩, holds_singleton (hs.paired_of_semget (hv _ hlook).2)⟩
  | setval m val => exact ⟨[], rfl, nofun⟩
  | semop c' m i =>
    obtain ⟨rfl, ⟨rfl, s, hlook, hpair⟩ | ⟨rfl, -⟩⟩ := hcan
    · refine ⟨_, Or.inl ⟨rfl, s, hpair, rfl⟩, holds_singleton ?_⟩
      exact hs.full_of_wait (hv _ hlook) (hv _ hpair) h
    · exact ⟨_, Or.inr ⟨rfl, rfl⟩, holds_singleton (mem_signalled_of_signal h)⟩
  | shmat c' s =>
    obtain ⟨rfl, hlook⟩ := hcan
    obtain ⟨hstr, hwriting⟩ := hs.shmat_eq (hv _ hlook)
    obtain rfl := congrArg Prod.fst (Option.some.inj h)
    obtain rfl := congrArg Prod.snd (Option.some.inj h)
    refine ⟨_, ⟨hstr, rfl⟩, fun f hf => ?_⟩
    split at hf
    · next hfn => exact holds_singleton (hwriting hfn) f hf
    · cases hf
  | copyIn c' str bytes =>
    obtain ⟨rfl, rfl, s, m, rfl, hpair⟩ := hcan
    refine ⟨_, ⟨congrArg Prod.fst (Option.some.inj h).symm, s, rfl, rfl⟩, ?_⟩
    exact holds_singleton (hs.full_of_copyIn (hv _ hpair) h)
  | copyOut c' str =>
    obtain ⟨rfl, s, rfl, hfull⟩ := hcan
    have htext := (hv _ hfull).2.text.string_eq
    simp only [exec, htext] at h
    cases h
    refine ⟨_, ⟨rfl, s, rfl, rfl⟩, holds_singleton ?_⟩
    exact List.mem_append_right _ (List.mem_singleton_self _)
  | shmdt c' str => exact ⟨[], rfl, nofun⟩
  | shmRmid s =>
    obtain ⟨m, hpair⟩ := hcan
    exact ⟨_, rfl, holds_singleton (hs.gone_of_shmRmid (hv _ hpair) h)⟩
  | semRmid m => exact ⟨[], rfl, nofun⟩

end Steps

theorem ok_call {c : Caller} {op : Op} {k : op.Res → M Outcome} {tr : Trace Op Op.Res}
    {v : List Fact} (hcan : Can c op v)
    (h : ∀ r new, Learns op v r new → (k r).Ok (Can c) (Next c) Done (tr ++ [⟨op, r⟩])
      (new ++ v.filter (·.survives c op))) :
    (Prog.call op k).Ok (Can c) (Next c) Done tr v := by
  refine Prog.ok_call.mpr ⟨hcan, fun r v' hnext => ?_⟩
  obtain ⟨new, hlearns, rfl⟩ := hnext
  exact h r new hlearns

theorem read_ok (c : Caller) (hc : c.fn = .read) :
    (tcpConnectShmRead c).Ok (Can c) (Next c) Done [] [] := by
  refine ok_call ⟨rfl, rfl⟩ ?_
  rintro key _ ⟨rfl, rfl⟩
  refine ok_call ⟨rfl, rfl, rfl⟩ ?_
  rintro s _ rfl
  refine ok_call ⟨rfl, s, by simp⟩ ?_
  rintro m _ ⟨s', hs', rfl⟩
  obtain rfl : s' = s := by simpa using hs'
  refine ok_call ⟨rfl, Or.inl ⟨rfl, s', by simp [Fact.survives, Op.attaches], by simp⟩⟩ ?_
  rintro _ _ (⟨-, s, hs, rfl⟩ | ⟨hi, -⟩)
  · obtain rfl : s = s' := by simpa [Fact.survives] using hs
    refine ok_call ⟨rfl, by simp [Fact.survives, Op.attaches]⟩ ?_
    rintro _ _ ⟨rfl, rfl⟩
    refine ok_call ⟨rfl, s, rfl, by simp [Fact.survives]⟩ ?_
    rintro _ _ ⟨rfl, s', hs', rfl⟩
    obtain rfl := Option.some.inj hs'
    refine ok_call ⟨rfl, ⟨s, rfl⟩, fun hw => absurd (hc.symm.trans hw) (by decide)⟩ ?_
    rintro _ _ rfl
    refine ok_call ⟨m, by simp [Fact.survives]⟩ ?_
    rintro _ _ rfl
    refine ok_call ⟨s, by simp [Fact.survives], by simp⟩ ?_
    rintro _ _ rfl
    refine Prog.ok_ret.mpr ⟨nofun, ?_⟩
    rintro _ ⟨⟩
    exact ⟨rfl, s, by simp [Fact.survives]⟩
  · cases hi

theorem write_ok (c : Caller) (hc : c.fn = .write) :
    (tcpConnectShmWrite c).Ok (Can c) (Next c) Done [] [] := by
  refine ok_call ⟨rfl, rfl⟩ ?_
  rintro key _ ⟨rfl, rfl⟩
  refine ok_call ⟨rfl, rfl, rfl⟩ ?_
  rintro s _ rfl
  refine ok_call ⟨rfl, s, by simp⟩ ?_
  rintro m _ ⟨s', hs', rfl⟩
  obtain rfl : s' = s := by simpa using hs'
  refine ok_call rfl ?_
  rintro _ _ rfl
  refine ok_call ⟨rfl, by simp [Fact.survives, Op.attaches]⟩ ?_
  rintro _ _ ⟨rfl, rfl⟩
  refine ok_call ⟨rfl, rfl, s', m, rfl, by simp [Fact.survives]⟩ ?_
  rintro _ _ ⟨rfl, s, hs, rfl⟩
  obtain rfl := Option.some.inj hs
  refine ok_call ⟨rfl, Or.inr ⟨rfl, s', by simp [Fact.survives], by simp,
    by simp [Fact.survives, Op.signals, hc]⟩⟩ ?_
  rintro _ _ (⟨hi, -⟩ | ⟨-, rfl⟩)
  · cases hi
  · refine ok_call ⟨rfl, ⟨s', rfl⟩, fun _ => ⟨m, by simp⟩⟩ ?_
    rintro _ _ rfl
    exact Prog.ok_ret.mpr ⟨nofun, nofun⟩

theorem body_ok (c : Caller) : (body c).Ok (Can c) (Next c) Done [] [] := by
  rw [body]
  split
  · exact read_ok c ‹_›
  · exact write_ok c ‹_›

/-- The objects are sound, the call knows what it knows, and its earlier calls have read
the message. -/
structure View (c : Caller) (st : State) (L : List (Entry Op Op.Res Caller Outcome))
    (v : List Fact) : Prop where
  sound : Sound st
  facts : ∀ f ∈ v, f.Holds c st
  log : ∀ e ∈ L, e.tag = c → e.result ≠ .segfault ∧ ∀ ret, e.result = .read ret →
    ret = message ∧ ∃ s, Fact.Holds c st (.got s)

theorem View.step {c : Caller} {op : Op} {st st' : State} {r : op.Res}
    {L : List (Entry Op Op.Res Caller Outcome)} {v v' : List Fact} (h : View c st L v)
    (hsound : Sound st') (hexec : exec op st = some (r, st'))
    (hfacts : ∀ f ∈ v', f.Holds c st') : View c st' L v' := by
  refine ⟨hsound, hfacts, fun e he htag => ?_⟩
  obtain ⟨hne, hread⟩ := h.log e he htag
  refine ⟨hne, fun ret hret => ?_⟩
  obtain ⟨hmsg, s, hs⟩ := hread ret hret
  exact ⟨hmsg, s, (frame_of_exec hexec).hist _ hs⟩

/-- The outline, under any condition that makes the calls orderly. -/
def outline (g : Op → State → Prop) [∀ op st, Decidable (g op st)]
    (hg : ∀ {op st}, g op st → Orderly op st) : Outline (channel.guard g) (List Fact) where
  View := View
  Idle _ v := v = []
  Can := Can
  Next := Next
  Done _ _ := Done
  spawn := by
    rintro c v rfl
    exact body_ok c
  own := by
    intro c st L v _ op r st' hv hcan hexec
    obtain ⟨hgo, hexec⟩ := System.exec_guard_iff.mp hexec
    obtain ⟨new, hlearns, hnew⟩ := learns_of_exec hv.sound hv.facts hcan hexec
    refine ⟨_, ⟨new, hlearns, rfl⟩, ?_⟩
    refine hv.step (sound_of_exec hv.sound hv.facts hcan (hg hgo) hexec) hexec fun f hf => ?_
    rcases List.mem_append.mp hf with hf | hf
    · exact hnew f hf
    · obtain ⟨hf, hsurv⟩ := List.mem_filter.mp hf
      exact (hv.facts f hf).of_frame (hg hgo) (frame_of_exec hexec) hcan.copyIn_eq hsurv
  other := by
    intro c c' st L v w _ op r st' hne hv hcan hexec hw
    obtain ⟨hgo, hexec⟩ := System.exec_guard_iff.mp hexec
    refine hw.step (sound_of_exec hv.sound hv.facts hcan (hg hgo) hexec) hexec fun f hf => ?_
    refine (hw.facts f hf).of_frame (hg hgo) (frame_of_exec hexec) hcan.copyIn_eq ?_
    exact survives_of_ne hcan hne
  env := by
    intro c e
    exact nomatch e
  finish := by
    intro c tr a st L v hv hdone
    refine ⟨[], rfl, hv.sound, (fun f hf => nomatch hf), fun e he htag => ?_⟩
    rcases List.mem_append.mp he with he | he
    · exact hv.log e he htag
    · rw [List.mem_singleton.mp he]
      refine ⟨hdone.1, fun ret hret => ?_⟩
      obtain ⟨hmsg, s, hs⟩ := hdone.2 ret hret
      exact ⟨hmsg, s, hv.facts _ hs⟩
  finish_other := by
    intro c c' tr a st L v hne hv
    refine ⟨hv.sound, hv.facts, fun e he htag => ?_⟩
    rcases List.mem_append.mp he with he | he
    · exact hv.log e he htag
    · rw [List.mem_singleton.mp he] at htag
      exact absurd htag.symm hne

theorem outline_boot (c : Caller) : View c .boot [] [] :=
  ⟨sound_boot, (fun _ hf => nomatch hf), fun _ he => nomatch he⟩

/-! ### What readers return -/

/-- **What readers return**, and what calls copy.  In every state that a run reaches whose
steps are all orderly, every `tcp_connect_shm_read` that has returned has returned the
message, from a segment into which a writer had copied it before; and no call has copied
to or from a segment that it had failed to attach. -/
theorem reads_complete {acts : List (Act Caller Unit Empty Caller)}
    {c : Config Caller Op Op.Res State Caller Outcome}
    (h : channel.run (channel.init .boot) acts = some c)
    (hk : channel.Keeps Orderly (channel.init .boot) acts) :
    (∀ e ∈ c.log, e.result ≠ .segfault ∧ ∀ ret, e.result = .read ret → ret = message ∧
      ∃ pre post s, c.shared.hist = pre ++ .copiedOut e.tag (some s) ret :: post ∧
        ∃ w, .copiedIn w (some s) ∈ pre) ∧
    (∀ w, .copiedIn w none ∉ c.shared.hist) ∧ ∀ r ret, .copiedOut r none ret ∉ c.shared.hist := by
  have hrun := System.run_guard_iff.mpr ⟨h, hk⟩
  have hholds := (outline Orderly id).holds_run (fun c => ⟨[], outline_boot c, rfl⟩) hrun
  have hfair : Fair c.shared.hist := by
    obtain ⟨v, hv, -⟩ := hholds ⟨.read, 0⟩
    exact hv.sound.fair
  refine ⟨fun e he => ?_, fun w hw => ?_, fun r ret hr => ?_⟩
  · obtain ⟨v, hv, -⟩ := hholds e.tag
    obtain ⟨hne, hread⟩ := hv.log e he rfl
    refine ⟨hne, fun ret hret => ?_⟩
    obtain ⟨rfl, s, hs⟩ := hread ret hret
    obtain ⟨pre, post, heq⟩ := List.append_of_mem hs
    obtain ⟨s', hs', -, hw⟩ := hfair pre _ post heq
    obtain rfl := Option.some.inj hs'
    exact ⟨rfl, pre, post, s, heq, hw⟩
  · obtain ⟨pre, post, heq⟩ := List.append_of_mem hw
    exact hfair pre _ post heq rfl
  · obtain ⟨pre, post, heq⟩ := List.append_of_mem hr
    obtain ⟨s, hs, -⟩ := hfair pre _ post heq
    cases hs

/-- `n` steps of a call. -/
def steps (c : Caller) (n : Nat) : List (Act Caller Unit Empty Caller) :=
  List.replicate n (.step c ())

def exampleReader : Caller := ⟨.read, 1⟩
def exampleWriter : Caller := ⟨.write, 0⟩

/-- A write, and then a read. -/
def exampleActs : List (Act Caller Unit Empty Caller) :=
  .spawn exampleWriter :: steps exampleWriter 8 ++ .spawn exampleReader :: steps exampleReader 9

theorem reads_complete_example :
    ∃ c, channel.run (channel.init .boot) exampleActs = some c ∧
      channel.Keeps Orderly (channel.init .boot) exampleActs ∧
      (∃ e ∈ c.log, e.result = .read message) ∧ ∀ w, .copiedIn w none ∉ c.shared.hist := by
  have hlog : ((channel.guard Orderly).run (channel.init .boot) exampleActs).map
      (fun c => c.log.map (·.result)) = some [.wrote, .read message] := by
    decide +kernel
  obtain ⟨c, hrun, hlog⟩ := Option.map_eq_some_iff.mp hlog
  obtain ⟨h, hk⟩ := System.run_guard_iff.mp hrun
  refine ⟨c, h, hk, ?_, (reads_complete h hk).2.1⟩
  have hmem : Outcome.read message ∈ c.log.map (·.result) := by
    rw [hlog]
    simp
  exact List.mem_map.mp hmem

/-- Two readers wait for one message.  The first one removes the segment and the
semaphore; the second one's `semop` and `shmat` fail, and it copies all the same. -/
def twoReaders : List (Act Caller Unit Empty Caller) :=
  .spawn ⟨.read, 1⟩ :: steps ⟨.read, 1⟩ 3 ++ .spawn ⟨.read, 2⟩ :: steps ⟨.read, 2⟩ 3 ++
    .spawn exampleWriter :: steps exampleWriter 8 ++ steps ⟨.read, 1⟩ 6 ++ steps ⟨.read, 2⟩ 3

/-- **Two readers and a writer.** -/
theorem reader_copies_unattached :
    ∃ c, channel.run (channel.init .boot) twoReaders = some c ∧
      .copiedOut ⟨.read, 2⟩ none [] ∈ c.shared.hist := by
  have hhist : (channel.run (channel.init .boot) twoReaders).map
      (fun c => decide (.copiedOut ⟨.read, 2⟩ none [] ∈ c.shared.hist)) = some true := by
    decide +kernel
  obtain ⟨c, hrun, hmem⟩ := Option.map_eq_some_iff.mp hhist
  exact ⟨c, hrun, of_decide_eq_true hmem⟩

end NetworkAnalyse.Shm
