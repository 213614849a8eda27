import NetworkAnalyse.Shm.Channel

/-!
# What an IPC call leaves alone

`Frame` says for each call what it does not change: the records of other callers, the
objects made before, the keys and the bytes of the segments, with the exceptions that
the call itself names.  There is one lemma for each call that changes something, and
`frame_of_exec` is all of them.
-/

namespace NetworkAnalyse.Shm

open Lib

/-! ### The exceptions -/

/-- The call ends `c`'s entry in `State.looking`. -/
def Op.attaches (c : Caller) : Op → Bool
  | .shmat c' _ => c' = c
  | _ => false

/-- The call ends `c`'s entry in `State.writing`. -/
def Op.signals (c : Caller) : Op → Bool
  | .semop c' _ _ => c' = c
  | _ => false

/-- The call ends `c`'s entry in `State.signalled`. -/
def Op.detaches (c : Caller) : Op → Bool
  | .shmdt c' _ => c' = c
  | _ => false

/-- The call can lower the value of a semaphore. -/
def Op.Lowers (m : SemId) : Op → Prop
  | .setval m' _ => m' = m
  | .semop _ m' semOp => m' = m ∧ semOp < 0
  | _ => False

/-- What becomes of the bytes of the segment `s`. -/
def Op.written (s : ShmId) (d : DataSection) : Op → DataSection
  | .copyIn _ (some s') b => if s' = s then d.write 0 (b ++ [0]) else d
  | _ => d

structure Frame (op : Op) (st st' : State) : Prop where
  hist : ∀ e ∈ st.hist, e ∈ st'.hist
  nextShm : st.nextShm ≤ st'.nextShm
  nextSem : st.nextSem ≤ st'.nextSem
  segment : ∀ m < st.nextSem, (st'.sems m).segment = (st.sems m).segment
  value : ∀ m < st.nextSem, (st.sems m).value ≤ (st'.sems m).value ∨ op.Lowers m
  shm : ∀ {key s}, st.shm key = some s → st'.shm key = some s ∨ op = .shmRmid s
  sem : ∀ {key m}, st.sem key = some m → st'.sem key = some m ∨ op = .semRmid m
  fresh : ∀ {key s}, st'.shm key = some s → st.shm key = some s ∨ s = st.nextShm
  data : ∀ s < st.nextShm, (st'.segs s).data = op.written s (st.segs s).data
  looking : ∀ x ∈ st.looking, x ∈ st'.looking ∨ op.attaches x.1
  writing : ∀ x ∈ st.writing, x ∈ st'.writing ∨ op.signals x.1
  signalled : ∀ x ∈ st.signalled, x ∈ st'.signalled ∨ op.detaches x.1

section Frame

variable {op : Op} {st st' : State} {c : Caller}

theorem frame_of_data {segs : ShmId → Segment}
    (hd : ∀ s < st.nextShm, (segs s).data = op.written s (st.segs s).data) :
    Frame op st { st with segs := segs } where
  hist _ h := h
  nextShm := Nat.le_refl _
  nextSem := Nat.le_refl _
  segment _ _ := rfl
  value _ _ := .inl (Nat.le_refl _)
  shm h := .inl h
  sem h := .inl h
  fresh h := .inl h
  data := hd
  looking _ h := .inl h
  writing _ h := .inl h
  signalled _ h := .inl h

/-- Where nothing changes at all; the other cases say what they change. -/
theorem frame_refl (hw : ∀ s d, op.written s d = d) : Frame op st st :=
  frame_of_data fun s _ => (hw s _).symm

theorem mem_note {e e' : Event} (h : e ∈ st.hist) : e ∈ (st.note e').hist :=
  List.mem_append_left _ h

/-- An entry that goes is the caller's own. -/
theorem mem_filter_or {α : Type} {l : List (Caller × α)} {x : Caller × α} (h : x ∈ l) :
    x ∈ l.filter (·.1 ≠ c) ∨ decide (c = x.1) = true := by
  by_cases hx : c = x.1
  · exact .inr (decide_eq_true hx)
  · exact .inl (List.mem_filter.mpr ⟨h, decide_eq_true (Ne.symm hx)⟩)

theorem data_update {segs : ShmId → Segment} {s : ShmId} {g : Segment}
    (hg : g.data = (segs s).data) (s' : ShmId) :
    (Function.update segs s g s').data = (segs s').data := by
  rw [Function.update_apply]
  split
  · next hs => rw [hs, hg]
  · rfl

theorem segment_update {sems : SemId → Sem} {m : SemId} {e : Sem}
    (he : e.segment = (sems m).segment) (m' : SemId) :
    (Function.update sems m e m').segment = (sems m').segment := by
  rw [Function.update_apply]
  split
  · next hm => rw [hm, he]
  · rfl

theorem value_update {sems : SemId → Sem} {m : SemId} {e : Sem}
    (he : (sems m).value ≤ e.value ∨ op.Lowers m) (m' : SemId) :
    (sems m').value ≤ (Function.update sems m e m').value ∨ op.Lowers m' := by
  rw [Function.update_apply]
  split
  · next hm => rwa [hm]
  · exact .inl (Nat.le_refl _)

theorem frame_pass {m : SemId} {i : Int} : Frame (.semop c m i) st (st.pass c m i) := by
  rw [State.pass]
  split
  · exact { frame_refl fun _ _ => rfl with hist := fun _ h => mem_note h }
  · exact { frame_refl fun _ _ => rfl with
      writing := fun _ h => mem_filter_or h
      signalled := fun _ h => .inl (List.mem_cons_of_mem _ h) }

theorem frame_semop {m : SemId} {i n : Int} (h : st.semop c m i = some (n, st')) :
    Frame (.semop c m i) st st' := by
  rcases State.semop_cases h with rfl | rfl
  · exact frame_pass
  · refine { frame_pass with segment := fun m' _ => ?_, value := fun m' _ => ?_ }
    · show (Function.update (st.pass c m i).sems m _ m').segment = _
      rw [State.sems_pass]
      exact segment_update (by rfl) m'
    · show _ ≤ (Function.update (st.pass c m i).sems m _ m').value ∨ _
      rw [State.sems_pass]
      refine value_update ?_ m'
      by_cases hi : i < 0
      · exact .inr ⟨rfl, hi⟩
      · left
        show _ ≤ Int.toNat _
        omega

theorem frame_shmget {key : Key} {size : Nat} :
    Frame (.shmget c key size) st (st.shmget c key size).2 := by
  rw [State.shmget]
  cases hkey : st.shm key with
  | some s =>
    exact { frame_refl fun _ _ => rfl with looking := fun _ h => .inl (List.mem_cons_of_mem _ h) }
  | none =>
    refine { frame_refl fun _ _ => rfl with
      nextShm := Nat.le_succ _
      shm := fun {k s} h => .inl ?_
      fresh := fun {k s} h => ?_
      data := fun s hs => ?_
      looking := fun _ h => .inl (List.mem_cons_of_mem _ h) }
    · have hk : k ≠ key := fun hk => by simp [← hk, h] at hkey
      exact (Function.update_of_ne hk _ _).trans h
    · by_cases hk : k = key
      · subst hk
        have hs : some st.nextShm = some s := (Function.update_self k _ st.shm).symm.trans h
        exact .inr (Option.some.inj hs).symm
      · exact .inl ((Function.update_of_ne hk _ _).symm.trans h)
    · exact congrArg Segment.data (Function.update_of_ne (Nat.ne_of_lt hs) _ _)

theorem frame_semget {key : Key} : Frame (.semget key) st (st.semget key).2 := by
  rw [State.semget]
  cases hkey : st.sem key with
  | some m => exact frame_refl fun _ _ => rfl
  | none =>
    have hold : ∀ m < st.nextSem, Function.update st.sems st.nextSem { segment := st.shm key } m =
        st.sems m := fun m hm => Function.update_of_ne (Nat.ne_of_lt hm) _ _
    refine { frame_refl fun _ _ => rfl with
      nextSem := Nat.le_succ _
      segment := fun m hm => congrArg Sem.segment (hold m hm)
      value := fun m hm => .inl (Nat.le_of_eq (congrArg Sem.value (hold m hm)).symm)
      sem := fun {k m} h => .inl ?_ }
    have hk : k ≠ key := fun hk => by simp [← hk, h] at hkey
    exact (Function.update_of_ne hk _ _).trans h

theorem frame_shmat {s : ShmId} : Frame (.shmat c s) st (st.shmat c s).2 := by
  rw [State.shmat]
  split
  · exact { frame_refl fun _ _ => rfl with looking := fun _ h => mem_filter_or h }
  · refine { frame_refl fun _ _ => rfl with
      data := fun s' _ => data_update (by rfl) s'
      looking := fun _ h => mem_filter_or h
      writing := fun x h => .inl ?_ }
    show x ∈ if _ then _ else _
    split
    · exact List.mem_cons_of_mem _ h
    · exact h

theorem frame_shmdt {s : ShmId} : Frame (.shmdt c (some s)) st (st.shmdt c s) := by
  rw [State.shmdt]
  split
  · exact { frame_refl fun _ _ => rfl with data := fun s' _ => data_update (by rfl) s' }
  · exact { frame_refl fun _ _ => rfl with
      hist := fun _ h => mem_note h
      data := fun s' _ => data_update (by rfl) s'
      signalled := fun _ h => mem_filter_or h }

theorem frame_shmRmid {s : ShmId} : Frame (.shmRmid s) st (st.shmRmid s) := by
  refine { frame_refl fun _ _ => rfl with
    shm := fun {k s'} h => ?_
    fresh := fun {k s'} h => .inl ?_
    data := fun s' _ => data_update (by rfl) s' }
  · by_cases hs : s' = s
    · exact .inr (by rw [hs])
    · left
      show (if st.shm k = some s then none else st.shm k) = some s'
      rw [if_neg (by simp [h, hs]), h]
  · change (if st.shm k = some s then none else st.shm k) = some s' at h
    split at h
    · cases h
    · exact h

theorem frame_semRmid {m : SemId} : Frame (.semRmid m) st (st.semRmid m) := by
  refine { frame_refl fun _ _ => rfl with
    segment := fun m' _ => segment_update (by rfl) m'
    value := fun m' _ => value_update (.inl (by exact Nat.le_refl _)) m'
    sem := fun {k m'} h => ?_ }
  by_cases hm : m' = m
  · exact .inr (by rw [hm])
  · left
    show (if st.sem k = some m then none else st.sem k) = some m'
    rw [if_neg (by simp [h, hm]), h]

theorem frame_copyIn {s : ShmId} {b : List UInt8} :
    Frame (.copyIn c (some s) b) st
      ((st.setSeg s { st.segs s with data := (st.segs s).data.write 0 (b ++ [0]) }).note
        (.copiedIn c (some s))) := by
  refine { frame_of_data fun s' _ => ?_ with hist := fun _ h => mem_note h }
  show (Function.update st.segs s _ s').data = if s = s' then _ else _
  rw [Function.update_apply]
  split
  · next hs =>
    subst hs
    exact (if_pos rfl).symm
  · next hs => exact (if_neg (Ne.symm hs)).symm

theorem frame_of_exec {r : op.Res} (h : exec op st = some (r, st')) : Frame op st st' := by
  cases op with
  | ftok path projId =>
    cases h
    exact frame_refl fun _ _ => rfl
  | shmget c key size =>
    obtain rfl := congrArg Prod.snd (Option.some.inj h)
    exact frame_shmget
  | semget key =>
    obtain rfl := congrArg Prod.snd (Option.some.inj h)
    exact frame_semget
  | setval m val =>
    simp only [exec] at h
    split at h
    · cases h
      exact frame_refl fun _ _ => rfl
    · cases h
      exact { frame_refl fun _ _ => rfl with
        segment := fun m' _ => segment_update (by rfl) m'
        value := fun m' _ => value_update (.inr (by exact rfl)) m' }
  | semop c m i => exact frame_semop h
  | shmat c s =>
    obtain rfl := congrArg Prod.snd (Option.some.inj h)
    exact frame_shmat
  | copyIn c str b =>
    cases str with
    | none =>
      cases h
      exact { frame_refl fun _ _ => rfl with hist := fun _ h => mem_note h }
    | some s =>
      cases h
      exact frame_copyIn
  | copyOut c str =>
    cases str with
    | none =>
      cases h
      exact { frame_refl fun _ _ => rfl with hist := fun _ h => mem_note h }
    | some s =>
      cases h
      exact { frame_refl fun _ _ => rfl with hist := fun _ h => mem_note h }
  | shmdt c str =>
    cases str with
    | none =>
      cases h
      exact frame_refl fun _ _ => rfl
    | some s =>
      cases h
      exact frame_shmdt
  | shmRmid s =>
    simp only [exec] at h
    split at h
    · cases h
      exact frame_refl fun _ _ => rfl
    · cases h
      exact frame_shmRmid
  | semRmid m =>
    simp only [exec] at h
    split at h
    · cases h
      exact frame_refl fun _ _ => rfl
    · cases h
      exact frame_semRmid

end Frame

end NetworkAnalyse.Shm
