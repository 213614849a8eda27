import Mathlib.Data.List.Basic
import NetworkAnalyse.Shm.Frame

/-!
# The objects under the key

* `Sound`: the invariant of the segments and semaphores, and of what has been copied.
* `Sound.shmget`, …: each call keeps it, where the calls before it have made sure that
  the segment and the semaphore belong together.
-/

namespace NetworkAnalyse.Shm

open Lib

/-! ### The kernel's objects -/

/-- The message is in the segment, and a writer has put it there. -/
structure Full (st : State) (s : ShmId) : Prop where
  text : (st.segs s).data.StringAt 0 message
  copied : ∃ w, .copiedIn w (some s) ∈ st.hist

theorem Full.mono {st st' : State} {s : ShmId} (h : Full st s)
    (hdata : (st'.segs s).data = (st.segs s).data) (hhist : ∀ e ∈ st.hist, e ∈ st'.hist) :
    Full st' s := by
  obtain ⟨w, hw⟩ := h.copied
  exact ⟨hdata ▸ h.text, w, hhist _ hw⟩

/-- What is right about an event that comes after `h`: a copy uses an attached segment,
and what a reader copies is the message that a writer has copied there before. -/
def Event.Ok (h : List Event) : Event → Prop
  | .copiedIn _ str => str ≠ none
  | .copiedOut _ str ret => ∃ s, str = some s ∧ ret = message ∧ ∃ w, .copiedIn w (some s) ∈ h
  | _ => True

def Fair (h : List Event) : Prop := ∀ pre e post, h = pre ++ e :: post → e.Ok pre

/-- Where an element of `h ++ [e]` stands. -/
theorem snoc_eq_append_cons {h pre post : List Event} {e x : Event}
    (heq : h ++ [e] = pre ++ x :: post) :
    (pre = h ∧ x = e ∧ post = []) ∨ ∃ post', post = post' ++ [e] ∧ h = pre ++ x :: post' := by
  rcases List.eq_nil_or_concat' post with rfl | ⟨post', y, rfl⟩
  · obtain ⟨hpre, hx⟩ := List.append_inj' heq rfl
    exact Or.inl ⟨hpre.symm, (List.singleton_inj.mp hx).symm, rfl⟩
  · rw [← List.cons_append, ← List.append_assoc] at heq
    obtain ⟨hpre, hy⟩ := List.append_inj' heq rfl
    exact Or.inr ⟨post', by rw [List.singleton_inj.mp hy], hpre⟩

theorem Fair.snoc {h : List Event} {e : Event} (hf : Fair h) (he : e.Ok h) : Fair (h ++ [e]) := by
  intro pre x post heq
  rcases snoc_eq_append_cons heq with ⟨rfl, rfl, -⟩ | ⟨post', -, heq⟩
  · exact he
  · exact hf pre x post' heq

/-- A segment and the semaphore made for it are under the key together, the segment is
removed first, and a semaphore above 0 belongs to a segment that holds the message. -/
structure Sound (st : State) : Prop where
  found : ∀ {s}, st.shm theKey = some s → s < st.nextShm ∧ (st.segs s).dest = false
  live : ∀ {m}, st.sem theKey = some m → m < st.nextSem ∧ (st.sems m).removed = false
  only : ∀ {m}, m < st.nextSem → (st.sems m).removed = false → st.sem theKey = some m
  made : ∀ {m}, m < st.nextSem → ∃ s < st.nextShm, (st.sems m).segment = some s
  pair : ∀ {s m}, st.shm theKey = some s → st.sem theKey = some m →
    (st.sems m).segment = some s
  past : ∀ {s m}, m < st.nextSem → (st.sems m).removed = true → (st.sems m).segment = some s →
    st.shm theKey ≠ some s
  value : ∀ {s m}, m < st.nextSem → 0 < (st.sems m).value → (st.sems m).segment = some s → Full st s
  size : ∀ {s}, s < st.nextShm → (st.segs s).data.bytes.length = shmSize
  fair : Fair st.hist

theorem sound_boot : Sound .boot where
  found h := nomatch h
  live h := nomatch h
  only h := absurd h (Nat.not_lt_zero _)
  made h := absurd h (Nat.not_lt_zero _)
  pair h := nomatch h
  past h := absurd h (Nat.not_lt_zero _)
  value h := absurd h (Nat.not_lt_zero _)
  size h := absurd h (Nat.not_lt_zero _)
  fair pre e post heq := by
    rw [State.boot] at heq
    simp at heq

theorem zero_not_mem_message : (0 : UInt8) ∉ message := by decide

theorem Full.of_frame {op : Op} {st st' : State} {s : ShmId} (h : Full st s) (hs : s < st.nextShm)
    (hf : Frame op st st') (hop : ∀ c s b, op = .copyIn c (some s) b → b = message) :
    Full st' s := by
  obtain ⟨w, hw⟩ := h.copied
  refine ⟨?_, w, hf.hist _ hw⟩
  rw [hf.data s hs]
  unfold Op.written
  split
  · rename_i c s' b
    rw [hop c s' b rfl]
    split
    · exact DataSection.stringAt_write zero_not_mem_message h.text.lt
    · exact h.text
  · exact h.text

/-! ### The calls keep the objects sound -/

namespace Sound

variable {st st' : State}

/-- A call that changes the bytes and the uses of segments, and records something. -/
theorem of_segs (h : Sound st) (hshm : st'.shm = st.shm) (hsem : st'.sem = st.sem)
    (hsems : st'.sems = st.sems) (hnextShm : st'.nextShm = st.nextShm)
    (hnextSem : st'.nextSem = st.nextSem) (hdest : ∀ s, (st'.segs s).dest = (st.segs s).dest)
    (hsize : ∀ s, (st'.segs s).data.bytes.length = (st.segs s).data.bytes.length)
    (hfull : ∀ s < st.nextShm, Full st s → Full st' s) (hfair : Fair st'.hist) : Sound st' where
  found hs := by
    rw [hshm] at hs
    rw [hnextShm, hdest]
    exact h.found hs
  live hm := by
    rw [hsem] at hm
    rw [hnextSem, hsems]
    exact h.live hm
  only hm hr := by
    rw [hnextSem] at hm
    rw [hsems] at hr
    rw [hsem]
    exact h.only hm hr
  made hm := by
    rw [hnextSem] at hm
    rw [hnextShm, hsems]
    exact h.made hm
  pair hs hm := by
    rw [hshm] at hs
    rw [hsem] at hm
    rw [hsems]
    exact h.pair hs hm
  past hm hr hs := by
    rw [hnextSem] at hm
    rw [hsems] at hr hs
    rw [hshm]
    exact h.past hm hr hs
  value hm hv hs := by
    rw [hnextSem] at hm
    rw [hsems] at hv hs
    obtain ⟨s', hlt, hs'⟩ := h.made hm
    rw [hs] at hs'
    cases hs'
    exact hfull _ hlt (h.value hm hv hs)
  size hs := by
    rw [hnextShm] at hs
    rw [hsize]
    exact h.size hs
  fair := hfair

/-- A call that records an event and no more. -/
theorem note (h : Sound st) {e : Event} (he : e.Ok st.hist) : Sound (st.note e) :=
  h.of_segs rfl rfl rfl rfl rfl (fun _ => rfl) (fun _ => rfl)
    (fun _ _ hs => hs.mono rfl fun _ => List.mem_append_left _) (h.fair.snoc he)

/-- A call that sets the value of a semaphore, to 0 or once its segment is full. -/
theorem setSem (h : Sound st) {m : SemId} {e : Sem} (hremoved : e.removed = (st.sems m).removed)
    (hsegment : e.segment = (st.sems m).segment)
    (hfull : 0 < e.value → m < st.nextSem → ∀ s, (st.sems m).segment = some s → Full st s) :
    Sound (st.setSem m e) := by
  have hrest : ∀ m', ((Function.update st.sems m e) m').removed = (st.sems m').removed ∧
      ((Function.update st.sems m e) m').segment = (st.sems m').segment := by
    intro m'
    by_cases hm : m' = m
    · subst hm
      rw [Function.update_self]
      exact ⟨hremoved, hsegment⟩
    · rw [Function.update_of_ne hm]
      exact ⟨rfl, rfl⟩
  refine { h with live := ?_, only := ?_, made := ?_, pair := ?_, past := ?_, value := ?_ }
  · intro m' hm
    exact ⟨(h.live hm).1, (hrest m').1.trans (h.live hm).2⟩
  · intro m' hm hr
    exact h.only hm ((hrest m').1.symm.trans hr)
  · intro m' hm
    obtain ⟨s, hs, hseg⟩ := h.made hm
    exact ⟨s, hs, (hrest m').2.trans hseg⟩
  · intro s m' hs hm
    exact (hrest m').2.trans (h.pair hs hm)
  · intro s m' hm hr hs
    exact h.past hm ((hrest m').1.symm.trans hr) ((hrest m').2.symm.trans hs)
  · intro s m' hm hv hs
    have hseg := (hrest m').2.symm.trans hs
    by_cases hmm : m' = m
    · subst hmm
      simp only [State.setSem, Function.update_self] at hv
      exact (hfull hv hm s hseg).mono rfl fun _ => id
    · simp only [State.setSem, Function.update_of_ne hmm] at hv
      exact (h.value hm hv hseg).mono rfl fun _ => id

theorem pass (h : Sound st) (c : Caller) (m : SemId) (i : Int) : Sound (st.pass c m i) := by
  rw [State.pass]
  split
  · exact h.note trivial
  · exact h.of_segs rfl rfl rfl rfl rfl (fun _ => rfl) (fun _ => rfl)
      (fun _ _ hs => hs.mono rfl fun _ => id) h.fair

theorem semop (h : Sound st) {c : Caller} {m : SemId} {i n : Int}
    (hfull : 0 < i → m < st.nextSem → ∀ s, (st.sems m).segment = some s → Full st s)
    (hexec : st.semop c m i = some (n, st')) : Sound st' := by
  rcases State.semop_cases hexec with rfl | rfl
  · exact h.pass c m i
  · refine (h.pass c m i).setSem (by rw [State.sems_pass]) (by rw [State.sems_pass])
      fun hv hm s hs => ?_
    rw [State.sems_pass] at hs
    rw [State.nextSem_pass] at hm
    have hst : Full st s := by
      by_cases hpos : 0 < (st.sems m).value
      · exact h.value hm hpos hs
      · dsimp only at hv
        exact hfull (by omega) hm s hs
    exact hst.mono (by rw [State.segs_pass]) frame_pass.hist

/-- A new segment gets a new id, and there is no semaphore yet. -/
theorem make_segment (h : Sound st) (hsem : st.sem theKey = none)
    (hshm : st'.shm theKey = some st.nextShm)
    (hsegs : st'.segs = Function.update st.segs st.nextShm (.new shmSize))
    (hnext : st'.nextShm = st.nextShm + 1) (hsem' : st'.sem = st.sem) (hsems : st'.sems = st.sems)
    (hnextSem : st'.nextSem = st.nextSem) (hhist : st'.hist = st.hist) : Sound st' := by
  have hold : ∀ {m s}, m < st.nextSem → (st.sems m).segment = some s → s < st.nextShm := by
    intro m s hm hs
    obtain ⟨s', hlt, hs'⟩ := h.made hm
    obtain rfl := Option.some.inj (hs.symm.trans hs')
    exact hlt
  constructor
  · intro s hs
    rw [hshm] at hs
    obtain rfl := Option.some.inj hs
    rw [hnext, hsegs, Function.update_self]
    exact ⟨Nat.lt_succ_self _, rfl⟩
  · intro m hm
    rw [hsem', hsem] at hm
    cases hm
  · intro m hm hr
    rw [hnextSem] at hm
    rw [hsems] at hr
    rw [hsem']
    exact h.only hm hr
  · intro m hm
    rw [hnextSem] at hm
    obtain ⟨s, hs, hseg⟩ := h.made hm
    rw [hnext, hsems]
    exact ⟨s, Nat.lt_succ_of_lt hs, hseg⟩
  · intro s m _ hm
    rw [hsem', hsem] at hm
    cases hm
  · intro s m hm _ hs heq
    rw [hnextSem] at hm
    rw [hsems] at hs
    rw [hshm] at heq
    exact Nat.ne_of_gt (hold hm hs) (Option.some.inj heq)
  · intro s m hm hv hs
    rw [hnextSem] at hm
    rw [hsems] at hv hs
    refine (h.value hm hv hs).mono ?_ (fun _ => hhist ▸ id)
    rw [hsegs, Function.update_of_ne (Nat.ne_of_lt (hold hm hs))]
  · intro s hs
    rw [hnext] at hs
    rw [hsegs]
    by_cases heq : s = st.nextShm
    · rw [heq, Function.update_self]
      exact List.length_replicate
    · rw [Function.update_of_ne heq]
      exact h.size (Nat.lt_of_le_of_ne (Nat.le_of_lt_succ hs) heq)
  · rw [hhist]
    exact h.fair

theorem shmget (h : Sound st) {c : Caller} (hg : st.shm theKey = none → st.sem theKey = none) :
    Sound (st.shmget c theKey shmSize).2 := by
  rw [State.shmget]
  split
  · exact h.of_segs rfl rfl rfl rfl rfl (fun _ => rfl) (fun _ => rfl)
      (fun _ _ hs => hs.mono rfl fun _ => id) h.fair
  · exact h.make_segment (hg ‹_›) (Function.update_self theKey (some st.nextShm) st.shm)
      rfl rfl rfl rfl rfl rfl

/-- A new semaphore belongs to the segment that is under the key. -/
theorem make_sem (h : Sound st) {s : ShmId} (hs : st.shm theKey = some s)
    (hnone : st.sem theKey = none) (hsem : st'.sem theKey = some st.nextSem)
    (hsems : st'.sems = Function.update st.sems st.nextSem { segment := some s })
    (hnext : st'.nextSem = st.nextSem + 1) (hshm : st'.shm = st.shm) (hsegs : st'.segs = st.segs)
    (hnextShm : st'.nextShm = st.nextShm) (hhist : st'.hist = st.hist) : Sound st' := by
  have hremoved : ∀ {m}, m < st.nextSem → (st.sems m).removed = true := by
    intro m hm
    by_contra hr
    rw [h.only hm (Bool.eq_false_iff.mpr hr)] at hnone
    cases hnone
  have hold : ∀ {m}, m < st.nextSem → st'.sems m = st.sems m := by
    intro m hm
    rw [hsems, Function.update_of_ne (Nat.ne_of_lt hm)]
  have hnew : st'.sems st.nextSem = { segment := some s } := by
    rw [hsems, Function.update_self]
  have hcases : ∀ {m}, m < st'.nextSem → m < st.nextSem ∨ m = st.nextSem := by
    intro m hm
    rw [hnext] at hm
    exact Nat.lt_succ_iff_lt_or_eq.mp hm
  constructor
  · intro s' hs'
    rw [hshm] at hs'
    rw [hnextShm, hsegs]
    exact h.found hs'
  · intro m hm
    rw [hsem] at hm
    obtain rfl := Option.some.inj hm
    rw [hnew, hnext]
    exact ⟨Nat.lt_succ_self _, rfl⟩
  · intro m hm hr
    rcases hcases hm with hm | rfl
    · rw [hold hm, hremoved hm] at hr
      cases hr
    · exact hsem
  · intro m hm
    rw [hnextShm]
    rcases hcases hm with hm | rfl
    · rw [hold hm]
      exact h.made hm
    · rw [hnew]
      exact ⟨s, (h.found hs).1, rfl⟩
  · intro s' m hs' hm
    rw [hsem] at hm
    obtain rfl := Option.some.inj hm
    rw [hshm, hs] at hs'
    rw [hnew]
    exact hs'
  · intro s' m hm hr hseg
    rw [hshm]
    rcases hcases hm with hm | rfl
    · rw [hold hm] at hr hseg
      exact h.past hm hr hseg
    · rw [hnew] at hr
      cases hr
  · intro s' m hm hv hseg
    rcases hcases hm with hm | rfl
    · rw [hold hm] at hv hseg
      exact (h.value hm hv hseg).mono (by rw [hsegs]) (fun _ => hhist ▸ id)
    · rw [hnew] at hv
      cases hv
  · intro s' hs'
    rw [hnextShm] at hs'
    rw [hsegs]
    exact h.size hs'
  · rw [hhist]
    exact h.fair

theorem semget (h : Sound st) {s : ShmId} (hs : st.shm theKey = some s) :
    Sound (st.semget theKey).2 := by
  rw [State.semget]
  split
  · exact h
  · exact h.make_sem hs ‹_› (Function.update_self theKey (some st.nextSem) st.sem) (by rw [hs])
      rfl rfl rfl rfl rfl

theorem shmRmid (h : Sound st) (s : ShmId) : Sound (st.shmRmid s) := by
  have hunbound : ∀ {s'}, (st.shmRmid s).shm theKey = some s' →
      s' ≠ s ∧ st.shm theKey = some s' := by
    intro s' hs'
    simp only [State.shmRmid] at hs'
    split at hs'
    · cases hs'
    · rename_i hne
      refine ⟨?_, hs'⟩
      rintro rfl
      exact hne hs'
  have hdata : ∀ s', ((st.shmRmid s).segs s').data = (st.segs s').data := by
    intro s'
    simp only [State.shmRmid, State.setSeg, Function.update_apply]
    split
    · rename_i heq
      rw [heq]
    · rfl
  refine ⟨?_, h.live, h.only, h.made, ?_, ?_, ?_, ?_, h.fair⟩
  · intro s' hs'
    obtain ⟨hne, hs'⟩ := hunbound hs'
    refine ⟨(h.found hs').1, ?_⟩
    simp only [State.shmRmid, State.setSeg, Function.update_of_ne hne]
    exact (h.found hs').2
  · intro s' m hs' hm
    exact h.pair (hunbound hs').2 hm
  · intro s' m hm hr hseg hs'
    exact h.past hm hr hseg (hunbound hs').2
  · intro s' m hm hv hseg
    exact (h.value hm hv hseg).mono (hdata s') fun _ => id
  · intro s' hs'
    rw [hdata]
    exact h.size hs'

/-- The semaphore goes after its segment. -/
theorem semRmid (h : Sound st) {s : ShmId} {m : SemId} (hm : m < st.nextSem)
    (hseg : (st.sems m).segment = some s) (hgone : st.shm theKey ≠ some s)
    (hlive : (st.sems m).removed = false) : Sound (st.semRmid m) := by
  have hbound := h.only hm hlive
  have hnone : (st.semRmid m).sem theKey = none := by
    simp only [State.semRmid, hbound, if_true]
  have hold : ∀ {m'}, m' ≠ m → (st.semRmid m).sems m' = st.sems m' := by
    intro m' hne
    simp only [State.semRmid, State.setSem, Function.update_of_ne hne]
  have hself : (st.semRmid m).sems m = { st.sems m with removed := true } := by
    simp only [State.semRmid, State.setSem, Function.update_self]
  refine ⟨h.found, ?_, ?_, ?_, ?_, ?_, ?_, h.size, h.fair⟩
  · intro m' hm'
    rw [hnone] at hm'
    cases hm'
  · intro m' hm' hr
    by_cases hne : m' = m
    · rw [hne, hself] at hr
      cases hr
    · rw [hold hne] at hr
      have heq := h.only hm' hr
      rw [hbound] at heq
      exact absurd (Option.some.inj heq).symm hne
  · intro m' hm'
    by_cases hne : m' = m
    · rw [hne, hself]
      exact h.made hm
    · rw [hold hne]
      exact h.made hm'
  · intro s' m' _ hm'
    rw [hnone] at hm'
    cases hm'
  · intro s' m' hm' hr hseg'
    by_cases hne : m' = m
    · rw [hne, hself] at hseg'
      obtain rfl := Option.some.inj (hseg.symm.trans hseg')
      exact hgone
    · rw [hold hne] at hr hseg'
      exact h.past hm' hr hseg'
  · intro s' m' hm' hv hseg'
    by_cases hne : m' = m
    · rw [hne, hself] at hv hseg'
      exact (h.value hm hv hseg').mono rfl fun _ => id
    · rw [hold hne] at hv hseg'
      exact (h.value hm' hv hseg').mono rfl fun _ => id

/-- A call that changes one segment, but not whether it is removed. -/
theorem setSeg (h : Sound st) {s : ShmId} {g : Segment} (hdest : g.dest = (st.segs s).dest)
    (hsize : g.data.bytes.length = (st.segs s).data.bytes.length)
    (hfull : Full st s → g.data.StringAt 0 message) : Sound (st.setSeg s g) := by
  refine h.of_segs rfl rfl rfl rfl rfl (fun s' => ?_) (fun s' => ?_) (fun s' _ hs' => ?_) h.fair
  · simp only [State.setSeg, Function.update_apply]
    split
    · rename_i heq
      rw [hdest, heq]
    · rfl
  · simp only [State.setSeg, Function.update_apply]
    split
    · rename_i heq
      rw [hsize, heq]
    · rfl
  · by_cases heq : s' = s
    · subst heq
      refine ⟨?_, hs'.copied⟩
      simp only [State.setSeg, Function.update_self]
      exact hfull hs'
    · refine hs'.mono ?_ fun _ => id
      simp only [State.setSeg, Function.update_of_ne heq]

/-- A call that changes only who is recorded to do what. -/
theorem of_records (h : Sound st) (hshm : st'.shm = st.shm) (hsem : st'.sem = st.sem)
    (hsegs : st'.segs = st.segs) (hsems : st'.sems = st.sems) (hnextShm : st'.nextShm = st.nextShm)
    (hnextSem : st'.nextSem = st.nextSem) (hhist : st'.hist = st.hist) : Sound st' :=
  h.of_segs hshm hsem hsems hnextShm hnextSem (fun _ => by rw [hsegs]) (fun _ => by rw [hsegs])
    (fun _ _ hs => hs.mono (by rw [hsegs]) fun _ => hhist ▸ id) (hhist ▸ h.fair)

theorem shmat (h : Sound st) (c : Caller) (s : ShmId) : Sound (st.shmat c s).2 := by
  have hseg : Sound (st.setSeg s { st.segs s with nattch := (st.segs s).nattch + 1 }) :=
    h.setSeg rfl rfl Full.text
  simp only [State.shmat]
  split
  · exact h.of_records rfl rfl rfl rfl rfl rfl rfl
  · exact hseg.of_records rfl rfl rfl rfl rfl rfl rfl

theorem shmdt (h : Sound st) (c : Caller) (s : ShmId) : Sound (st.shmdt c s) := by
  have hseg : Sound (st.setSeg s { st.segs s with nattch := (st.segs s).nattch - 1 }) :=
    h.setSeg rfl rfl Full.text
  simp only [State.shmdt]
  split
  · exact hseg
  · refine note (e := .completed c) ?_ trivial
    exact hseg.of_records rfl rfl rfl rfl rfl rfl rfl

theorem copyIn (h : Sound st) (c : Caller) (s : ShmId) :
    Sound ((st.setSeg s { st.segs s with data := (st.segs s).data.write 0 (message ++ [0]) }).note
      (.copiedIn c (some s))) := by
  have hseg : Sound (st.setSeg s { st.segs s with
      data := (st.segs s).data.write 0 (message ++ [0]) }) := by
    refine h.setSeg rfl (DataSection.length_write ..) fun hfull => ?_
    exact DataSection.stringAt_write zero_not_mem_message hfull.text.lt
  exact hseg.note (Option.some_ne_none s)

end Sound

end NetworkAnalyse.Shm
