import Mathlib.Data.List.Basic
import Mathlib.Data.List.Induction

/-!
# Histories and stopwatches

What a component is for, said over the list of what happened.

* `Lawful P h`: every entry of the history `h` is related by `P` to the entries
  before it.
* A **stopwatch** for each key: `start k t` sets the watch of `k` going at `t`
  (again, if it was going), `stop k` reads it and stops it.  `pending h k` is
  the time at which the watch of `k` was last set, if it is still going after
  `h`, and `pending_eq_some_iff` says so without the recursion: `Latest h k t`.
* `Stops h m n`: the watch set at position `m` is stopped at position `n`.  Each
  start has at most one stop (`Stops.unique`).
-/

namespace NetworkAnalyse.Lib

/-! ### Laws of histories -/

section Lawful

variable {ι K : Type} {P : List ι → ι → Prop}

/-- Where an entry of a history with one more entry can be. -/
theorem snoc_split {h pre post : List ι} {i j : ι} (e : h ++ [j] = pre ++ i :: post) :
    (h = pre ∧ j = i ∧ post = []) ∨ ∃ post', h = pre ++ i :: post' ∧ post = post' ++ [j] := by
  rcases List.eq_nil_or_concat post with rfl | ⟨post', l, rfl⟩
  · obtain ⟨hpre, hi⟩ := List.append_inj' e rfl
    exact Or.inl ⟨hpre, List.singleton_inj.mp hi, rfl⟩
  · rw [List.concat_eq_append, ← List.cons_append, ← List.append_assoc] at e
    obtain ⟨hpre, hl⟩ := List.append_inj' e rfl
    exact Or.inr ⟨post', hpre, by rw [List.concat_eq_append, hl]⟩

def Lawful (P : List ι → ι → Prop) (h : List ι) : Prop :=
  ∀ pre i post, h = pre ++ i :: post → P pre i

theorem lawful_nil : Lawful P [] := by
  intro pre i post h
  simp at h

theorem Lawful.snoc {h : List ι} {i : ι} (hh : Lawful P h) (hi : P h i) : Lawful P (h ++ [i]) := by
  intro pre j post e
  rcases snoc_split e with ⟨rfl, rfl, -⟩ | ⟨post', e, -⟩
  · exact hi
  · exact hh pre j post' e

theorem lawful_snoc_iff {h : List ι} {i : ι} : Lawful P (h ++ [i]) ↔ Lawful P h ∧ P h i := by
  constructor
  · intro hl
    refine ⟨fun pre j post e => hl pre j (post ++ [i]) ?_, hl h i [] rfl⟩
    rw [e, List.append_assoc, List.cons_append]
  · intro ⟨hh, hi⟩
    exact hh.snoc hi

/-- A law that only looks at the entries with the same key holds if it holds of
the history of every key. -/
theorem lawful_of_filter [DecidableEq K] (key : ι → K) {h : List ι}
    (hloc : ∀ pre i, P (pre.filter (key · = key i)) i → P pre i)
    (hk : ∀ k, Lawful P (h.filter (key · = k))) : Lawful P h := by
  intro pre i post e
  refine hloc pre i (hk (key i) _ i (post.filter (key · = key i)) ?_)
  rw [e, List.filter_append, List.filter_cons_of_pos (by simp)]

end Lawful

/-! ### Stopwatches -/

inductive Lap (K T : Type)
  | start (k : K) (t : T)
  | stop (k : K)
  | idle
  deriving DecidableEq, Repr

variable {K T : Type}

/-- Neither starts nor stops the watch of `k`. -/
def Lap.Quiet (k : K) (l : Lap K T) : Prop := (∀ t, l ≠ .start k t) ∧ l ≠ .stop k

/-- The watch of `k` was last started at `t`, and not stopped since. -/
def Latest (h : List (Lap K T)) (k : K) (t : T) : Prop :=
  ∃ pre post, h = pre ++ .start k t :: post ∧ ∀ l ∈ post, Lap.Quiet k l

section Pending

variable [DecidableEq K]

/-- What one entry does to the watch of `k`. -/
def Lap.next (k : K) (p : Option T) : Lap K T → Option T
  | .start j t => if j = k then some t else p
  | .stop j => if j = k then none else p
  | .idle => p

def pending (h : List (Lap K T)) (k : K) : Option T := h.foldl (Lap.next k) none

@[simp] theorem pending_nil (k : K) : pending ([] : List (Lap K T)) k = none := rfl

theorem pending_append (h h' : List (Lap K T)) (k : K) :
    pending (h ++ h') k = h'.foldl (Lap.next k) (pending h k) := List.foldl_append

@[simp] theorem pending_snoc (h : List (Lap K T)) (l : Lap K T) (k : K) :
    pending (h ++ [l]) k = l.next k (pending h k) := by
  rw [pending_append]
  rfl

theorem Lap.Quiet.next_eq {k : K} {l : Lap K T} (h : l.Quiet k) (p : Option T) :
    l.next k p = p := by
  cases l with
  | start j t =>
    rw [Lap.next, if_neg]
    rintro rfl
    exact h.1 t rfl
  | stop j =>
    rw [Lap.next, if_neg]
    rintro rfl
    exact h.2 rfl
  | idle => rfl

/-- An entry leaves the watch alone, starts it, or stops it. -/
theorem Lap.quiet_or (k : K) (l : Lap K T) : l.Quiet k ∨ (∃ t, l = .start k t) ∨ l = .stop k := by
  by_cases hstart : ∃ t, l = .start k t
  · exact Or.inr (Or.inl hstart)
  · by_cases hstop : l = .stop k
    · exact Or.inr (Or.inr hstop)
    · exact Or.inl ⟨fun t e => hstart ⟨t, e⟩, hstop⟩

/-- A watch that is going was started by the last entry, or was going before. -/
theorem pending_snoc_cases {h : List (Lap K T)} {l : Lap K T} {k : K} {t : T}
    (hp : pending (h ++ [l]) k = some t) : l = .start k t ∨ pending h k = some t := by
  rw [pending_snoc] at hp
  rcases l.quiet_or k with hq | ⟨t', rfl⟩ | rfl
  · rw [hq.next_eq] at hp
    exact Or.inr hp
  · rw [Lap.next, if_pos rfl] at hp
    rw [Option.some.inj hp]
    exact Or.inl rfl
  · rw [Lap.next, if_pos rfl] at hp
    cases hp

omit [DecidableEq K] in
theorem latest_snoc_of_quiet {h : List (Lap K T)} {l : Lap K T} {k : K} {t : T} (hl : l.Quiet k) :
    Latest (h ++ [l]) k t ↔ Latest h k t := by
  constructor
  · rintro ⟨pre, post, e, hq⟩
    rcases snoc_split e with ⟨-, rfl, -⟩ | ⟨post', rfl, rfl⟩
    · exact absurd rfl (hl.1 t)
    · exact ⟨pre, post', rfl, fun m hm => hq m (by simp [hm])⟩
  · rintro ⟨pre, post, rfl, hq⟩
    refine ⟨pre, post ++ [l], by simp, fun m hm => ?_⟩
    rcases List.mem_append.mp hm with hm | hm
    · exact hq m hm
    · rw [List.mem_singleton.mp hm]
      exact hl

/-- **What `pending` computes.** -/
theorem pending_eq_some_iff {h : List (Lap K T)} {k : K} {t : T} :
    pending h k = some t ↔ Latest h k t := by
  induction h using List.reverseRecOn with
  | nil =>
    constructor
    · intro e
      cases e
    · rintro ⟨pre, post, e, -⟩
      simp at e
  | append_singleton h l ih =>
    rcases l.quiet_or k with hq | ⟨t', rfl⟩ | rfl
    · rw [pending_snoc, hq.next_eq, latest_snoc_of_quiet hq, ih]
    · rw [pending_snoc, Lap.next, if_pos rfl]
      constructor
      · intro e
        obtain rfl := Option.some.inj e
        exact ⟨h, [], rfl, by simp⟩
      · rintro ⟨pre, post, e, hq⟩
        rcases snoc_split e with ⟨-, e, -⟩ | ⟨post', -, rfl⟩
        · cases e
          rfl
        · exact absurd rfl ((hq (.start k t') (by simp)).1 t')
    · rw [pending_snoc, Lap.next, if_pos rfl]
      constructor
      · intro e
        cases e
      · rintro ⟨pre, post, e, hq⟩
        rcases snoc_split e with ⟨-, e, -⟩ | ⟨post', -, rfl⟩
        · cases e
        · exact absurd rfl (hq (.stop k) (by simp)).2

/-- The watch of `k` only depends on the entries of a history that are about `k`. -/
theorem pending_map_filter {ι J : Type} [DecidableEq J] {key : ι → J} {lap : ι → Lap K T} {j : J}
    {k : K} (hq : ∀ i, key i ≠ j → (lap i).Quiet k) (h : List ι) :
    pending ((h.filter (key · = j)).map lap) k = pending (h.map lap) k := by
  induction h using List.reverseRecOn with
  | nil => rfl
  | append_singleton h i ih =>
    rw [List.filter_append, List.map_append, List.map_append, List.map_singleton, pending_snoc]
    by_cases hi : key i = j
    · rw [List.filter_cons_of_pos (by simpa using hi), List.filter_nil, List.map_singleton,
        pending_snoc, ih]
    · rw [List.filter_cons_of_neg (by simpa using hi), List.filter_nil, List.map_nil,
        List.append_nil, ih, (hq i hi).next_eq]

end Pending

/-! ### Starts and their stops -/

/-- The watch that position `m` of `h` starts is stopped at position `n`. -/
def Stops (h : List (Lap K T)) (m n : Nat) : Prop :=
  ∃ k t, h[m]? = some (.start k t) ∧ h[n]? = some (.stop k) ∧ m < n ∧
    ∀ j l, m < j → j < n → h[j]? = some l → Lap.Quiet k l

/-- A stop of a watch that is going stops its latest start. -/
theorem Latest.stops {pre : List (Lap K T)} {k : K} {t : T} (h : Latest pre k t)
    (post : List (Lap K T)) :
    ∃ m, Stops (pre ++ .stop k :: post) m pre.length ∧ pre[m]? = some (.start k t) := by
  obtain ⟨a, b, rfl, hq⟩ := h
  have hm : (a ++ Lap.start k t :: b)[a.length]? = some (.start k t) := by simp
  refine ⟨a.length, ⟨k, t, ?_, by simp, by simp, fun j l hj hjn hl => ?_⟩, hm⟩
  · rw [List.getElem?_append_left (by simp)]
    exact hm
  · rw [List.getElem?_append_left hjn, List.getElem?_append_right (Nat.le_of_lt hj),
      List.getElem?_cons, if_neg (by omega)] at hl
    exact hq l (List.mem_of_getElem? hl)

/-- **Each start has at most one stop.** -/
theorem Stops.unique {h : List (Lap K T)} {m n n' : Nat} (h₁ : Stops h m n) (h₂ : Stops h m n') :
    n = n' := by
  obtain ⟨k, t, hm, hn, hmn, hq⟩ := h₁
  obtain ⟨k', t', hm', hn', hmn', hq'⟩ := h₂
  obtain ⟨rfl, -⟩ : k = k' ∧ t = t' := by
    rw [hm, Option.some.injEq, Lap.start.injEq] at hm'
    exact hm'
  rcases Nat.lt_trichotomy n n' with hlt | heq | hgt
  · exact absurd rfl (hq' n _ hmn hlt hn).2
  · exact heq
  · exact absurd rfl (hq n' _ hmn' hgt hn').2

end NetworkAnalyse.Lib
