import Mathlib.Data.Finset.Card
import Mathlib.Data.List.AList

/-!
# A keyed store with room for a fixed number of entries

The hash map of the kernel: at most `cap` keys, each with one value.  Writing a
key that is present always succeeds; writing a new key fails when the store is
full, and then changes nothing.  The bound is a field of the structure, so a
store with more than `cap` entries cannot be built.
-/

namespace NetworkAnalyse.Lib

structure BoundedMap (K V : Type) (cap : Nat) where
  tab : AList (fun _ : K => V)
  fits : tab.keys.length ≤ cap

namespace BoundedMap

variable {K V : Type} [DecidableEq K] {cap : Nat}

def empty : BoundedMap K V cap := ⟨∅, Nat.zero_le _⟩

def keys (m : BoundedMap K V cap) : List K := m.tab.keys

def lookup (m : BoundedMap K V cap) (k : K) : Option V := m.tab.lookup k

theorem length_keys_insert_le {m : BoundedMap K V cap} {k : K}
    (h : k ∈ m.keys ∨ m.keys.length < cap) (v : V) : (m.tab.insert k v).keys.length ≤ cap := by
  have hm := m.fits
  rw [AList.keys_insert, List.length_cons]
  rcases h with h | h
  · have := List.length_erase_add_one h
    simp only [keys] at this
    omega
  · have := (List.erase_sublist (a := k) (l := m.tab.keys)).length_le
    simp only [keys] at h
    omega

/-- Write `v` at `k`, or fail for lack of room. -/
def update (m : BoundedMap K V cap) (k : K) (v : V) : Option (BoundedMap K V cap) :=
  if h : k ∈ m.keys ∨ m.keys.length < cap then some ⟨m.tab.insert k v, length_keys_insert_le h v⟩
  else none

/-- Remove `k`; nothing happens if it is not there. -/
def delete (m : BoundedMap K V cap) (k : K) : BoundedMap K V cap :=
  ⟨m.tab.erase k, by
    rw [AList.keys_erase]
    exact le_trans (List.erase_sublist).length_le m.fits⟩

@[simp] theorem lookup_empty (k : K) : (empty : BoundedMap K V cap).lookup k = none :=
  AList.lookup_empty k

theorem mem_keys_iff {m : BoundedMap K V cap} {k : K} : k ∈ m.keys ↔ ∃ v, m.lookup k = some v := by
  rw [← Option.isSome_iff_exists, lookup, AList.lookup_isSome, AList.mem_keys]
  rfl

omit [DecidableEq K] in
theorem nodup_keys (m : BoundedMap K V cap) : m.keys.Nodup := m.tab.keys_nodup

/-! ### Writing -/

theorem update_eq_none_iff {m : BoundedMap K V cap} {k : K} {v : V} :
    m.update k v = none ↔ k ∉ m.keys ∧ cap ≤ m.keys.length := by
  rw [update]
  split
  · rename_i h
    simp only [reduceCtorEq, false_iff, not_and, Nat.not_le]
    intro hk
    exact h.resolve_left hk
  · rename_i h
    simpa only [not_or, Nat.not_lt, true_iff] using h

theorem lookup_update_self {m m' : BoundedMap K V cap} {k : K} {v : V}
    (h : m.update k v = some m') : m'.lookup k = some v := by
  rw [update] at h
  split at h
  · obtain rfl := Option.some.inj h
    exact AList.lookup_insert _
  · cases h

theorem lookup_update_of_ne {m m' : BoundedMap K V cap} {k j : K} {v : V}
    (h : m.update k v = some m') (hj : j ≠ k) : m'.lookup j = m.lookup j := by
  rw [update] at h
  split at h
  · obtain rfl := Option.some.inj h
    exact AList.lookup_insert_ne hj
  · cases h

/-- After a write whose result nobody looks at: the value, or nothing for lack of room. -/
theorem lookup_getD_update_self (m : BoundedMap K V cap) (k : K) (v : V) :
    ((m.update k v).getD m).lookup k = if (m.update k v).isSome then some v else none := by
  cases h : m.update k v with
  | none =>
    by_contra hne
    obtain ⟨v', hv'⟩ := Option.ne_none_iff_exists'.mp hne
    exact (update_eq_none_iff.mp h).1 (mem_keys_iff.mpr ⟨v', hv'⟩)
  | some m' => exact lookup_update_self h

theorem lookup_getD_update_of_ne (m : BoundedMap K V cap) {k j : K} (v : V) (hj : j ≠ k) :
    ((m.update k v).getD m).lookup j = m.lookup j := by
  cases h : m.update k v with
  | none => rfl
  | some m' => exact lookup_update_of_ne h hj

/-! ### Removing -/

@[simp] theorem lookup_delete_self (m : BoundedMap K V cap) (k : K) :
    (m.delete k).lookup k = none :=
  AList.lookup_erase k m.tab

theorem lookup_delete_of_ne (m : BoundedMap K V cap) {k j : K} (hj : j ≠ k) :
    (m.delete k).lookup j = m.lookup j := AList.lookup_erase_ne hj

/-! ### Room -/

/-- A store all of whose keys are among fewer than `cap` others has room. -/
theorem isSome_update_of_subset {m : BoundedMap K V cap} {k : K} {l : Finset K}
    (hl : ∀ j ∈ m.keys, j ≠ k → j ∈ l) (hlen : l.card < cap) (v : V) :
    (m.update k v).isSome = true := by
  rw [Option.isSome_iff_ne_none]
  intro h
  obtain ⟨hk, hfull⟩ := update_eq_none_iff.mp h
  have hsub : m.keys.toFinset ⊆ l := by
    intro j hj
    have hj := List.mem_toFinset.mp hj
    exact hl j hj (fun e => hk (e ▸ hj))
  have hcard := Finset.card_le_card hsub
  rw [List.toFinset_card_of_nodup m.nodup_keys] at hcard
  omega

end BoundedMap

end NetworkAnalyse.Lib
