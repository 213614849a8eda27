import Mathlib.Data.List.TakeWhile

/-!
# Strings in character arrays

`strncpy` into an array of `char` writes the whole array: the string as far as it fits,
and zeros behind it.  So a string that fills the array, or is longer, is left without its
terminating zero (`holds_strncpy_iff`).
-/

namespace NetworkAnalyse.Lib

/-- The bytes of a C string, up to its terminating zero. -/
abbrev CString := { s : List UInt8 // 0 ∉ s }

abbrev CharArray (n : Nat) := Vector UInt8 n

namespace CharArray

variable {n : Nat}

def zero (n : Nat) : CharArray n := Vector.replicate n 0

def strncpy (n : Nat) (s : CString) : CharArray n :=
  ⟨((s.1 ++ List.replicate n 0).take n).toArray, by simp⟩

/-- The string that the array holds, if it is terminated. -/
def text (a : CharArray n) : List UInt8 := a.toList.takeWhile (· ≠ 0)

/-- There is a terminating zero in the array, and before it the whole of `s`. -/
def Holds (a : CharArray n) (s : CString) : Prop := 0 ∈ a.toList ∧ a.text = s.1

theorem zero_eq_strncpy (n : Nat) : zero n = strncpy n ⟨[], List.not_mem_nil⟩ := by
  apply Vector.toList_inj.mp
  simp [zero, strncpy]

theorem toList_strncpy (s : CString) :
    (strncpy n s).toList = (s.1 ++ List.replicate n 0).take n := by
  simp [strncpy, Vector.toList]

theorem toList_strncpy_of_lt {s : CString} (h : s.1.length < n) :
    (strncpy n s).toList = s.1 ++ 0 :: List.replicate (n - s.1.length - 1) 0 := by
  have hn : n - s.1.length = (n - s.1.length - 1) + 1 := by omega
  rw [toList_strncpy, List.take_append, List.take_of_length_le h.le, List.take_replicate,
    Nat.min_eq_left (Nat.sub_le _ _), hn, List.replicate_succ]
  rfl

/-- A copy is whole and terminated exactly if the string is shorter than the array. -/
theorem holds_strncpy_iff {s : CString} : (strncpy n s).Holds s ↔ s.1.length < n := by
  constructor
  · intro h
    by_contra hlen
    have hmem : 0 ∈ s.1.take n := by
      have h0 := h.1
      rwa [toList_strncpy, List.take_append_of_le_length (by omega)] at h0
    exact s.2 (List.mem_of_mem_take hmem)
  · intro h
    have hs : ∀ b ∈ s.1, decide (b ≠ 0) = true := by
      intro b hb
      exact decide_eq_true fun h0 => s.2 (h0 ▸ hb)
    rw [Holds, text, toList_strncpy_of_lt h]
    refine ⟨by simp, ?_⟩
    rw [List.takeWhile_append_of_pos hs]
    simp

end CharArray

end NetworkAnalyse.Lib
