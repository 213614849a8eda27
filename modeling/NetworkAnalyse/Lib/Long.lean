import Mathlib.Data.Nat.Init

/-!
# Arithmetic of `long`

A signed sum, difference or product that does not fit into 64 bits is undefined in C,
and `none` here.  What is defined is exact (`checked_eq_some_iff`).  The conversions between
`long` and `unsigned long` are always defined; they keep the values that both types have.
-/

namespace NetworkAnalyse.Lib.Long

variable {x y r : Int64}

/-- The `long` of this value, if there is one. -/
def checked (n : Int) : Option Int64 :=
  if -9223372036854775808 ≤ n ∧ n ≤ 9223372036854775807 then some (.ofInt n) else none

def add (x y : Int64) : Option Int64 := checked (x.toInt + y.toInt)

def sub (x y : Int64) : Option Int64 := checked (x.toInt - y.toInt)

def mul (x y : Int64) : Option Int64 := checked (x.toInt * y.toInt)

theorem exists_checked {n : Int} (h : -9223372036854775808 ≤ n ∧ n ≤ 9223372036854775807) :
    ∃ r, checked n = some r ∧ r.toInt = n :=
  ⟨.ofInt n, if_pos h, Int64.toInt_ofInt_of_le (by omega) (by omega)⟩

theorem checked_eq_some_iff {n : Int} : checked n = some r ↔ r.toInt = n := by
  constructor
  · intro h
    by_cases hn : -9223372036854775808 ≤ n ∧ n ≤ 9223372036854775807
    · obtain ⟨r', hr', hn'⟩ := exists_checked hn
      rw [hr'] at h
      rw [← Option.some.inj h, hn']
    · rw [checked, if_neg hn] at h
      cases h
  · intro h
    have hle := r.le_toInt
    have hlt := r.toInt_lt
    obtain ⟨r', hr', hn'⟩ := exists_checked (n := n) (by omega)
    rw [hr', Int64.toInt_inj.mp (hn'.trans h.symm)]

theorem add_eq_some_iff : add x y = some r ↔ r.toInt = x.toInt + y.toInt := checked_eq_some_iff

theorem mul_eq_some_iff : mul x y = some r ↔ r.toInt = x.toInt * y.toInt := checked_eq_some_iff

/-- A difference of numbers that are not negative always fits. -/
theorem exists_sub (hx : 0 ≤ x.toInt) (hy : 0 ≤ y.toInt) :
    ∃ d, sub x y = some d ∧ d.toInt = x.toInt - y.toInt := by
  have hx' := x.toInt_lt
  have hy' := y.toInt_lt
  exact exists_checked (by omega)

/-! ### Conversions -/

theorem toNat_toUInt64 (h : 0 ≤ x.toInt) : (x.toUInt64.toNat : Int) = x.toInt := by
  have hx : 0 ≤ x := Int64.le_iff_toInt_le.mpr h
  rw [Int64.toNat_toUInt64_of_le hx, ← Int64.toNat_toInt, Int.toNat_of_nonneg h]

theorem toInt_toInt64 {x : UInt64} (h : x.toNat < 9223372036854775808) :
    x.toInt64.toInt = x.toNat := by
  show x.toBitVec.toInt = x.toBitVec.toNat
  exact BitVec.toInt_eq_toNat_of_lt (by show 2 * x.toNat < 2 ^ 64; omega)

end NetworkAnalyse.Lib.Long
