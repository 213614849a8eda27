import Mathlib.Data.List.Basic
import Mathlib.Data.Nat.ModEq
import Mathlib.Logic.Function.Basic

/-!
# Windows of a circular memory

A stream of cells is laid around a memory of `size` cells: the position `a` of the
stream lies at `a % size`.  At any time only a window of the stream is of interest, and
it is not longer than the memory.  Then its positions lie in different cells, and the
window behaves as a list:

* `Window`: the window at `c` is the list `l`.
* `Window.append_read`, `Window.left`, `Window.right`: it grows at its end, and parts of it
  are windows.
* `Window.write`: a piece of it is overwritten.
* `Window.cells_eq`: a piece of it that does not go around the end is read cell by cell.
-/

namespace NetworkAnalyse.Lib.Circular

variable {α : Type} {size c : Nat} {mem : Nat → α} {l l₁ l₂ : List α}

/-- The `n` cells at the positions from `a` on. -/
def read (size : Nat) (mem : Nat → α) (a n : Nat) : List α :=
  (List.range n).map fun i => mem ((a + i) % size)

/-- The `n` cells from the address `a` on, which are not taken around the end. -/
def cells (mem : Nat → α) (a n : Nat) : List α := (List.range n).map fun i => mem (a + i)

/-- Store the list at the positions from `a` on, cell by cell. -/
def write (size : Nat) : (Nat → α) → Nat → List α → Nat → α
  | mem, _, [] => mem
  | mem, a, x :: l => write size (Function.update mem (a % size) x) (a + 1) l

structure Window (size : Nat) (mem : Nat → α) (c : Nat) (l : List α) : Prop where
  fits : l.length ≤ size
  cell : ∀ i < l.length, l[i]? = some (mem ((c + i) % size))

@[simp] theorem length_read (size : Nat) (mem : Nat → α) (a n : Nat) :
    (read size mem a n).length = n := by
  rw [read, List.length_map, List.length_range]

theorem getElem?_read {a n i : Nat} (h : i < n) :
    (read size mem a n)[i]? = some (mem ((a + i) % size)) := by
  rw [read, List.getElem?_map, List.getElem?_range h, Option.map_some]

/-- Two positions that are less than `size` apart lie in different cells. -/
theorem add_mod_inj {i j : Nat} (hi : i < size) (hj : j < size)
    (h : (c + i) % size = (c + j) % size) : i = j := by
  have hij : i ≡ j [MOD size] := Nat.ModEq.add_left_cancel' c h
  exact hij.eq_of_lt_of_lt hi hj

/-- A cell that is not written. -/
theorem write_of_ne {x : Nat} (l : List α) (mem : Nat → α) (a : Nat)
    (h : ∀ i < l.length, (a + i) % size ≠ x) : write size mem a l x = mem x := by
  induction l generalizing mem a with
  | nil => rfl
  | cons y l ih =>
    have hrest : ∀ i < l.length, (a + 1 + i) % size ≠ x := by
      intro i hi
      rw [Nat.add_assoc, Nat.add_comm 1 i]
      exact h (i + 1) (Nat.succ_lt_succ hi)
    rw [write, ih _ _ hrest]
    exact Function.update_of_ne (h 0 (Nat.succ_pos _)).symm _ _

theorem write_self (l : List α) (mem : Nat → α) (a : Nat) (hfits : l.length ≤ size) {i : Nat}
    (h : i < l.length) : some (write size mem a l ((a + i) % size)) = l[i]? := by
  induction l generalizing mem a i with
  | nil => exact absurd h (Nat.not_lt_zero i)
  | cons y l ih =>
    rw [List.length_cons] at hfits h
    cases i with
    | zero =>
      -- the first cell is not written again
      have hne : ∀ j < l.length, (a + 1 + j) % size ≠ a % size := by
        intro j hj heq
        rw [Nat.add_assoc] at heq
        have h0 : 1 + j = 0 := add_mod_inj (by omega) (by omega) heq
        omega
      show some (write size (Function.update mem (a % size) y) (a + 1) l (a % size)) = some y
      rw [write_of_ne l _ _ hne, Function.update_self]
    | succ i =>
      have hi := ih (Function.update mem (a % size) y) (a + 1) (Nat.le_of_succ_le hfits)
        (Nat.lt_of_succ_lt_succ h)
      rw [write, ← Nat.add_assoc, Nat.add_right_comm, hi]
      rfl

/-- An address in the memory and a position of the stream that lies there. -/
theorem read_mod (size : Nat) (mem : Nat → α) (a b n : Nat) :
    read size mem (a % size + b) n = read size mem (a + b) n := by
  refine List.map_congr_left fun i _ => ?_
  rw [Nat.add_assoc, Nat.mod_add_mod, ← Nat.add_assoc]

theorem write_mod (size a b : Nat) (l : List α) (mem : Nat → α) :
    write size mem (a % size + b) l = write size mem (a + b) l := by
  induction l generalizing mem b with
  | nil => rfl
  | cons x l ih => rw [write, write, Nat.mod_add_mod, Nat.add_assoc, ih, Nat.add_assoc]

/-- Two stores next to each other. -/
theorem write_append (size a : Nat) (l₁ l₂ : List α) (mem : Nat → α) :
    write size mem a (l₁ ++ l₂) = write size (write size mem a l₁) (a + l₁.length) l₂ := by
  induction l₁ generalizing mem a with
  | nil => rfl
  | cons x l₁ ih =>
    rw [List.cons_append, write, write, ih, List.length_cons, Nat.add_assoc, Nat.add_comm 1]

theorem window_nil (size : Nat) (mem : Nat → α) (c : Nat) : Window size mem c [] :=
  ⟨Nat.zero_le _, fun i hi => absurd hi (Nat.not_lt_zero i)⟩

/-- The window grows by cells that hold whatever was there. -/
theorem Window.append_read (h : Window size mem c l) {n : Nat} (hn : l.length + n ≤ size) :
    Window size mem c (l ++ read size mem (c + l.length) n) := by
  constructor
  · rw [List.length_append, length_read]
    exact hn
  · intro i hi
    rw [List.length_append, length_read] at hi
    by_cases hl : i < l.length
    · rw [List.getElem?_append_left hl]
      exact h.cell i hl
    · rw [List.getElem?_append_right (Nat.le_of_not_lt hl), getElem?_read (by omega), Nat.add_assoc,
        Nat.add_sub_cancel' (Nat.le_of_not_lt hl)]

theorem Window.left (h : Window size mem c (l₁ ++ l₂)) : Window size mem c l₁ := by
  have hfits := h.fits
  rw [List.length_append] at hfits
  refine ⟨Nat.le_of_add_right_le hfits, fun i hi => ?_⟩
  have hcell := h.cell i (by rw [List.length_append]; omega)
  rwa [List.getElem?_append_left hi] at hcell

theorem Window.right (h : Window size mem c (l₁ ++ l₂)) : Window size mem (c + l₁.length) l₂ := by
  have hfits := h.fits
  rw [List.length_append] at hfits
  refine ⟨by omega, fun i hi => ?_⟩
  have hcell := h.cell (l₁.length + i) (by rw [List.length_append]; omega)
  rwa [List.getElem?_append_right (Nat.le_add_right _ _), Nat.add_sub_cancel_left,
    ← Nat.add_assoc] at hcell

theorem Window.read_eq (h : Window size mem c l) : read size mem c l.length = l := by
  refine List.ext_getElem? fun i => ?_
  by_cases hi : i < l.length
  · rw [getElem?_read hi, h.cell i hi]
  · rw [List.getElem?_eq_none (by rw [length_read]; omega), List.getElem?_eq_none (by omega)]

theorem cells_eq_read {a n : Nat} (h : a + n ≤ size) : cells mem a n = read size mem a n := by
  refine List.map_congr_left fun i hi => ?_
  have hlt : a + i < size := by
    have := List.mem_range.mp hi
    omega
  rw [Nat.mod_eq_of_lt hlt]

theorem Window.cells_eq (h : Window size mem c l) {a off n : Nat} (hn : off + n ≤ l.length)
    (ha : a % size = (c + off) % size) (hfit : a + n ≤ size) :
    cells mem a n = (l.drop off).take n := by
  have hoff : (l.take off).length = off := List.length_take_of_le (by omega)
  have hlen : ((l.drop off).take n).length = n := by
    rw [List.length_take_of_le]
    rw [List.length_drop]
    omega
  rw [← List.take_append_drop off l, ← List.take_append_drop n (l.drop off)] at h
  have hread := h.right.left.read_eq
  rw [hoff, hlen] at hread
  have hmod : ∀ b, read size mem (b % size) n = read size mem b n :=
    fun b => read_mod size mem b 0 n
  rw [cells_eq_read hfit, ← hmod, ha, hmod, hread]

/-- A piece of the window is overwritten, and the rest is as it was. -/
theorem Window.write {old new : List α} (h : Window size mem c (l₁ ++ (old ++ l₂)))
    (hlen : new.length = old.length) :
    Window size (write size mem (c + l₁.length) new) c (l₁ ++ (new ++ l₂)) := by
  have hfits := h.fits
  simp only [List.length_append] at hfits
  constructor
  · simp only [List.length_append]
    omega
  · intro i hi
    simp only [List.length_append] at hi
    have hcell := h.cell i (by simp only [List.length_append]; omega)
    by_cases hin : l₁.length ≤ i ∧ i < l₁.length + new.length
    · obtain ⟨j, rfl⟩ := Nat.exists_eq_add_of_le hin.1
      have hj : j < new.length := by omega
      rw [List.getElem?_append_right hin.1, Nat.add_sub_cancel_left, List.getElem?_append_left hj,
        ← Nat.add_assoc, write_self new mem _ (by omega) hj]
    · -- a cell beside the piece
      have hne : ∀ j < new.length, (c + l₁.length + j) % size ≠ (c + i) % size := by
        intro j hj heq
        rw [Nat.add_assoc] at heq
        have := add_mod_inj (by omega) (by omega) heq
        omega
      rw [write_of_ne new mem _ hne, ← hcell]
      by_cases hl : i < l₁.length
      · rw [List.getElem?_append_left hl, List.getElem?_append_left hl]
      · rw [List.getElem?_append_right (Nat.le_of_not_lt hl),
          List.getElem?_append_right (Nat.le_of_not_lt hl), List.getElem?_append_right (by omega),
          List.getElem?_append_right (by omega), hlen]

/-- The window grows by a list that is stored at its end. -/
theorem Window.append_write (h : Window size mem c l) {new : List α}
    (hn : l.length + new.length ≤ size) :
    Window size (Circular.write size mem (c + l.length) new) c (l ++ new) := by
  have hread := h.append_read hn
  rw [← List.append_nil (read _ _ _ _)] at hread
  have hwrite := hread.write (length_read size mem (c + l.length) new.length).symm
  rwa [List.append_nil] at hwrite

end NetworkAnalyse.Lib.Circular
