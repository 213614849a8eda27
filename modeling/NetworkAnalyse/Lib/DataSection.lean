import Mathlib.Data.List.GetD

/-!
# String constants in memory

A data section is an array of bytes.  The string functions work on offsets into
it, a byte at a time, as the C functions of the same names do: `memcpy` takes as
many bytes as it is asked for, whether or not the string ends before, and
`strcat` writes at the end of the string it is given.  A read past the end of
the section gives `0` and a write past it is lost.

* `StringAt d a s`: the section holds the string `s` at `a`.
* `strcat_eq`: what `strcat` writes, when the source does not lie across the end of
  the destination.
* `memcpy_eq_iff`: two copies are equal if the bytes copied are.
-/

namespace NetworkAnalyse.Lib

/-- The bytes of a string, without the zero. -/
def cstr (s : String) : List UInt8 := s.toList.map fun c => c.toNat.toUInt8

structure DataSection where
  bytes : List UInt8
  deriving DecidableEq, Repr

namespace DataSection

def load (d : DataSection) (a : Nat) : UInt8 := d.bytes.getD a 0

def store (d : DataSection) (a : Nat) (b : UInt8) : DataSection := ⟨d.bytes.set a b⟩

/-- The `n` bytes from `src` on. -/
def memcpy (d : DataSection) (src n : Nat) : Vector UInt8 n := Vector.ofFn fun i => d.load (src + i)

/-- The string at `a`, up to its zero. -/
def string (d : DataSection) (a : Nat) : List UInt8 := (d.bytes.drop a).takeWhile (· ≠ 0)

def strlen (d : DataSection) (a : Nat) : Nat := (d.string a).length

/-- `while ((*dst++ = *src++));`, at most `fuel` times. -/
def copyString : Nat → DataSection → Nat → Nat → DataSection
  | 0, d, _, _ => d
  | fuel + 1, d, dst, src =>
    let b := d.load src
    let d := d.store dst b
    if b = 0 then d else copyString fuel d (dst + 1) (src + 1)

/-- `strcat(dst, src)`.  The copy stops at the latest when `src` has left the section. -/
def strcat (d : DataSection) (dst src : Nat) : DataSection :=
  copyString (d.bytes.length + 1) d (dst + d.strlen dst) src

/-! ### Loads and stores -/

@[simp] theorem length_store (d : DataSection) (a : Nat) (b : UInt8) :
    (d.store a b).bytes.length = d.bytes.length := List.length_set

theorem load_store_self {d : DataSection} {a : Nat} (h : a < d.bytes.length) (b : UInt8) :
    (d.store a b).load a = b := by
  rw [load, store, List.getD_eq_getElem?_getD, List.getElem?_set_self h]
  rfl

theorem load_store_of_ne {d : DataSection} {a x : Nat} (h : x ≠ a) (b : UInt8) :
    (d.store a b).load x = d.load x := by
  rw [load, load, store, List.getD_eq_getElem?_getD, List.getElem?_set_ne (Ne.symm h),
    List.getD_eq_getElem?_getD]

theorem memcpy_eq_iff {d d' : DataSection} {src n : Nat} :
    d.memcpy src n = d'.memcpy src n ↔ ∀ i < n, d.load (src + i) = d'.load (src + i) := by
  constructor
  · intro h i hi
    have hi' := congrArg (fun v : Vector UInt8 n => v[i]) h
    simpa only [memcpy, Vector.getElem_ofFn] using hi'
  · intro h
    refine Vector.ext fun i hi => ?_
    simpa only [memcpy, Vector.getElem_ofFn] using h i hi

theorem toList_memcpy_succ (d : DataSection) (src n : Nat) :
    (d.memcpy src (n + 1)).toList = d.load src :: (d.memcpy (src + 1) n).toList := by
  simp only [memcpy, Vector.toList_ofFn, List.ofFn_succ]
  refine congrArg _ (congrArg _ (funext fun i => ?_))
  rw [Fin.val_succ, Nat.add_comm i.val 1, Nat.add_assoc]

/-- The bytes `bs` from `a` on. -/
def write (d : DataSection) : Nat → List UInt8 → DataSection
  | _, [] => d
  | a, b :: bs => (d.store a b).write (a + 1) bs

theorem length_write (d : DataSection) (a : Nat) (bs : List UInt8) :
    (d.write a bs).bytes.length = d.bytes.length := by
  induction bs generalizing d a with
  | nil => rfl
  | cons b bs ih => rw [write, ih, length_store]

theorem load_write_of_lt {d : DataSection} {a x : Nat} (bs : List UInt8) (h : x < a) :
    (d.write a bs).load x = d.load x := by
  induction bs generalizing d a with
  | nil => rfl
  | cons b bs ih => rw [write, ih (by omega), load_store_of_ne (by omega)]

theorem load_write_of_le {d : DataSection} {a x : Nat} {bs : List UInt8} (h : a + bs.length ≤ x) :
    (d.write a bs).load x = d.load x := by
  induction bs generalizing d a with
  | nil => rfl
  | cons b bs ih =>
    rw [List.length_cons] at h
    rw [write, ih (by omega), load_store_of_ne (by omega)]

theorem load_write {d : DataSection} {a i : Nat} {bs : List UInt8} (hi : i < bs.length)
    (hin : a + i < d.bytes.length) : (d.write a bs).load (a + i) = bs.getD i 0 := by
  induction bs generalizing d a i with
  | nil => cases hi
  | cons b bs ih =>
    cases i with
    | zero =>
      rw [write, load_write_of_lt _ (by omega), Nat.add_zero, load_store_self (by omega)]
      rfl
    | succ i =>
      rw [List.length_cons] at hi
      have hrec := ih (d := d.store a b) (a := a + 1) (i := i) (by omega)
        (by rw [length_store]; omega)
      rw [write, show a + (i + 1) = a + 1 + i by omega, hrec]
      rfl

/-! ### Strings -/

/-- The section holds the string `s` at `a`, with its terminating zero. -/
def StringAt (d : DataSection) : Nat → List UInt8 → Prop
  | a, [] => a < d.bytes.length ∧ d.load a = 0
  | a, c :: s => c ≠ 0 ∧ d.load a = c ∧ d.StringAt (a + 1) s

instance decidableStringAt (d : DataSection) :
    ∀ (a : Nat) (s : List UInt8), Decidable (d.StringAt a s)
  | _, [] => inferInstanceAs (Decidable (_ ∧ _))
  | a, _ :: s =>
    have := decidableStringAt d (a + 1) s
    inferInstanceAs (Decidable (_ ∧ _ ∧ _))

namespace StringAt

variable {d : DataSection} {a : Nat} {s : List UInt8}

theorem lt (h : d.StringAt a s) : a + s.length < d.bytes.length := by
  induction s generalizing a with
  | nil => exact h.1
  | cons c s ih =>
    have := ih h.2.2
    rw [List.length_cons]
    omega

theorem string_eq (h : d.StringAt a s) : d.string a = s := by
  induction s generalizing a with
  | nil =>
    obtain ⟨hlt, hz⟩ := h
    rw [load, List.getD_eq_getElem _ _ hlt] at hz
    rw [string, List.drop_eq_getElem_cons hlt, List.takeWhile_cons_of_neg (by simp [hz])]
  | cons c s ih =>
    obtain ⟨hc, hload, hs⟩ := h
    have hlt : a < d.bytes.length := by
      have := hs.lt
      omega
    rw [load, List.getD_eq_getElem _ _ hlt] at hload
    rw [string, List.drop_eq_getElem_cons hlt, List.takeWhile_cons_of_pos (by simp [hload, hc]),
      hload]
    exact congrArg (c :: ·) (ih hs)

theorem strlen_eq (h : d.StringAt a s) : d.strlen a = s.length := by
  rw [strlen, h.string_eq]

theorem drop (h : d.StringAt a s) {k : Nat} (hk : k ≤ s.length) :
    d.StringAt (a + k) (s.drop k) := by
  induction k generalizing a s with
  | zero => exact h
  | succ k ih =>
    cases s with
    | nil => cases hk
    | cons c s =>
      rw [List.drop_succ_cons, show a + (k + 1) = a + 1 + k by omega]
      exact ih h.2.2 (by rw [List.length_cons] at hk; omega)

theorem load_end (h : d.StringAt a s) : d.load (a + s.length) = 0 := by
  have hend := h.drop (Nat.le_refl s.length)
  rw [List.drop_length] at hend
  exact hend.2

theorem load_ne_zero (h : d.StringAt a s) {k : Nat} (hk : k < s.length) : d.load (a + k) ≠ 0 := by
  have hrest := h.drop (Nat.le_of_lt hk)
  rw [List.drop_eq_getElem_cons hk] at hrest
  rw [hrest.2.1]
  exact hrest.1

theorem not_mem_zero (h : d.StringAt a s) : (0 : UInt8) ∉ s := by
  induction s generalizing a with
  | nil => exact List.not_mem_nil
  | cons c s ih =>
    rw [List.mem_cons, not_or]
    exact ⟨Ne.symm h.1, ih h.2.2⟩

theorem unique {t : List UInt8} (h : d.StringAt a s) (h' : d.StringAt a t) : s = t := by
  induction s generalizing a t with
  | nil =>
    cases t with
    | nil => rfl
    | cons c t => exact absurd (h'.2.1.symm.trans h.2) h'.1
  | cons c s ih =>
    cases t with
    | nil => exact absurd (h.2.1.symm.trans h'.2) h.1
    | cons c' t => rw [← h.2.1, ← h'.2.1, ih h.2.2 h'.2.2]

/-- Two strings of which neither ends in the other do not overlap. -/
theorem disjoint {b : Nat} {t : List UInt8} (h : d.StringAt a s) (h' : d.StringAt b t)
    (hst : ¬ s <:+ t) (hts : ¬ t <:+ s) : a + s.length < b ∨ b + t.length < a := by
  refine Decidable.byContradiction fun hmeet => ?_
  rw [not_or, Nat.not_lt, Nat.not_lt] at hmeet
  -- otherwise the string that starts first has its end in common with the other
  have hend : a + s.length = b + t.length := by
    rcases Nat.lt_trichotomy (a + s.length) (b + t.length) with hlt | heq | hlt
    · have hz := h'.load_ne_zero (k := a + s.length - b) (by omega)
      rw [Nat.add_sub_cancel' hmeet.1] at hz
      exact absurd h.load_end hz
    · exact heq
    · have hz := h.load_ne_zero (k := b + t.length - a) (by omega)
      rw [Nat.add_sub_cancel' hmeet.2] at hz
      exact absurd h'.load_end hz
  rcases Nat.le_total a b with hab | hab
  · refine hts ?_
    have hrest := h.drop (k := b - a) (by omega)
    rw [Nat.add_sub_cancel' hab] at hrest
    rw [← hrest.unique h']
    exact List.drop_suffix _ _
  · refine hst ?_
    have hrest := h'.drop (k := a - b) (by omega)
    rw [Nat.add_sub_cancel' hab] at hrest
    rw [← hrest.unique h]
    exact List.drop_suffix _ _

/-- A store next to the string leaves it alone. -/
theorem store (h : d.StringAt a s) {x : Nat} (hx : x < a ∨ a + s.length < x) (b : UInt8) :
    (d.store x b).StringAt a s := by
  induction s generalizing a with
  | nil =>
    rw [List.length_nil] at hx
    refine ⟨?_, ?_⟩
    · rw [length_store]
      exact h.1
    · rw [load_store_of_ne (by omega)]
      exact h.2
  | cons c s ih =>
    rw [List.length_cons] at hx
    refine ⟨h.1, ?_, ih h.2.2 (by omega)⟩
    rw [load_store_of_ne (by omega)]
    exact h.2.1

theorem shift {bs : List UInt8} (h : (⟨bs⟩ : DataSection).StringAt a s) (x : List UInt8) :
    (⟨x ++ bs⟩ : DataSection).StringAt (x.length + a) s := by
  have hload : ∀ k, (⟨x ++ bs⟩ : DataSection).load (x.length + k) =
      (⟨bs⟩ : DataSection).load k := by
    intro k
    show (x ++ bs).getD (x.length + k) 0 = bs.getD k 0
    rw [List.getD_append_right _ _ _ _ (Nat.le_add_right _ _), Nat.add_sub_cancel_left]
  induction s generalizing a with
  | nil =>
    refine ⟨?_, (hload a).trans h.2⟩
    have hlt : a < bs.length := h.1
    show x.length + a < (x ++ bs).length
    rw [List.length_append]
    omega
  | cons c s ih => exact ⟨h.1, (hload a).trans h.2.1, ih h.2.2⟩

/-- The bytes copied from a string start with the string. -/
theorem takeWhile_memcpy (h : d.StringAt a s) {n : Nat} (hn : s.length < n) :
    (d.memcpy a n).toList.takeWhile (· ≠ 0) = s := by
  induction s generalizing a n with
  | nil =>
    obtain ⟨n, rfl⟩ : ∃ k, n = k + 1 := ⟨n - 1, by rw [List.length_nil] at hn; omega⟩
    rw [toList_memcpy_succ, List.takeWhile_cons_of_neg (by simp [h.2])]
  | cons c s ih =>
    rw [List.length_cons] at hn
    obtain ⟨n, rfl⟩ : ∃ k, n = k + 1 := ⟨n - 1, by omega⟩
    rw [toList_memcpy_succ, h.2.1, List.takeWhile_cons_of_pos (by simp [h.1]),
      ih h.2.2 (by omega)]

end StringAt

theorem stringAt_zero {s : List UInt8} (hs : (0 : UInt8) ∉ s) (rest : List UInt8) :
    (⟨s ++ 0 :: rest⟩ : DataSection).StringAt 0 s := by
  induction s with
  | nil => exact ⟨Nat.succ_pos _, rfl⟩
  | cons c s ih =>
    rw [List.mem_cons, not_or] at hs
    exact ⟨Ne.symm hs.1, rfl, (ih hs.2).shift [c]⟩

theorem stringAt_write {d : DataSection} {a : Nat} {s : List UInt8} (hs : (0 : UInt8) ∉ s)
    (hin : a + s.length < d.bytes.length) : (d.write a (s ++ [0])).StringAt a s := by
  induction s generalizing d a with
  | nil =>
    rw [List.length_nil] at hin
    refine ⟨?_, load_store_self (by omega) 0⟩
    rw [length_write]
    exact hin
  | cons c s ih =>
    rw [List.mem_cons, not_or] at hs
    rw [List.length_cons] at hin
    refine ⟨Ne.symm hs.1, ?_, ?_⟩
    · rw [List.cons_append, write, load_write_of_lt _ (by omega), load_store_self (by omega)]
    · refine ih hs.2 ?_
      rw [length_store]
      omega

/-- Writing a string over the end of another appends it. -/
theorem StringAt.append {d : DataSection} {a : Nat} {s t : List UInt8} (ht : d.StringAt a t)
    (hs : (0 : UInt8) ∉ s) (hin : a + t.length + s.length < d.bytes.length) :
    (d.write (a + t.length) (s ++ [0])).StringAt a (t ++ s) := by
  induction t generalizing a with
  | nil => exact stringAt_write hs hin
  | cons c t ih =>
    have hlen : a + (c :: t).length = a + 1 + t.length := by
      rw [List.length_cons]
      omega
    rw [hlen] at hin ⊢
    refine ⟨ht.1, ?_, ih ht.2.2 hin⟩
    rw [load_write_of_lt _ (by omega)]
    exact ht.2.1

/-- Copying a string down, or to a place after its end, writes the string. -/
theorem copyString_eq {s : List UInt8} {fuel : Nat} {d : DataSection} {dst src : Nat}
    (h : d.StringAt src s) (hfuel : s.length < fuel) (hdst : dst ≤ src ∨ src + s.length < dst) :
    copyString fuel d dst src = d.write dst (s ++ [0]) := by
  induction s generalizing fuel d dst src with
  | nil =>
    obtain ⟨fuel, rfl⟩ : ∃ n, fuel = n + 1 := ⟨fuel - 1, by rw [List.length_nil] at hfuel; omega⟩
    rw [copyString, h.2, if_pos rfl]
    rfl
  | cons c s ih =>
    rw [List.length_cons] at hfuel hdst
    obtain ⟨fuel, rfl⟩ : ∃ n, fuel = n + 1 := ⟨fuel - 1, by omega⟩
    obtain ⟨hc, hload, hs⟩ := h
    rw [copyString, hload, if_neg hc, List.cons_append, write]
    exact ih (hs.store (by omega) c) (by omega) (by omega)

theorem strcat_eq {d : DataSection} {dst src : Nat} {s t : List UInt8} (ht : d.StringAt dst t)
    (hs : d.StringAt src s) (hdisj : dst + t.length ≤ src ∨ src + s.length < dst + t.length) :
    d.strcat dst src = d.write (dst + t.length) (s ++ [0]) := by
  rw [strcat, ht.strlen_eq]
  refine copyString_eq hs ?_ hdisj
  have := hs.lt
  omega

end DataSection

end NetworkAnalyse.Lib
