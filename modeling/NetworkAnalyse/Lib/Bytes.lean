import Mathlib.Data.Nat.Init
import Mathlib.Data.UInt

/-!
# Bytes of a packet

Loads from a list of bytes on a little-endian machine, the bytes of a word, and the
byte swap between the machine's order and the order of the network.  A load past
the end gives zeros; the programs check the bounds before they load.

A store replaces as many bytes as it writes.  Lists of bytes are taken apart into
appended pieces: `load16_append` reads a piece, `put_append` replaces one, and `load16_skip`
finds the member of a struct at its offset.
-/

namespace NetworkAnalyse.Lib.Bytes

variable (f : List UInt8)

def load8 (a : Nat) : UInt8 := f.getD a 0

def load16 (a : Nat) : UInt16 := .ofNat ((load8 f a).toNat + 256 * (load8 f (a + 1)).toNat)

def load32 (a : Nat) : UInt32 := .ofNat ((load16 f a).toNat + 65536 * (load16 f (a + 2)).toNat)

/-- The bytes of a word, in the order in which they lie in memory. -/
def bytes32 (x : UInt32) : List UInt8 :=
  [x.toUInt8, (x >>> 8).toUInt8, (x >>> 16).toUInt8, (x >>> 24).toUInt8]

/-- `ntohs`, `bpf_ntohs` and `bpf_htons`. -/
def bswap16 (x : UInt16) : UInt16 := .ofNat (256 * (x.toNat % 256) + x.toNat / 256)

theorem toNat_bswap16 (x : UInt16) : (bswap16 x).toNat = 256 * (x.toNat % 256) + x.toNat / 256 := by
  have h := x.toNat_lt
  rw [bswap16, UInt16.toNat_ofNat_of_lt']
  show _ < 65536
  omega

theorem bswap16_inj {x y : UInt16} : bswap16 x = bswap16 y ↔ x = y := by
  constructor
  · intro h
    have hn := congrArg UInt16.toNat h
    rw [toNat_bswap16, toNat_bswap16] at hn
    have hx := x.toNat_lt
    have hy := y.toNat_lt
    exact UInt16.toNat_inj.mp (by omega)
  · intro h
    rw [h]

@[simp] theorem bswap16_bswap16 (x : UInt16) : bswap16 (bswap16 x) = x := by
  have hx := x.toNat_lt
  apply UInt16.toNat_inj.mp
  rw [toNat_bswap16, toNat_bswap16]
  omega

theorem ofInt_toNat (x : UInt16) : UInt16.ofInt (x.toNat : Int) = x := by
  have hx := x.toNat_lt
  rw [UInt16.ofInt, Int.emod_eq_of_lt (by omega) (by omega), Int.toNat_natCast, UInt16.ofNat_toNat]

/-! ### Words in a list of bytes -/

/-- The bytes of a 16-bit word. -/
def bytes16 (x : UInt16) : List UInt8 := [x.toUInt8, (x >>> 8).toUInt8]

@[simp] theorem length_bytes16 (x : UInt16) : (bytes16 x).length = 2 := rfl

variable {f}

theorem load16_bytes16 (x : UInt16) (post : List UInt8) : load16 (bytes16 x ++ post) 0 = x := by
  have hx := x.toNat_lt
  apply UInt16.toNat_inj.mp
  simp [load16, load8, bytes16, Nat.shiftRight_eq_div_pow]
  omega

theorem exists_bytes16 {l : List UInt8} (h : l.length = 2) : ∃ x, l = bytes16 x := by
  obtain ⟨a, b, rfl⟩ := List.length_eq_two.mp h
  refine ⟨.ofNat (a.toNat + 256 * b.toNat), ?_⟩
  have ha := a.toNat_lt
  have hb := b.toNat_lt
  simp [bytes16, ← UInt8.toNat_inj, Nat.shiftRight_eq_div_pow]
  omega

theorem load8_append (pre post : List UInt8) (a : Nat) :
    load8 (pre ++ post) (pre.length + a) = load8 post a := by
  rw [load8, List.getD_eq_getElem?_getD, List.getElem?_append_right (Nat.le_add_right _ _),
    Nat.add_sub_cancel_left, load8, List.getD_eq_getElem?_getD]

theorem load16_append (pre post : List UInt8) (a : Nat) :
    load16 (pre ++ post) (pre.length + a) = load16 post a := by
  rw [load16, Nat.add_assoc, load8_append, load8_append, load16]

theorem exists_split {l : List UInt8} {n : Nat} (h : n ≤ l.length) :
    ∃ a b, a.length = n ∧ l = a ++ b :=
  ⟨l.take n, l.drop n, List.length_take_of_le h, (List.take_append_drop n l).symm⟩

/-- Overwrite the bytes from `a` on. -/
def put (f : List UInt8) (a : Nat) (bytes : List UInt8) : List UInt8 :=
  f.take a ++ (bytes ++ f.drop (a + bytes.length))

theorem length_put {a : Nat} {bytes : List UInt8} (h : a + bytes.length ≤ f.length) :
    (put f a bytes).length = f.length := by
  simp only [put, List.length_append, List.length_take, List.length_drop]
  omega

theorem put_append (pre post : List UInt8) {old new : List UInt8} (h : old.length = new.length) :
    put (pre ++ (old ++ post)) pre.length new = pre ++ (new ++ post) := by
  have hdrop : (pre ++ (old ++ post)).drop (pre.length + old.length) = post := by
    rw [← List.append_assoc, ← List.length_append, List.drop_left]
  rw [put, List.take_left, ← h, hdrop]

/-- The bytes up to the end of the piece that has been overwritten. -/
theorem take_put {a : Nat} (h : a ≤ f.length) (bytes : List UInt8) :
    (put f a bytes).take (a + bytes.length) = f.take a ++ bytes := by
  rw [put, ← List.append_assoc]
  refine List.take_left' ?_
  rw [List.length_append, List.length_take_of_le h]

/-! ### Longer words -/

def load64 (f : List UInt8) (a : Nat) : UInt64 :=
  .ofNat ((load32 f a).toNat + 4294967296 * (load32 f (a + 4)).toNat)

def bytes64 (x : UInt64) : List UInt8 := bytes32 x.toUInt32 ++ bytes32 (x >>> 32).toUInt32

@[simp] theorem length_bytes32 (x : UInt32) : (bytes32 x).length = 4 := rfl

@[simp] theorem length_bytes64 (x : UInt64) : (bytes64 x).length = 8 := rfl

theorem load32_append (pre post : List UInt8) (a : Nat) :
    load32 (pre ++ post) (pre.length + a) = load32 post a := by
  rw [load32, Nat.add_assoc, load16_append, load16_append, load32]

theorem load64_append (pre post : List UInt8) (a : Nat) :
    load64 (pre ++ post) (pre.length + a) = load64 post a := by
  rw [load64, Nat.add_assoc, load32_append, load32_append, load64]

theorem load32_bytes32 (x : UInt32) (post : List UInt8) : load32 (bytes32 x ++ post) 0 = x := by
  have hx := x.toNat_lt
  apply UInt32.toNat_inj.mp
  simp [load32, load16, load8, bytes32, Nat.shiftRight_eq_div_pow]
  omega

theorem load64_bytes64 (x : UInt64) (post : List UInt8) : load64 (bytes64 x ++ post) 0 = x := by
  have hx := x.toNat_lt
  have hhigh := load32_append (bytes32 x.toUInt32) (bytes32 (x >>> 32).toUInt32 ++ post) 0
  rw [length_bytes32, load32_bytes32] at hhigh
  apply UInt64.toNat_inj.mp
  rw [load64, bytes64, List.append_assoc, load32_bytes32, hhigh]
  simp [Nat.shiftRight_eq_div_pow]
  omega

/-! ### Members of a struct -/

section Members

variable {pre post : List UInt8} {a : Nat}

theorem load16_skip (h : pre.length ≤ a) :
    load16 (pre ++ post) a = load16 post (a - pre.length) := by
  have happ := load16_append pre post (a - pre.length)
  rwa [Nat.add_sub_cancel' h] at happ

theorem load32_skip (h : pre.length ≤ a) :
    load32 (pre ++ post) a = load32 post (a - pre.length) := by
  have happ := load32_append pre post (a - pre.length)
  rwa [Nat.add_sub_cancel' h] at happ

theorem load64_skip (h : pre.length ≤ a) :
    load64 (pre ++ post) a = load64 post (a - pre.length) := by
  have happ := load64_append pre post (a - pre.length)
  rwa [Nat.add_sub_cancel' h] at happ

/-- An array of `char` at its offset. -/
def chars (f : List UInt8) (a n : Nat) : Vector UInt8 n := .ofFn fun i => load8 f (a + i)

theorem chars_skip (h : pre.length ≤ a) (n : Nat) :
    chars (pre ++ post) a n = chars post (a - pre.length) n := by
  refine congrArg Vector.ofFn (funext fun i => ?_)
  have happ := load8_append pre post (a - pre.length + i)
  rwa [← Nat.add_assoc, Nat.add_sub_cancel' h] at happ

theorem chars_toList {n : Nat} (v : Vector UInt8 n) : chars (v.toList ++ post) 0 n = v := by
  apply Vector.ext
  intro i hi
  have hlen : i < v.toList.length := by rw [Vector.length_toList]; exact hi
  rw [chars, Vector.getElem_ofFn, Nat.zero_add, load8, List.getD_eq_getElem?_getD,
    List.getElem?_append_left hlen, List.getElem?_eq_getElem hlen, Option.getD_some,
    Vector.getElem_toList]

end Members

end NetworkAnalyse.Lib.Bytes
