import NetworkAnalyse.Lib.Bytes
import NetworkAnalyse.Lib.Circular
import NetworkAnalyse.Lib.Prog

/-!
# The ring buffer in memory

`lib/libbpf/src/ringbuf.c`.  The kernel and the process share a data area of `2 ^ order`
bytes and two positions that only grow.  A record is a header of eight bytes, whose first
word is the length with two flags, and the sample.  The data area is mapped twice in a row, so
that a record that goes around the end is contiguous: the byte at the address `a` is the
cell `a % 2 ^ order`.

* `processRing`: `ringbuf_process_ring`, which gives the samples to the callback.
* `Ring.reserve`, `Ring.submit`: what `bpf_ringbuf_reserve` and `bpf_ringbuf_submit` do to the
  memory.
* `Ring.Holds`: the bytes of the records that are in the ring, with what the operations do
  to them.

The positions are `unsigned long` in the source and never wrap here: what is proved of them
is about rings in which fewer than `2 ^ 64` bytes have been reserved.
-/

namespace NetworkAnalyse.Libbpf

open Lib Lib.Bytes Lib.Circular

/-- `BPF_RINGBUF_BUSY_BIT`. -/
def busyBit : UInt32 := 0x80000000
/-- `BPF_RINGBUF_DISCARD_BIT`. -/
def discardBit : UInt32 := 0x40000000
/-- `BPF_RINGBUF_HDR_SZ`. -/
def hdrSz : Nat := 8

def roundupLen (len : UInt32) : UInt32 :=
  -- clear the two flags
  let len := len <<< 2
  let len := len >>> 2
  let len := len + 8
  (len + 7) / 8 * 8

/-! ### The consumer -/

inductive RingOp
  /-- negative: `-errno` -/
  | epollWait
  | loadConsumerPos
  | loadProducerPos
  | loadLen (lenPtr : Nat)
  | sampleCb (sample : Nat) (len : UInt32)
  | storeConsumerPos (pos : Nat)

@[reducible] def RingOp.Res : RingOp → Type
  | epollWait => Int
  | loadConsumerPos => Nat
  | loadProducerPos => Nat
  | loadLen _ => UInt32
  | sampleCb _ _ => Int
  | storeConsumerPos _ => Unit

abbrev RingProg := Prog RingOp RingOp.Res

def loadLen (lenPtr : Nat) : RingProg UInt32 := .perform (RingOp.loadLen lenPtr)
def sampleCb (sample : Nat) (len : UInt32) : RingProg Int := .perform (RingOp.sampleCb sample len)
def storeConsumerPos (pos : Nat) : RingProg Unit := .perform (RingOp.storeConsumerPos pos)

/-- The two nested loops of `ringbuf_process_ring`, a record or a look at the producer's
position at a time.  Producers that are fast enough keep the loops going for ever; `none` is
where the model stops to look. -/
def scan (order : Nat) : Nat → Nat → Nat → Bool → Int → RingProg (Option Int)
  | 0, _, _, _, _ => return none
  | fuel + 1, consPos, prodPos, gotNewData, cnt =>
    if consPos < prodPos then do
      let lenPtr := consPos &&& (2 ^ order - 1)
      let len ← loadLen lenPtr
      -- the sample is not committed yet
      if len &&& busyBit ≠ 0 then
        return some cnt
      let consPos := consPos + (roundupLen len).toNat
      if len &&& discardBit = 0 then
        let err ← sampleCb (lenPtr + hdrSz) len
        if err < 0 then
          storeConsumerPos consPos
          return some err
        storeConsumerPos consPos
        scan order fuel consPos prodPos true (cnt + 1)
      else
        storeConsumerPos consPos
        scan order fuel consPos prodPos true cnt
    else if gotNewData then do
      let prodPos ← .perform .loadProducerPos
      scan order fuel consPos prodPos false cnt
    else return some cnt

def processRing (order fuel : Nat) : RingProg (Option Int) := do
  let consPos ← .perform .loadConsumerPos
  let prodPos ← .perform .loadProducerPos
  scan order fuel consPos prodPos false 0

/-- `ring_buffer__poll` for a buffer with one ring: there is at most one event. -/
def ringBufferPoll (order fuel : Nat) : RingProg (Option Int) := do
  let cnt ← .perform .epollWait
  if cnt < 0 then
    return some cnt
  if cnt = 0 then
    return some 0
  match ← processRing order fuel with
  | none => return none
  | some res => return some (if 2147483647 < res then 2147483647 else res)

/-! ### The memory -/

structure Ring where
  data : Nat → UInt8
  consumerPos : Nat
  producerPos : Nat

namespace Ring

variable (order : Nat)

/-- A ring in which nothing has been reserved; the memory holds anything. -/
def boot (data : Nat → UInt8) : Ring := ⟨data, 0, 0⟩

/-- The word at an address. -/
def load (r : Ring) (a : Nat) : UInt32 := load32 (read (2 ^ order) r.data a 4) 0

/-- A store. -/
def put (r : Ring) (a : Nat) (bytes : List UInt8) : Ring :=
  { r with data := write (2 ^ order) r.data a bytes }

/-- The kernel writes the header with the flag that the record is not committed, and gives
the address of the sample.  `pgOff` is the second word of the header. -/
def reserve (size pgOff : UInt32) (r : Ring) : Option (Nat × Ring) :=
  let len := (roundupLen size).toNat
  if 2 ^ order - 1 < r.producerPos + len - r.consumerPos then none
  else
    let a := r.producerPos &&& (2 ^ order - 1)
    some (a + hdrSz, { r.put order a (bytes32 (size ||| busyBit) ++ bytes32 pgOff) with
      producerPos := r.producerPos + len })

/-- The kernel finds the header in front of the sample and flips the flag. -/
def submit (sample : Nat) (r : Ring) : Ring :=
  let a := sample - hdrSz
  r.put order a (bytes32 (r.load order a ^^^ busyBit))

/-- Bytes at the producer's position, which moves on. -/
def append (r : Ring) (bytes : List UInt8) : Ring :=
  { r.put order r.producerPos bytes with producerPos := r.producerPos + bytes.length }

end Ring

/-! ### The records in the ring -/

theorem toNat_roundupLen (len : UInt32) :
    (roundupLen len).toNat = (len.toNat % 1073741824 + 15) / 8 * 8 := by
  have hlen := len.toNat_lt
  simp only [roundupLen, UInt32.toNat_mul, UInt32.toNat_div, UInt32.toNat_add,
    UInt32.toNat_shiftRight, UInt32.toNat_shiftLeft, UInt32.reduceToNat, Nat.shiftLeft_eq,
    Nat.shiftRight_eq_div_pow, Nat.reduceMod, Nat.reducePow]
  omega

/-- The bytes of the records that are in the ring, from the consumer's position to the
producer's. -/
structure Ring.Holds (order : Nat) (r : Ring) (chunks : List (List UInt8)) : Prop where
  window : Window (2 ^ order) r.data r.consumerPos chunks.flatten
  producer : r.producerPos = r.consumerPos + chunks.flatten.length
  room : chunks.flatten.length ≤ 2 ^ order - 1

namespace Ring

variable {order : Nat} {r r' : Ring} {chunks pre post : List (List UInt8)}

theorem put_put (r : Ring) (a : Nat) (l₁ l₂ : List UInt8) :
    (r.put order a l₁).put order (a + l₁.length) l₂ = r.put order a (l₁ ++ l₂) := by
  rw [put, put, put, write_append]

theorem holds_boot (order : Nat) (data : Nat → UInt8) : (boot data).Holds order [] :=
  ⟨window_nil _ _ _, rfl, Nat.zero_le _⟩

/-- A reservation appends a record with whatever was in the memory as its sample. -/
theorem Holds.reserve {size pgOff : UInt32} {e : Nat} (h : r.Holds order chunks)
    (hr : r.reserve order size pgOff = some (e, r')) :
    e = r.producerPos % 2 ^ order + hdrSz ∧ r'.consumerPos = r.consumerPos ∧
      ∃ sample, sample.length + 8 = (roundupLen size).toNat ∧
        r'.Holds order (chunks ++ [bytes32 (size ||| busyBit) ++ (bytes32 pgOff ++ sample)]) := by
  have hlen : 8 ≤ (roundupLen size).toNat := by
    rw [toNat_roundupLen]
    omega
  rw [Ring.reserve, Option.ite_none_left_eq_some] at hr
  obtain ⟨hroom, hr⟩ := hr
  obtain ⟨rfl, rfl⟩ := Prod.mk.inj (Option.some.inj hr)
  have hpow := Nat.two_pow_pos order
  have hprod := h.producer
  -- the new cells, in two pieces
  have hnew := h.window.append_read (n := (roundupLen size).toNat) (by omega)
  generalize hcells : read (2 ^ order) r.data (r.consumerPos + chunks.flatten.length)
    (roundupLen size).toNat = cells at hnew
  have hcount : cells.length = (roundupLen size).toNat := by rw [← hcells, length_read]
  rw [← List.take_append_drop 8 cells] at hnew
  have hheader : (bytes32 (size ||| busyBit) ++ bytes32 pgOff).length = (cells.take 8).length := by
    rw [List.length_take, hcount, Nat.min_eq_left hlen]
    rfl
  have hwrite := hnew.write hheader
  refine ⟨?_, rfl, cells.drop 8, ?_, ?_, ?_, ?_⟩
  · rw [Nat.and_two_pow_sub_one_eq_mod]
  · rw [List.length_drop, hcount]
    omega
  · rw [List.flatten_append, List.flatten_singleton, ← List.append_assoc (bytes32 _)]
    show Window _ (write _ _ _ _) _ _
    have hmod := write_mod (2 ^ order) r.producerPos 0 (bytes32 (size ||| busyBit) ++ bytes32 pgOff)
      r.data
    rw [Nat.add_zero, Nat.add_zero] at hmod
    rw [Nat.and_two_pow_sub_one_eq_mod, hmod, hprod]
    exact hwrite
  · show r.producerPos + _ = r.consumerPos + _
    simp only [List.flatten_append, List.flatten_singleton, List.length_append, length_bytes32,
      List.length_drop, hcount]
    omega
  · simp only [List.flatten_append, List.flatten_singleton, List.length_append, length_bytes32,
      List.length_drop, hcount]
    omega

/-- A piece of a record is overwritten. -/
theorem Holds.put {a b old new : List UInt8}
    (h : r.Holds order (pre ++ (a ++ (old ++ b)) :: post)) (hlen : new.length = old.length) :
    (r.put order ((r.consumerPos + pre.flatten.length) % 2 ^ order + a.length) new).Holds order
      (pre ++ (a ++ (new ++ b)) :: post) := by
  have hflat : ∀ l, (pre ++ (a ++ (l ++ b)) :: post).flatten =
      (pre.flatten ++ a) ++ (l ++ (b ++ post.flatten)) := by
    intro l
    simp only [List.flatten_append, List.flatten_cons, List.append_assoc]
  have hcount : (pre ++ (a ++ (new ++ b)) :: post).flatten.length =
      (pre ++ (a ++ (old ++ b)) :: post).flatten.length := by
    rw [hflat, hflat]
    simp only [List.length_append, hlen]
  refine ⟨?_, ?_, ?_⟩
  · have hw := h.window
    rw [hflat] at hw ⊢
    show Window _ (write _ _ _ _) _ _
    rw [write_mod, Nat.add_assoc, ← List.length_append]
    exact hw.write hlen
  · rw [hcount]
    exact h.producer
  · rw [hcount]
    exact h.room

/-- A piece of a record is read. -/
theorem Holds.read_eq {a b c : List UInt8} (h : r.Holds order (pre ++ (a ++ (b ++ c)) :: post)) :
    read (2 ^ order) r.data ((r.consumerPos + pre.flatten.length) % 2 ^ order + a.length) b.length =
      b := by
  have hw := h.window
  simp only [List.flatten_append, List.flatten_cons, List.append_assoc] at hw
  have hb := hw.right.right.left.read_eq
  rw [read_mod]
  exact hb

/-- The consumer moves on by a record. -/
theorem Holds.advance {chunk : List UInt8} (h : r.Holds order (chunk :: chunks)) :
    Holds order { r with consumerPos := r.consumerPos + chunk.length } chunks := by
  have hw := h.window
  have hp := h.producer
  have hr := h.room
  rw [List.flatten_cons] at hw
  rw [List.flatten_cons, List.length_append] at hp hr
  exact ⟨hw.right, by simp only; omega, by omega⟩

theorem Holds.advances (h : r.Holds order (pre ++ post)) :
    Holds order { r with consumerPos := r.consumerPos + pre.flatten.length } post := by
  induction pre generalizing r with
  | nil => exact h
  | cons chunk pre ih =>
    have h' := ih h.advance
    rw [List.flatten_cons, List.length_append, ← Nat.add_assoc]
    exact h'

theorem Holds.append {bytes : List UInt8} (h : r.Holds order chunks)
    (hroom : chunks.flatten.length + bytes.length ≤ 2 ^ order - 1) :
    (r.append order bytes).Holds order (chunks ++ [bytes]) := by
  have hpow := Nat.two_pow_pos order
  have hp := h.producer
  refine ⟨?_, ?_, ?_⟩
  · rw [List.flatten_append, List.flatten_singleton]
    show Window _ (write _ _ r.producerPos _) _ _
    rw [hp]
    exact h.window.append_write (by omega)
  · show r.producerPos + bytes.length = r.consumerPos + _
    rw [List.flatten_append, List.flatten_singleton, List.length_append]
    omega
  · rw [List.flatten_append, List.flatten_singleton, List.length_append]
    exact hroom

/-- A piece of a record that does not go around the end. -/
theorem Holds.cells_eq {chunk : List UInt8} (h : r.Holds order (pre ++ chunk :: post))
    {a off n : Nat} (hn : off + n ≤ chunk.length)
    (ha : a % 2 ^ order = (r.consumerPos + pre.flatten.length + off) % 2 ^ order)
    (hfit : a + n ≤ 2 ^ order) :
    cells r.data a n = (chunk.drop off).take n := by
  have hw := h.window
  rw [List.flatten_append, List.flatten_cons] at hw
  exact hw.right.left.cells_eq hn ha hfit

/-- The flag of a record that is being written is flipped. -/
theorem Holds.submit {w : UInt32} {b : List UInt8}
    (h : r.Holds order (pre ++ (bytes32 w ++ b) :: post)) :
    (r.submit order ((r.consumerPos + pre.flatten.length) % 2 ^ order + hdrSz)).Holds order
      (pre ++ (bytes32 (w ^^^ busyBit) ++ b) :: post) := by
  have h' : r.Holds order (pre ++ ([] ++ (bytes32 w ++ b)) :: post) := h
  have hload : r.load order ((r.consumerPos + pre.flatten.length) % 2 ^ order) = w := by
    have hread := h'.read_eq
    rw [List.length_nil, Nat.add_zero, length_bytes32] at hread
    rw [load, hread, ← List.append_nil (bytes32 w), load32_bytes32]
  have hlen : (bytes32 (w ^^^ busyBit)).length = (bytes32 w).length := rfl
  have hput := h'.put hlen
  rw [List.length_nil, Nat.add_zero] at hput
  rw [Ring.submit, Nat.add_sub_cancel, hload]
  exact hput

end Ring

end NetworkAnalyse.Libbpf
