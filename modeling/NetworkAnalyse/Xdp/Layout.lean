import Mathlib.Data.List.Forall2
import NetworkAnalyse.Libbpf.Ringbuf
import NetworkAnalyse.Xdp.Kern

/-!
# The records of the monitor in memory

`xdp_prog` writes a `struct packet_info` of 24 bytes into `packet_ringbuf`, a member at a time,
and `handle_event` of `xdp_packet_load.c` reads it through a pointer of that type.  `Shows`
reads the bytes of the ring as slots: the slots that are in the ring, from the first one
that the consumer has not taken.  Its lemmas say what each operation on the bytes does to the slots.

* `ring_refines`: the bytes implement the ring of slots that `Kern` is built on.
-/

namespace NetworkAnalyse.Xdp

open Lib Lib.Bytes Lib.Circular Libbpf

/-- `sizeof(struct packet_info)`; the last member is aligned to eight bytes. -/
def packetInfoSize : UInt32 := 24

/-- The members of a `struct packet_info` in memory. -/
def PacketInfo.ofBytes (l : List UInt8) : PacketInfo where
  srcIp := load32 l 0
  dstIp := load32 l 4
  srcPort := load16 l 8
  dstPort := load16 l 10
  timestamp := load64 l 16

/-- The record at an address of the ring. -/
def infoAt (order : Nat) (r : Ring) (a : Nat) : PacketInfo :=
  .ofBytes (read (2 ^ order) r.data a 24)

/-- The stores `e->src_ip = p.src_ip; …`, each at the offset of the member. -/
def storeInfo (order : Nat) (e : Nat) (p : PacketInfo) (r : Ring) : Ring :=
  let r := r.put order e (bytes32 p.srcIp)
  let r := r.put order (e + 4) (bytes32 p.dstIp)
  let r := r.put order (e + 8) (bytes16 p.srcPort)
  let r := r.put order (e + 10) (bytes16 p.dstPort)
  r.put order (e + 16) (bytes64 p.timestamp)

/-! ### A record -/

/-- The members before the padding. -/
def fields (p : PacketInfo) : List UInt8 :=
  bytes32 p.srcIp ++ (bytes32 p.dstIp ++ (bytes16 p.srcPort ++ bytes16 p.dstPort))

@[simp] theorem length_fields (p : PacketInfo) : (fields p).length = 12 := rfl

theorem storeInfo_eq (order e : Nat) (p : PacketInfo) (r : Ring) :
    storeInfo order e p r = (r.put order e (fields p)).put order (e + 16)
      (bytes64 p.timestamp) := by
  rw [fields, ← Ring.put_put, ← Ring.put_put, ← Ring.put_put]
  rfl

/-- What is stored at the offsets of the members is what is read there. -/
theorem ofBytes_fields (p : PacketInfo) {pad : List UInt8} (hpad : pad.length = 4) :
    PacketInfo.ofBytes (bytes32 p.srcIp ++ (bytes32 p.dstIp ++ (bytes16 p.srcPort ++
      (bytes16 p.dstPort ++ (pad ++ bytes64 p.timestamp))))) = p := by
  obtain ⟨srcIp, dstIp, srcPort, dstPort, timestamp⟩ := p
  simp only [PacketInfo.ofBytes, PacketInfo.mk.injEq]
  refine ⟨load32_bytes32 _ _, ?_, ?_, ?_, ?_⟩
  · exact (load32_append (bytes32 srcIp) _ 0).trans (load32_bytes32 _ _)
  · refine (load16_append (bytes32 srcIp) _ 4).trans ?_
    exact (load16_append (bytes32 dstIp) _ 0).trans (load16_bytes16 _ _)
  · refine (load16_append (bytes32 srcIp) _ 6).trans ((load16_append (bytes32 dstIp) _ 2).trans ?_)
    exact (load16_append (bytes16 srcPort) _ 0).trans (load16_bytes16 _ _)
  · refine (load64_append (bytes32 srcIp) _ 12).trans ((load64_append (bytes32 dstIp) _ 8).trans ?_)
    refine (load64_append (bytes16 srcPort) _ 6).trans ?_
    refine (load64_append (bytes16 dstPort) _ 4).trans ?_
    have htime := load64_append pad (bytes64 timestamp) 0
    rw [hpad, Nat.add_zero] at htime
    rw [htime, ← List.append_nil (bytes64 timestamp), load64_bytes64]

/-- The first word of the header of a slot. -/
def lenWord (busy : Bool) : UInt32 := if busy then packetInfoSize ||| busyBit else packetInfoSize

/-- The bytes are those of the slot. -/
def Fits (slot : Slot PacketInfo) (chunk : List UInt8) : Prop :=
  ∃ pgOff sample, chunk = bytes32 (lenWord slot.busy) ++ (bytes32 pgOff ++ sample) ∧
    sample.length = 24 ∧ PacketInfo.ofBytes sample = slot.data

theorem Fits.length_eq {slot : Slot PacketInfo} {chunk : List UInt8} (h : Fits slot chunk) :
    chunk.length = 32 := by
  obtain ⟨pgOff, sample, rfl, hlen, -⟩ := h
  simp only [List.length_append, length_bytes32, hlen]

theorem length_flatten {slots : List (Slot PacketInfo)} {chunks : List (List UInt8)}
    (h : List.Forall₂ Fits slots chunks) : chunks.flatten.length = 32 * slots.length := by
  induction h with
  | nil => rfl
  | cons hfits _ ih =>
    rw [List.flatten_cons, List.length_append, hfits.length_eq, ih, List.length_cons]
    omega

/-- A slot in the middle has its bytes in the middle. -/
theorem exists_chunk {pre post : List (Slot PacketInfo)} {slot : Slot PacketInfo}
    {chunks : List (List UInt8)} (h : List.Forall₂ Fits (pre ++ slot :: post) chunks) :
    ∃ pre' chunk post', chunks = pre' ++ chunk :: post' ∧ List.Forall₂ Fits pre pre' ∧
      Fits slot chunk ∧ List.Forall₂ Fits post post' := by
  induction pre generalizing chunks with
  | nil =>
    obtain ⟨chunk, post', hfits, hpost, rfl⟩ := List.forall₂_cons_left_iff.mp h
    exact ⟨[], chunk, post', rfl, .nil, hfits, hpost⟩
  | cons x pre ih =>
    obtain ⟨c, rest, hx, hrest, rfl⟩ := List.forall₂_cons_left_iff.mp h
    obtain ⟨pre', chunk, post', rfl, hpre, hfits, hpost⟩ := ih hrest
    exact ⟨c :: pre', chunk, post', rfl, .cons hx hpre, hfits, hpost⟩

/-- The chunk of a slot is replaced. -/
theorem forall₂_middle {pre post : List (Slot PacketInfo)} {slot : Slot PacketInfo}
    {pre' post' : List (List UInt8)} {chunk : List UInt8} (hpre : List.Forall₂ Fits pre pre')
    (hslot : Fits slot chunk) (hpost : List.Forall₂ Fits post post') :
    List.Forall₂ Fits (pre ++ slot :: post) (pre' ++ chunk :: post') :=
  List.rel_append hpre (.cons hslot hpost)

/-! ### The ring as slots -/

/-- The address that `bpf_ringbuf_reserve` gives for the slot `i`, counted from the start. -/
def slotPtr (order i : Nat) : SlotPtr := 32 * i % 2 ^ order + hdrSz

/-- The consumer has taken `head` slots, and `slots` are in the ring. -/
def Shows (order : Nat) (r : Ring) (head : Nat) (slots : List (Slot PacketInfo)) : Prop :=
  r.consumerPos = 32 * head ∧ ∃ chunks, r.Holds order chunks ∧ List.Forall₂ Fits slots chunks

section Shows

variable {order head e : Nat} {r r' : Ring} {slots pre post : List (Slot PacketInfo)}
  {slot : Slot PacketInfo} {pgOff : UInt32} {p : PacketInfo}

theorem shows_boot (order : Nat) (data : Nat → UInt8) : Shows order (.boot data) 0 [] :=
  ⟨rfl, [], Ring.holds_boot order data, .nil⟩

theorem Shows.producerPos_eq (h : Shows order r head slots) :
    r.producerPos = 32 * (head + slots.length) := by
  obtain ⟨hpos, chunks, hholds, hfits⟩ := h
  rw [hholds.producer, length_flatten hfits, hpos]
  omega

/-- The slots that a ring has room for. -/
def slotCount (order : Nat) : Nat := (2 ^ order - 1) / 32

theorem Shows.length_le (h : Shows order r head slots) : slots.length ≤ slotCount order := by
  obtain ⟨-, chunks, hholds, hfits⟩ := h
  have hroom := hholds.room
  rw [length_flatten hfits] at hroom
  rw [slotCount, Nat.le_div_iff_mul_le (by decide)]
  omega

theorem Shows.reserve_eq_none_iff (h : Shows order r head slots) (pgOff : UInt32) :
    r.reserve order packetInfoSize pgOff = none ↔ slots.length = slotCount order := by
  have hround : (roundupLen packetInfoSize).toNat = 32 := by decide
  have hle := h.length_le
  have hpos := h.1
  rw [Ring.reserve, hround, h.producerPos_eq, hpos]
  simp only [ite_eq_left_iff, reduceCtorEq, imp_false, not_not]
  rw [slotCount] at hle ⊢
  omega

theorem Shows.reserve (h : Shows order r head slots)
    (hr : r.reserve order packetInfoSize pgOff = some (e, r')) :
    e = slotPtr order (head + slots.length) ∧
      Shows order r' head (slots ++ [⟨true, infoAt order r' e⟩]) := by
  have hround : (roundupLen packetInfoSize).toNat = 32 := by decide
  have hprod := h.producerPos_eq
  obtain ⟨hpos, chunks, hholds, hfits⟩ := h
  obtain ⟨he, hcons, sample, hlen, hholds'⟩ := hholds.reserve hr
  have hlen : sample.length = 24 := by omega
  have he' : e = slotPtr order (head + slots.length) := by rw [he, hprod, slotPtr]
  refine ⟨he', hcons.trans hpos, _, hholds',
    List.rel_append hfits (.cons ⟨pgOff, sample, rfl, hlen, ?_⟩ .nil)⟩
  -- the new slot shows what is in the memory
  have hread : r'.Holds order (chunks ++ ((bytes32 (packetInfoSize ||| busyBit) ++ bytes32 pgOff) ++
      (sample ++ [])) :: []) := by
    rw [List.append_nil, List.append_assoc]
    exact hholds'
  have hbytes := hread.read_eq
  rw [hcons, hpos, length_flatten hfits, ← Nat.mul_add, hlen] at hbytes
  show PacketInfo.ofBytes sample = PacketInfo.ofBytes (read (2 ^ order) r'.data e 24)
  rw [he', slotPtr]
  exact congrArg PacketInfo.ofBytes hbytes.symm

/-- The record is stored into a slot, and the others are as they were. -/
theorem Shows.store (h : Shows order r head (pre ++ slot :: post)) (p : PacketInfo) :
    Shows order (storeInfo order (slotPtr order (head + pre.length)) p r) head
      (pre ++ ⟨slot.busy, p⟩ :: post) := by
  obtain ⟨hpos, chunks, hholds, hfits⟩ := h
  obtain ⟨pre', chunk, post', rfl, hpre, ⟨pgOff, sample, rfl, hlen, -⟩, hpost⟩ := exists_chunk hfits
  have hat : r.consumerPos + pre'.flatten.length = 32 * (head + pre.length) := by
    rw [hpos, length_flatten hpre, Nat.mul_add]
  -- the sample in the pieces that are written, with the padding between them
  obtain ⟨a, s, ha, rfl⟩ := exists_split (show 12 ≤ sample.length by omega)
  rw [List.length_append] at hlen
  obtain ⟨pad, b, hpad, rfl⟩ := exists_split (show 4 ≤ s.length by omega)
  rw [List.length_append] at hlen
  rw [storeInfo_eq]
  have h₁ : (r.put order (slotPtr order (head + pre.length)) (fields p)).Holds order
      (pre' ++ ((bytes32 (lenWord slot.busy) ++ bytes32 pgOff) ++ (fields p ++ (pad ++ b))) ::
        post') := by
    have hlen₁ : (fields p).length = a.length := ha.symm
    rw [← List.append_assoc (bytes32 _)] at hholds
    have hput := hholds.put hlen₁
    rw [hat] at hput
    exact hput
  have h₂ : ((r.put order (slotPtr order (head + pre.length)) (fields p)).put order
      (slotPtr order (head + pre.length) + 16) (bytes64 p.timestamp)).Holds order
      (pre' ++ ((bytes32 (lenWord slot.busy) ++ (bytes32 pgOff ++ (fields p ++ pad))) ++
        (bytes64 p.timestamp ++ [])) :: post') := by
    have hlen₂ : (bytes64 p.timestamp).length = b.length := by
      rw [length_bytes64]
      omega
    have h₁' : (r.put order (slotPtr order (head + pre.length)) (fields p)).Holds order
        (pre' ++ ((bytes32 (lenWord slot.busy) ++ (bytes32 pgOff ++ (fields p ++ pad))) ++
          (b ++ [])) :: post') := by
      simpa only [List.append_assoc, List.append_nil] using h₁
    have hput := h₁'.put hlen₂
    have haddr : (r.consumerPos + pre'.flatten.length) % 2 ^ order +
        (bytes32 (lenWord slot.busy) ++ (bytes32 pgOff ++ (fields p ++ pad))).length =
        slotPtr order (head + pre.length) + 16 := by
      rw [hat, slotPtr]
      simp only [List.length_append, length_bytes32, hpad, length_fields, hdrSz]
    rw [← haddr]
    exact hput
  refine ⟨hpos, _, h₂, forall₂_middle hpre
    ⟨pgOff, fields p ++ (pad ++ bytes64 p.timestamp), ?_, ?_, ?_⟩ hpost⟩
  · simp only [List.append_assoc, List.append_nil]
  · simp only [List.length_append, length_fields, hpad, length_bytes64]
  · have hof := ofBytes_fields p hpad
    simpa only [fields, List.append_assoc] using hof

/-- A slot is submitted, and the others are as they were. -/
theorem Shows.submit (h : Shows order r head (pre ++ ⟨true, p⟩ :: post)) :
    Shows order (r.submit order (slotPtr order (head + pre.length))) head
      (pre ++ ⟨false, p⟩ :: post) := by
  have hflip : lenWord true ^^^ busyBit = lenWord false := by decide
  obtain ⟨hpos, chunks, hholds, hfits⟩ := h
  obtain ⟨pre', chunk, post', rfl, hpre, ⟨pgOff, sample, rfl, hlen, hinfo⟩, hpost⟩ :=
    exists_chunk hfits
  have hsubmit := hholds.submit
  rw [hflip, hpos, length_flatten hpre, ← Nat.mul_add] at hsubmit
  exact ⟨hpos, _, hsubmit, forall₂_middle hpre ⟨pgOff, sample, rfl, hlen, hinfo⟩ hpost⟩

/-- The first word of the first slot. -/
theorem Shows.load_eq (h : Shows order r head (slot :: slots)) :
    r.load order (32 * head % 2 ^ order) = lenWord slot.busy := by
  obtain ⟨hpos, chunks, hholds, hfits⟩ := h
  obtain ⟨chunk, rest, ⟨pgOff, sample, rfl, -, -⟩, -, rfl⟩ := List.forall₂_cons_left_iff.mp hfits
  have hread : r.Holds order ([] ++ ([] ++ (bytes32 (lenWord slot.busy) ++
      (bytes32 pgOff ++ sample))) :: rest) := hholds
  have hbytes := hread.read_eq
  rw [hpos, List.flatten_nil, List.length_nil, Nat.add_zero, Nat.add_zero, length_bytes32] at hbytes
  rw [Ring.load, hbytes, ← List.append_nil (bytes32 _), load32_bytes32]

/-- The record in the first slot. -/
theorem Shows.infoAt_eq (h : Shows order r head (slot :: slots)) :
    infoAt order r (slotPtr order head) = slot.data := by
  obtain ⟨hpos, chunks, hholds, hfits⟩ := h
  obtain ⟨chunk, rest, ⟨pgOff, sample, rfl, hlen, hinfo⟩, -, rfl⟩ :=
    List.forall₂_cons_left_iff.mp hfits
  have hread : r.Holds order ([] ++ ((bytes32 (lenWord slot.busy) ++ bytes32 pgOff) ++
      (sample ++ [])) :: rest) := by
    rw [List.append_nil, List.append_assoc]
    exact hholds
  have hbytes := hread.read_eq
  rw [hpos, List.flatten_nil, List.length_nil, Nat.add_zero, hlen] at hbytes
  rw [← hinfo]
  exact congrArg PacketInfo.ofBytes hbytes

/-- The consumer moves on by a slot. -/
theorem Shows.advance (h : Shows order r head (slot :: slots)) :
    Shows order { r with consumerPos := 32 * (head + 1) } (head + 1) slots := by
  obtain ⟨hpos, chunks, hholds, hfits⟩ := h
  obtain ⟨chunk, rest, hslot, hrest, rfl⟩ := List.forall₂_cons_left_iff.mp hfits
  have hadvance := hholds.advance
  rw [hslot.length_eq, hpos] at hadvance
  exact ⟨rfl, rest, hadvance, hrest⟩

end Shows

/-! ### The ring of slots -/

/-- The bytes of the ring show the slots of `b`. -/
def Refines (order : Nat) (r : Ring) (b : RingBuf PacketInfo (slotCount order)) : Prop :=
  Shows order r b.head b.slots

section Refines

variable {order e i : Nat} {r r' : Ring} {b b' : RingBuf PacketInfo (slotCount order)}
  {pgOff : UInt32} {p : PacketInfo}

theorem exists_slots (h : i < b.slots.length) :
    ∃ pre slot post, b.slots = pre ++ slot :: post ∧ pre.length = i := by
  refine ⟨b.slots.take i, b.slots[i], b.slots.drop (i + 1), ?_, List.length_take_of_le h.le⟩
  rw [List.cons_getElem_drop_succ, List.take_append_drop]

theorem slots_modify {pre post : List (Slot PacketInfo)} {slot : Slot PacketInfo}
    (h : b.slots = pre ++ slot :: post) (f : Slot PacketInfo → Slot PacketInfo) :
    (b.modify (b.head + pre.length) f).slots = pre ++ f slot :: post := by
  show b.slots.modify (b.head + pre.length - b.head) f = _
  rw [Nat.add_sub_cancel_left, h, List.modify_eq_take_drop, List.take_left, List.drop_left]
  rfl

theorem Refines.reserve (h : Refines order r b)
    (hr : r.reserve order packetInfoSize pgOff = some (e, r')) :
    ∃ i b', b.reserve (infoAt order r' e) = some (i, b') ∧ e = slotPtr order i ∧
      Refines order r' b' := by
  have hlt : b.slots.length < slotCount order := by
    refine Nat.lt_of_le_of_ne h.length_le fun heq => ?_
    rw [(h.reserve_eq_none_iff pgOff).mpr heq] at hr
    cases hr
  obtain ⟨he, hshows⟩ := Shows.reserve h hr
  rw [RingBuf.reserve, dif_pos hlt]
  exact ⟨_, _, rfl, he, hshows⟩

theorem Refines.store (h : Refines order r b) (hi : i < b.slots.length) (p : PacketInfo) :
    Refines order (storeInfo order (slotPtr order (b.head + i)) p r) (b.write (b.head + i) p) := by
  obtain ⟨pre, slot, post, hslots, rfl⟩ := exists_slots hi
  have hshows : Shows order r b.head (pre ++ slot :: post) := hslots ▸ h
  show Shows order _ b.head (b.modify (b.head + pre.length) _).slots
  rw [slots_modify hslots]
  exact hshows.store p

theorem Refines.submit (h : Refines order r b) (hi : b.slots[i]? = some ⟨true, p⟩) :
    Refines order (r.submit order (slotPtr order (b.head + i))) (b.submit (b.head + i)) := by
  obtain ⟨hlt, hbusy⟩ := List.getElem?_eq_some_iff.mp hi
  obtain ⟨pre, slot, post, hslots, rfl⟩ := exists_slots hlt
  have hslot : slot = ⟨true, p⟩ := by
    rw [hslots, List.getElem?_append_right (Nat.le_refl _), Nat.sub_self] at hi
    exact Option.some.inj hi
  subst hslot
  have hshows : Shows order r b.head (pre ++ ⟨true, p⟩ :: post) := hslots ▸ h
  show Shows order _ b.head (b.modify (b.head + pre.length) _).slots
  rw [slots_modify hslots]
  exact hshows.submit

/-- The consumer finds the record that the ring of slots gives, and moves on. -/
theorem Refines.consume (h : Refines order r b) (hc : b.consume = some (p, b')) :
    r.consumerPos < r.producerPos ∧ r.load order (r.consumerPos % 2 ^ order) = packetInfoSize ∧
      infoAt order r (r.consumerPos % 2 ^ order + hdrSz) = p ∧
      Refines order { r with consumerPos := r.consumerPos + 32 } b' := by
  have hpos := h.1
  have hprod := h.producerPos_eq
  rw [RingBuf.consume] at hc
  split at hc
  · rename_i p' rest hslots
    obtain ⟨rfl, rfl⟩ := Prod.mk.inj (Option.some.inj hc)
    have hshows : Shows order r b.head (⟨false, p'⟩ :: rest) := hslots ▸ h
    have hlt : r.consumerPos < r.producerPos := by
      rw [hslots, List.length_cons] at hprod
      omega
    have hnext := hshows.advance
    rw [Nat.mul_add, ← hpos] at hnext
    rw [hpos]
    exact ⟨hpos ▸ hlt, hshows.load_eq, hshows.infoAt_eq, hpos ▸ hnext⟩
  · cases hc

/-- Where the ring of slots gives nothing, the consumer finds no committed record. -/
theorem Refines.consume_eq_none (h : Refines order r b) (hc : b.consume = none) :
    r.consumerPos = r.producerPos ∨
      r.load order (r.consumerPos % 2 ^ order) &&& busyBit ≠ 0 := by
  have hpos := h.1
  have hprod := h.producerPos_eq
  rw [RingBuf.consume] at hc
  split at hc
  · cases hc
  · rename_i hnone
    cases hslots : b.slots with
    | nil =>
      rw [hslots] at hprod
      exact Or.inl (hpos.trans hprod.symm)
    | cons slot rest =>
      obtain ⟨busy, p⟩ := slot
      cases busy with
      | false => exact absurd hslots (hnone p rest)
      | true =>
        have hshows : Shows order r b.head (⟨true, p⟩ :: rest) := hslots ▸ h
        have hbusy : lenWord true &&& busyBit ≠ 0 := by decide
        rw [hpos, hshows.load_eq]
        exact Or.inr hbusy

/-- **The bytes implement the ring of slots.**  Whatever the memory held at the start, the
empty ring shows no slots; and where the bytes show a ring of slots, each operation on the
bytes does what the operation on the slots does: a reservation fails exactly where there is
no slot left, and gives the address of the next slot otherwise; the stores through this
address and the submission change this slot and no other; and the consumer finds a committed
record exactly where there is one, reads it, and gives its slot back.  With `2 ^ 24` bytes
the number of slots is that of `packet_ringbuf`. -/
theorem ring_refines (order : Nat) :
    slotCount 24 = packetRingbufSlots ∧ (∀ mem, Refines order (.boot mem) .empty) ∧
    ∀ (r : Ring) (b : RingBuf PacketInfo (slotCount order)), Refines order r b →
      (∀ pgOff stale, r.reserve order packetInfoSize pgOff = none ↔ b.reserve stale = none) ∧
      (∀ pgOff e r', r.reserve order packetInfoSize pgOff = some (e, r') →
        ∃ i b', b.reserve (infoAt order r' e) = some (i, b') ∧ e = slotPtr order i ∧
          Refines order r' b') ∧
      (∀ i p, i < b.slots.length →
        Refines order (storeInfo order (slotPtr order (b.head + i)) p r) (b.write (b.head + i) p)) ∧
      (∀ i p, b.slots[i]? = some ⟨true, p⟩ →
        Refines order (r.submit order (slotPtr order (b.head + i))) (b.submit (b.head + i))) ∧
      (∀ p b', b.consume = some (p, b') → r.consumerPos < r.producerPos ∧
        r.load order (r.consumerPos % 2 ^ order) = packetInfoSize ∧
        infoAt order r (r.consumerPos % 2 ^ order + hdrSz) = p ∧
        Refines order { r with consumerPos := r.consumerPos + 32 } b') ∧
      (b.consume = none → r.consumerPos = r.producerPos ∨
        r.load order (r.consumerPos % 2 ^ order) &&& busyBit ≠ 0) := by
  refine ⟨rfl, fun mem => shows_boot order mem, fun r b h =>
    ⟨fun pgOff stale => ?_, ?_, ?_, ?_, ?_, ?_⟩⟩
  · rw [h.reserve_eq_none_iff, RingBuf.reserve_eq_none_iff]
  · intro pgOff e r' hr
    exact h.reserve hr
  · intro i p hi
    exact h.store hi p
  · intro i p hi
    exact h.submit hi
  · intro p b' hc
    exact h.consume hc
  · intro hc
    exact h.consume_eq_none hc

end Refines

end NetworkAnalyse.Xdp
