import Mathlib.Data.List.Basic

/-!
# A ring buffer with reservations

The ring buffer of the kernel, as its producer and its consumer see it: a FIFO of
at most `cap` slots.  A producer **reserves** the next slot, writes it, and
**submits** it; a consumer takes the first slot once it is submitted, and waits
for it otherwise.  A slot is named by its position counted from the start of time,
so a name stays good while the consumer moves on.

The bound is a field of the structure.  `Holds.submit` and its companions say what
the operations do to a ring whose submitted records are followed by at most one
open slot, which is what a single producer sees.
-/

namespace NetworkAnalyse.Lib

structure Slot (α : Type) where
  busy : Bool
  data : α
  deriving DecidableEq, Repr

structure RingBuf (α : Type) (cap : Nat) where
  /-- the slots that the consumer has taken -/
  head : Nat
  slots : List (Slot α)
  fits : slots.length ≤ cap

namespace RingBuf

variable {α : Type} {cap : Nat}

def empty : RingBuf α cap := ⟨0, [], Nat.zero_le _⟩

/-- Reserve a slot, which holds whatever was there before; `none` if there is no room. -/
def reserve (stale : α) (r : RingBuf α cap) : Option (Nat × RingBuf α cap) :=
  if h : r.slots.length < cap then
    some (r.head + r.slots.length,
      ⟨r.head, r.slots ++ [⟨true, stale⟩], by rw [List.length_append]; exact h⟩)
  else none

/-- Change the slot `e`. -/
def modify (e : Nat) (f : Slot α → Slot α) (r : RingBuf α cap) : RingBuf α cap :=
  ⟨r.head, r.slots.modify (e - r.head) f, by rw [List.length_modify]; exact r.fits⟩

def write (e : Nat) (a : α) : RingBuf α cap → RingBuf α cap := modify e ({ · with data := a })

def submit (e : Nat) : RingBuf α cap → RingBuf α cap := modify e ({ · with busy := false })

/-- Take the first slot, if it is submitted. -/
def consume (r : RingBuf α cap) : Option (α × RingBuf α cap) :=
  match h : r.slots with
  | ⟨false, a⟩ :: rest =>
    some (a, ⟨r.head + 1, rest, by
      have := r.fits
      rw [h, List.length_cons] at this
      omega⟩)
  | _ => none

/-- The records that are submitted and not yet taken. -/
def records (r : RingBuf α cap) : List α := (r.slots.filter (!·.busy)).map (·.data)

theorem reserve_eq_none_iff (stale : α) {r : RingBuf α cap} :
    r.reserve stale = none ↔ r.slots.length = cap := by
  have hfits := r.fits
  rw [reserve]
  split
  · constructor
    · intro h
      cases h
    · intro h
      omega
  · constructor
    · intro _
      omega
    · intro _
      rfl

theorem exists_reserve_of_lt (stale : α) {r : RingBuf α cap} (h : r.slots.length < cap) :
    ∃ e r', r.reserve stale = some (e, r') ∧ r'.slots.length = r.slots.length + 1 := by
  rw [reserve, dif_pos h]
  refine ⟨_, _, rfl, ?_⟩
  rw [List.length_append]
  rfl

@[simp] theorem length_slots_modify (e : Nat) (f : Slot α → Slot α) (r : RingBuf α cap) :
    (r.modify e f).slots.length = r.slots.length := List.length_modify f r.slots _

/-! ### One producer -/

/-- The ring holds the submitted records `rs`, and after them the slot `o`, if a
slot is reserved. -/
def Holds (r : RingBuf α cap) (rs : List α) (o : Option α) : Prop :=
  r.slots = rs.map (Slot.mk false) ++ o.toList.map (Slot.mk true)

theorem holds_empty : (empty : RingBuf α cap).Holds [] none := rfl

variable {r r' : RingBuf α cap} {rs : List α} {a b : α} {e : Nat} {o : Option α}

theorem Holds.records_eq (h : r.Holds rs o) : r.records = rs := by
  have hs : ∀ l : List α, (l.map (Slot.mk false)).filter (!·.busy) = l.map (Slot.mk false) := by
    intro l
    exact List.filter_eq_self.mpr (by simp)
  have hb : (o.toList.map (Slot.mk true)).filter (!·.busy) = [] := by
    exact List.filter_eq_nil_iff.mpr (by simp)
  rw [records, h, List.filter_append, hs, hb, List.append_nil, List.map_map]
  exact List.map_id _

theorem Holds.reserve (h : r.Holds rs none) (hr : r.reserve b = some (e, r')) :
    e = r.head + rs.length ∧ r'.head = r.head ∧ r'.Holds rs (some b) := by
  rw [RingBuf.reserve] at hr
  split at hr
  · obtain ⟨he, hr⟩ := Prod.mk.inj (Option.some.inj hr)
    subst hr
    refine ⟨?_, rfl, ?_⟩
    · rw [← he, h]
      simp
    · show r.slots ++ [_] = _
      rw [h]
      simp
  · cases hr

theorem Holds.modify (h : r.Holds rs (some b)) (f : Slot α → Slot α) :
    (r.modify (r.head + rs.length) f).slots = rs.map (Slot.mk false) ++ [f ⟨true, b⟩] := by
  show r.slots.modify (r.head + rs.length - r.head) f = _
  have hlen : r.head + rs.length - r.head = (rs.map (Slot.mk false)).length := by
    rw [List.length_map]
    omega
  rw [h, hlen, List.modify_eq_take_drop, List.take_left, List.drop_left]
  rfl

theorem Holds.write (h : r.Holds rs (some b)) :
    (r.write (r.head + rs.length) a).Holds rs (some a) := h.modify _

theorem Holds.submit (h : r.Holds rs (some a)) :
    (r.submit (r.head + rs.length)).Holds (rs ++ [a]) none := by
  rw [Holds, RingBuf.submit, h.modify]
  simp

/-- The consumer takes the oldest record, whether or not a slot is reserved. -/
theorem Holds.consume (h : r.Holds rs o) (hc : r.consume = some (a, r')) :
    ∃ rest, rs = a :: rest ∧ r'.head = r.head + 1 ∧ r'.Holds rest o := by
  rw [RingBuf.consume] at hc
  split at hc
  · rename_i a' rest hslots
    obtain ⟨rfl, rfl⟩ := Prod.mk.inj (Option.some.inj hc)
    rw [Holds, hslots] at h
    cases rs with
    | nil =>
      cases o <;> simp at h
    | cons x xs =>
      rw [List.map_cons, List.cons_append, List.cons.injEq] at h
      obtain ⟨hx, hrest⟩ := h
      cases hx
      exact ⟨xs, rfl, rfl, hrest⟩
  · cases hc

end RingBuf

end NetworkAnalyse.Lib
