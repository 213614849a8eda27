import Mathlib.Data.List.TakeWhile
import NetworkAnalyse.Xdp.Layout
import NetworkAnalyse.Xdp.Monitor

/-!
# The packet monitor on several CPUs

Every CPU runs `xdp_prog` on the frames that it receives, one at a time, and the process of
`xdp_packet_load.c` calls `ring_buffer__poll`.  They share the bytes of `packet_ringbuf` and
the two positions, and any of them may be interrupted by the others between two operations
(`smp`).  A reservation of one CPU may lie before or behind those of the others, and the
CPUs submit in any order.

The history `booked` lists the reservations in their order, with the CPU that made each.

* `Inv`: the reservations that are not taken yet are the slots of the ring, and the records
  that have been handed over are those of the first reservations.
* `Books`: the reservations of one CPU are the records of its frames, and at most one more.
* `smp_conserved`: both hold in every state of every run.
* `poll_drains`: a poll hands over all that is submitted up to the first open reservation.
-/

namespace NetworkAnalyse.Xdp.Smp

open Lib Lib.Circular Libbpf

/-! ### The system -/

inductive Op
  | helper (cpu : Nat) (op : Xdp.Op)
  | lib (op : RingOp)

@[reducible] def Op.Res : Op → Type
  | helper _ op => op.Res
  | lib op => op.Res

inductive Who
  | cpu (n : Nat)
  | loader
  deriving DecidableEq

inductive Task
  | frame (cpu : Nat) (data : Frame)
  /-- `ring_buffer__poll`; the fuel of `scan` -/
  | poll (fuel : Nat)

inductive Outcome
  | verdict (action : XdpAction)
  | polled (ret : Option Int)
  deriving DecidableEq, Repr

/-- A reservation: the CPU that made it, and what its slot holds. -/
structure Booking where
  cpu : Nat
  slot : Slot PacketInfo
  deriving DecidableEq, Repr

structure State where
  clock : UInt64
  ring : Ring
  /-- the records given to `handle_event` -/
  handed : List PacketInfo
  /-- the lines of `bpf_printk` -/
  pipe : List (String × UInt32 × UInt16 × UInt64)
  /-- the history, which no answer depends on -/
  booked : List Booking

def State.boot (data : Nat → UInt8) : State := ⟨0, .boot data, [], [], []⟩

/-- What the environment chooses: the clock reading, the second word of a header, and the
result of `epoll_wait`. -/
structure Inp where
  now : UInt64
  pgOff : UInt32
  ready : Int

/-- The open reservation of a CPU changes. -/
def Booking.change (cpu : Nat) (f : Slot PacketInfo → Slot PacketInfo) (b : Booking) : Booking :=
  if b.cpu = cpu ∧ b.slot.busy = true then ⟨b.cpu, f b.slot⟩ else b

def exec (order : Nat) (inp : Inp) : (op : Op) → State → Option (op.Res × State)
  | .helper _ .ktimeGetNs, s =>
    if s.clock ≤ inp.now then some (inp.now, { s with clock := inp.now }) else none
  | .helper _ (.printk fmt ip port timestamp), s =>
    some ((), { s with pipe := s.pipe ++ [(fmt, ip, port, timestamp)] })
  | .helper cpu .ringbufReserve, s =>
    match s.ring.reserve order packetInfoSize inp.pgOff with
    | some (e, ring) => some (some e, { s with
        ring := ring
        booked := s.booked ++ [⟨cpu, true, infoAt order ring e⟩] })
    | none => some (none, s)
  | .helper cpu (.store e p), s => some ((), { s with
      ring := storeInfo order e p s.ring
      booked := s.booked.map (Booking.change cpu ({ · with data := p })) })
  | .helper cpu (.ringbufSubmit e), s => some ((), { s with
      ring := s.ring.submit order e
      booked := s.booked.map (Booking.change cpu ({ · with busy := false })) })
  | .lib .epollWait, s => if inp.ready ≤ 1 then some (inp.ready, s) else none
  | .lib .loadConsumerPos, s => some (s.ring.consumerPos, s)
  | .lib .loadProducerPos, s => some (s.ring.producerPos, s)
  | .lib (.loadLen lenPtr), s => some (s.ring.load order lenPtr, s)
  -- `handle_event` returns 0
  | .lib (.sampleCb sample _), s =>
    some (0, { s with handed := s.handed ++ [infoAt order s.ring sample] })
  | .lib (.storeConsumerPos pos), s =>
    some ((), { s with ring := { s.ring with consumerPos := pos } })

def Task.who : Task → Who
  | .frame cpu _ => .cpu cpu
  | .poll _ => .loader

def Task.body (order : Nat) : Task → Prog Op Op.Res Outcome
  | .frame cpu data => (xdpProg data).embed (Op.helper cpu) .verdict
  | .poll fuel => (ringBufferPoll order fuel).embed Op.lib .polled

/-- Any number of CPUs and the loader, over one ring of `2 ^ order` bytes. -/
def smp (order : Nat) : System Who Op Op.Res Inp Empty State Task Outcome where
  key := Task.who
  body := Task.body order
  exec := exec order
  env e _ := e.elim

/-! ### The frames of a CPU -/

abbrev Done := Entry Op Op.Res Task Outcome

def helperOf : (Σ op : Op, op.Res) → Option (Σ op : Xdp.Op, op.Res)
  | ⟨.helper _ op, r⟩ => some ⟨op, r⟩
  | ⟨.lib _, _⟩ => none

/-- The helper calls in a trace. -/
def helpers (tr : Trace Op Op.Res) : Trace Xdp.Op Xdp.Op.Res := tr.filterMap helperOf

def finishedOn (cpu : Nat) (i : Done) : Option Finished :=
  match i.tag, i.result with
  | .frame c data, .verdict a => if c = cpu then some ⟨data, helpers i.trace, a⟩ else none
  | _, _ => none

/-- The frames that a CPU has processed. -/
def framesOf (cpu : Nat) (log : List Done) : List Finished := log.filterMap (finishedOn cpu)

/-- The records of these frames. -/
def recordsOf (cpu : Nat) (log : List Done) : List PacketInfo :=
  ((framesOf cpu log).filter (·.Recorded)).map Finished.record

theorem helpers_embedTrace (cpu : Nat) (tr : Trace Xdp.Op Xdp.Op.Res) :
    helpers (Prog.embedTrace (Op.helper cpu) tr) = tr := by
  induction tr with
  | nil => rfl
  | cons x tr ih => exact congrArg (x :: ·) ih

theorem framesOf_snoc_of_ne {cpu : Nat} {log : List Done} {i : Done} (h : i.tag.who ≠ .cpu cpu) :
    framesOf cpu (log ++ [i]) = framesOf cpu log := by
  have hnone : finishedOn cpu i = none := by
    obtain ⟨tag, tr, a⟩ := i
    cases tag with
    | frame c data =>
      cases a with
      | verdict a => exact if_neg fun hc => h (by rw [← hc]; rfl)
      | polled ret => rfl
    | poll fuel => rfl
  rw [framesOf, List.filterMap_append, List.filterMap_cons_none hnone]
  exact List.append_nil _

theorem framesOf_snoc {cpu : Nat} {log : List Done} {data : Frame} {a : XdpAction}
    {tr : Trace Xdp.Op Xdp.Op.Res} :
    framesOf cpu (log ++ [⟨.frame cpu data, Prog.embedTrace (Op.helper cpu) tr, .verdict a⟩]) =
      framesOf cpu log ++ [⟨data, tr, a⟩] := by
  have hsome : finishedOn cpu ⟨.frame cpu data, Prog.embedTrace (Op.helper cpu) tr, .verdict a⟩ =
      some ⟨data, tr, a⟩ := by
    simp only [finishedOn, if_true, helpers_embedTrace]
  rw [framesOf, List.filterMap_append, List.filterMap_cons_some hsome]
  rfl

/-! ### The reservations of a CPU -/

/-- The slots that a CPU has reserved, in their order. -/
def slotsOf (cpu : Nat) (booked : List Booking) : List (Slot PacketInfo) :=
  (booked.filter (·.cpu = cpu)).map (·.slot)

section Bookings

variable {c c' : Nat} {booked pre post : List Booking} {p : PacketInfo}
  {f : Slot PacketInfo → Slot PacketInfo}

theorem slotsOf_append (c : Nat) (l₁ l₂ : List Booking) :
    slotsOf c (l₁ ++ l₂) = slotsOf c l₁ ++ slotsOf c l₂ := by
  rw [slotsOf, List.filter_append, List.map_append]
  rfl

theorem slotsOf_cons_self (slot : Slot PacketInfo) (l : List Booking) :
    slotsOf c (⟨c, slot⟩ :: l) = slot :: slotsOf c l := by
  rw [slotsOf, List.filter_cons_of_pos (by simp)]
  rfl

theorem slotsOf_cons_of_ne (h : c ≠ c') (slot : Slot PacketInfo) (l : List Booking) :
    slotsOf c' (⟨c, slot⟩ :: l) = slotsOf c' l := by
  rw [slotsOf, List.filter_cons_of_neg (by simpa using h)]
  rfl

/-- The only busy slot among them is the last one. -/
theorem eq_of_append_eq {l₁ l₂ : List (Slot PacketInfo)} {rs : List PacketInfo}
    (h : l₁ ++ ⟨true, p⟩ :: l₂ = rs.map (Slot.mk false) ++ [⟨true, p⟩]) :
    l₁ = rs.map (Slot.mk false) ∧ l₂ = [] := by
  rcases List.append_eq_append_iff.mp h with ⟨a, ha, hb⟩ | ⟨a, ha, hb⟩
  · cases a with
    | nil =>
      rw [List.nil_append, List.cons.injEq] at hb
      exact ⟨by rw [ha, List.append_nil], hb.2⟩
    | cons x a =>
      -- then a busy slot would be among the submitted ones
      rw [List.cons_append, List.cons.injEq] at hb
      have hx : x ∈ rs.map (Slot.mk false) := by
        rw [ha]
        simp
      obtain ⟨q, -, hq⟩ := List.mem_map.mp hx
      rw [← hb.1] at hq
      cases hq
  · cases a with
    | nil =>
      rw [List.nil_append, List.cons.injEq] at hb
      exact ⟨by rw [ha, List.append_nil], hb.2.symm⟩
    | cons x a => simp at hb

/-- A CPU with one open reservation changes this one and no other. -/
theorem map_change_eq {rs : List PacketInfo}
    (h : slotsOf c (pre ++ ⟨c, true, p⟩ :: post) = rs.map (Slot.mk false) ++ [⟨true, p⟩]) :
    (pre ++ ⟨c, true, p⟩ :: post).map (Booking.change c f) = pre ++ ⟨c, f ⟨true, p⟩⟩ :: post ∧
      slotsOf c (pre ++ ⟨c, f ⟨true, p⟩⟩ :: post) = rs.map (Slot.mk false) ++ [f ⟨true, p⟩] := by
  rw [slotsOf_append, slotsOf_cons_self] at h
  obtain ⟨hpre, hpost⟩ := eq_of_append_eq h
  have hkeep : ∀ l, (∀ slot ∈ slotsOf c l, slot.busy = false) → l.map (Booking.change c f) = l := by
    intro l hl
    refine (List.map_congr_left fun b hb => if_neg ?_).trans (List.map_id l)
    rintro ⟨hcpu, hbusy⟩
    have hmem : b.slot ∈ slotsOf c l :=
      List.mem_map_of_mem (List.mem_filter.mpr ⟨hb, by simpa using hcpu⟩)
    rw [hl _ hmem] at hbusy
    cases hbusy
  have hpre' : ∀ slot ∈ slotsOf c pre, slot.busy = false := by
    rw [hpre]
    intro slot hslot
    obtain ⟨q, -, rfl⟩ := List.mem_map.mp hslot
    rfl
  have hpost' : ∀ slot ∈ slotsOf c post, slot.busy = false := by
    rw [hpost]
    intro slot hslot
    cases hslot
  refine ⟨?_, ?_⟩
  · rw [List.map_append, List.map_cons, hkeep pre hpre', hkeep post hpost']
    rw [Booking.change, if_pos ⟨rfl, rfl⟩]
  · rw [slotsOf_append, slotsOf_cons_self, hpre, hpost]

theorem exists_append_of_getElem? {l : List Booking} {i : Nat} {b : Booking} (h : l[i]? = some b) :
    ∃ pre post, l = pre ++ b :: post ∧ pre.length = i := by
  obtain ⟨hi, hb⟩ := List.getElem?_eq_some_iff.mp h
  refine ⟨l.take i, l.drop (i + 1), ?_, List.length_take_of_le hi.le⟩
  rw [← hb, List.cons_getElem_drop_succ, List.take_append_drop]

/-- What a CPU can do to the list of reservations. -/
inductive Moves (c : Nat) : List Booking → List Booking → Prop
  | same (l : List Booking) : Moves c l l
  | reserve (l : List Booking) (p : PacketInfo) : Moves c l (l ++ [⟨c, true, p⟩])
  | change (pre post : List Booking) (p : PacketInfo) (slot : Slot PacketInfo) :
      Moves c (pre ++ ⟨c, true, p⟩ :: post) (pre ++ ⟨c, slot⟩ :: post)

namespace Moves

variable {l l' : List Booking}

theorem length_le (h : Moves c l l') : l.length ≤ l'.length := by
  cases h with
  | same => exact Nat.le_refl _
  | reserve => exact (List.length_append ▸ Nat.le_add_right _ _)
  | change => rw [List.length_append, List.length_append, List.length_cons, List.length_cons]

theorem slotsOf_of_ne (h : Moves c l l') (hc : c ≠ c') : slotsOf c' l' = slotsOf c' l := by
  cases h with
  | same => rfl
  | reserve p =>
    rw [slotsOf_append, slotsOf_cons_of_ne hc]
    exact List.append_nil _
  | change =>
    rw [slotsOf_append, slotsOf_append, slotsOf_cons_of_ne hc, slotsOf_cons_of_ne hc]

/-- It leaves the reservations of the other CPUs and those that are submitted. -/
theorem getElem?_eq (h : Moves c l l') {i : Nat} {b : Booking} (hb : l[i]? = some b)
    (hne : b.cpu ≠ c ∨ b.slot.busy = false) : l'[i]? = some b := by
  cases h with
  | same => exact hb
  | reserve =>
    rw [List.getElem?_append_left (List.getElem?_eq_some_iff.mp hb).1]
    exact hb
  | change pre post p slot =>
    rcases Nat.lt_trichotomy i pre.length with hi | hi | hi
    · rw [List.getElem?_append_left hi] at hb ⊢
      exact hb
    · subst hi
      rw [List.getElem?_append_right (Nat.le_refl _), Nat.sub_self, List.getElem?_cons_zero] at hb
      cases Option.some.inj hb
      rcases hne with hne | hne
      · exact absurd rfl hne
      · cases hne
    · rw [List.getElem?_append_right hi.le] at hb ⊢
      obtain ⟨k, hk⟩ := Nat.exists_eq_add_of_lt hi
      have hsub : i - pre.length = k + 1 := by omega
      rw [hsub, List.getElem?_cons_succ] at hb ⊢
      exact hb

end Moves

end Bookings

/-! ### The ring and the reservations -/

/-- The consumer has taken `n` reservations, and the others are the slots of the ring.  The
records that have been handed over are those of the first reservations, all of them submitted. -/
structure Inv (order : Nat) (ring : Ring) (handed : List PacketInfo) (booked : List Booking)
    (n : Nat) : Prop where
  shows : Shows order ring n ((booked.drop n).map (·.slot))
  handed_eq : handed = (booked.take handed.length).map (·.slot.data)
  submitted : ∀ b ∈ booked.take handed.length, b.slot.busy = false
  taken_le : n ≤ handed.length
  handed_le : handed.length ≤ booked.length

section Inv

variable {order n c e : Nat} {ring ring' : Ring} {handed : List PacketInfo}
  {booked pre post : List Booking} {p : PacketInfo} {slot : Slot PacketInfo} {pgOff : UInt32}

theorem inv_boot (order : Nat) (data : Nat → UInt8) : Inv order (.boot data) [] [] 0 where
  shows := shows_boot order data
  handed_eq := rfl
  submitted _ hb := absurd hb List.not_mem_nil
  taken_le := Nat.le_refl _
  handed_le := Nat.le_refl _

theorem Inv.reserve (h : Inv order ring handed booked n) (c : Nat)
    (hr : ring.reserve order packetInfoSize pgOff = some (e, ring')) :
    e = slotPtr order booked.length ∧
      Inv order ring' handed (booked ++ [⟨c, true, infoAt order ring' e⟩]) n := by
  have hle := h.handed_le
  have hn := Nat.le_trans h.taken_le hle
  obtain ⟨he, hshows⟩ := h.shows.reserve hr
  have htake : ∀ x, (booked ++ [x]).take handed.length = booked.take handed.length :=
    fun x => List.take_append_of_le_length hle
  refine ⟨?_, ?_, ?_, ?_, h.taken_le, ?_⟩
  · rw [he, List.length_map, List.length_drop, Nat.add_sub_cancel' hn]
  · rw [List.drop_append_of_le_length hn, List.map_append]
    exact hshows
  · rw [htake]
    exact h.handed_eq
  · rw [htake]
    exact h.submitted
  · rw [List.length_append]
    omega

/-- An open reservation lies behind all that is handed over. -/
theorem Inv.length_le (h : Inv order ring handed (pre ++ ⟨c, true, p⟩ :: post) n) :
    handed.length ≤ pre.length := by
  by_contra hlt
  have hmem : (⟨c, true, p⟩ : Booking) ∈ (pre ++ ⟨c, true, p⟩ :: post).take handed.length := by
    have hat : (pre ++ ⟨c, true, p⟩ :: post)[pre.length]? = some (⟨c, true, p⟩ : Booking) := by
      rw [List.getElem?_append_right (Nat.le_refl _), Nat.sub_self, List.getElem?_cons_zero]
    exact List.mem_of_getElem? ((List.getElem?_take_of_lt (Nat.lt_of_not_le hlt)).trans hat)
  have hbusy : true = false := h.submitted _ hmem
  cases hbusy

/-- What is done to the slot of an open reservation. -/
theorem Inv.change (h : Inv order ring handed (pre ++ ⟨c, true, p⟩ :: post) n)
    (hshows : ∀ l₁ l₂, n + l₁.length = pre.length → Shows order ring n (l₁ ++ ⟨true, p⟩ :: l₂) →
      Shows order ring' n (l₁ ++ slot :: l₂)) :
    Inv order ring' handed (pre ++ ⟨c, slot⟩ :: post) n := by
  have hle := h.length_le
  have hn := Nat.le_trans h.taken_le hle
  have htake : ∀ x : Booking, (pre ++ x :: post).take handed.length = pre.take handed.length :=
    fun x => List.take_append_of_le_length hle
  have hdrop : ∀ x : Booking, ((pre ++ x :: post).drop n).map (·.slot) =
      (pre.drop n).map (·.slot) ++ x.slot :: post.map (·.slot) := by
    intro x
    rw [List.drop_append_of_le_length hn, List.map_append, List.map_cons]
  have hold := h.shows
  rw [hdrop] at hold
  refine ⟨?_, ?_, ?_, h.taken_le, ?_⟩
  · rw [hdrop]
    refine hshows _ _ ?_ hold
    rw [List.length_map, List.length_drop, Nat.add_sub_cancel' hn]
  · have heq := h.handed_eq
    rw [htake] at heq ⊢
    exact heq
  · have hsub := h.submitted
    rw [htake] at hsub ⊢
    exact hsub
  · have hlen := h.handed_le
    rw [List.length_append, List.length_cons] at hlen ⊢
    exact hlen

theorem Inv.store (h : Inv order ring handed (pre ++ ⟨c, true, p⟩ :: post) n) (q : PacketInfo) :
    Inv order (storeInfo order (slotPtr order pre.length) q ring) handed
      (pre ++ ⟨c, true, q⟩ :: post) n := by
  refine h.change fun l₁ l₂ hlen hshows => ?_
  rw [← hlen]
  exact hshows.store q

theorem Inv.submit (h : Inv order ring handed (pre ++ ⟨c, true, p⟩ :: post) n) :
    Inv order (ring.submit order (slotPtr order pre.length)) handed
      (pre ++ ⟨c, false, p⟩ :: post) n := by
  refine h.change fun l₁ l₂ hlen hshows => ?_
  rw [← hlen]
  exact hshows.submit

theorem Inv.producerPos_eq (h : Inv order ring handed booked n) :
    ring.producerPos = 32 * booked.length := by
  have hn := Nat.le_trans h.taken_le h.handed_le
  rw [h.shows.producerPos_eq, List.length_map, List.length_drop, Nat.add_sub_cancel' hn]

/-- The first slot of the ring is the first reservation that is not taken. -/
theorem Inv.drop_eq (h : booked[n]? = some ⟨c, slot⟩) :
    (booked.drop n).map (·.slot) = slot :: (booked.drop (n + 1)).map (·.slot) := by
  obtain ⟨hi, hb⟩ := List.getElem?_eq_some_iff.mp h
  rw [List.drop_eq_getElem_cons hi, hb, List.map_cons]

theorem Inv.load_eq (h : Inv order ring handed booked n) (hb : booked[n]? = some ⟨c, slot⟩) :
    ring.load order (32 * n % 2 ^ order) = lenWord slot.busy := by
  have hshows := h.shows
  rw [Inv.drop_eq hb] at hshows
  exact hshows.load_eq

/-- The record of the first slot is handed over. -/
theorem Inv.hand (h : Inv order ring handed booked n) (hn : handed.length = n)
    (hb : booked[n]? = some ⟨c, false, p⟩) :
    Inv order ring (handed ++ [infoAt order ring (slotPtr order n)]) booked n := by
  have hshows := h.shows
  rw [Inv.drop_eq hb] at hshows
  have hlen : (handed ++ [infoAt order ring (slotPtr order n)]).length = n + 1 := by
    rw [List.length_append, hn]
    rfl
  have htake : booked.take (n + 1) = booked.take n ++ [⟨c, false, p⟩] := by
    rw [List.take_add_one, hb]
    rfl
  refine ⟨h.shows, ?_, ?_, ?_, ?_⟩
  · rw [hlen, htake, List.map_append, ← hn, ← h.handed_eq, hn, hshows.infoAt_eq]
    rfl
  · rw [hlen, htake]
    intro b hmem
    rcases List.mem_append.mp hmem with hmem | hmem
    · rw [← hn] at hmem
      exact h.submitted b hmem
    · rw [List.mem_singleton.mp hmem]
  · rw [hlen]
    exact Nat.le_succ n
  · rw [hlen]
    exact (List.getElem?_eq_some_iff.mp hb).1

/-- The first slot is given back. -/
theorem Inv.advance (h : Inv order ring handed booked n) (hn : handed.length = n + 1) :
    Inv order { ring with consumerPos := 32 * (n + 1) } handed booked (n + 1) := by
  have hlt : n < booked.length := by
    have := h.handed_le
    omega
  have hshows := h.shows
  rw [Inv.drop_eq (List.getElem?_eq_getElem hlt)] at hshows
  exact ⟨hshows.advance, h.handed_eq, h.submitted, hn.ge, h.handed_le⟩

end Inv

/-! ### Where the parties are -/

/-- What a party knows between two of its operations. -/
inductive Stage
  | free
  /-- a CPU has reserved the slot `i`, which holds `p` -/
  | filling (i : Nat) (p : PacketInfo)
  /-- a CPU has submitted the record of the frame -/
  | submitted (p : PacketInfo)
  /-- the loader has taken `n` reservations, and there are at least `m` -/
  | upTo (n m : Nat)
  /-- moreover the next one is submitted -/
  | ready (n m : Nat)
  /-- its record has been handed over -/
  | given (n m : Nat)

def Stage.opened : Stage → List PacketInfo
  | .filling _ p => [p]
  | _ => []

def Stage.fresh : Stage → List PacketInfo
  | .submitted p => [p]
  | _ => []

/-- The reservations of a CPU: the records of its frames, that of the frame it is processing
once this is submitted, and an open one. -/
structure Books (c : Nat) (booked : List Booking) (log : List Done) (v : Stage) : Prop where
  slots : slotsOf c booked =
    (recordsOf c log ++ v.fresh).map (Slot.mk false) ++ v.opened.map (Slot.mk true)
  opened : ∀ i p, v = .filling i p → booked[i]? = some ⟨c, true, p⟩
  law : ∀ i ∈ framesOf c log, i.Law

/-- Where the loader is. -/
def Place (handed : List PacketInfo) (booked : List Booking) (n : Nat) : Stage → Prop
  | .free => handed.length = n
  | .upTo k m => k = n ∧ handed.length = n ∧ m ≤ booked.length
  | .ready k m => k = n ∧ handed.length = n ∧ m ≤ booked.length ∧
      ∃ c p, booked[n]? = some ⟨c, false, p⟩
  | .given k m => k = n ∧ handed.length = n + 1 ∧ m ≤ booked.length
  | .filling _ _ => False
  | .submitted _ => False

def View (order : Nat) : Who → State → List Done → Stage → Prop
  | .cpu c, s, log, v => (∃ n, Inv order s.ring s.handed s.booked n) ∧ Books c s.booked log v
  | .loader, s, _, v =>
    ∃ n, Inv order s.ring s.handed s.booked n ∧ Place s.handed s.booked n v

def CanCpu (order : Nat) : Xdp.Op → Stage → Prop
  | .store e _, v => ∃ i q, v = .filling i q ∧ e = slotPtr order i
  | .ringbufSubmit e, v => ∃ i q, v = .filling i q ∧ e = slotPtr order i
  | _, v => v = .free

def CanLib (order : Nat) : RingOp → Stage → Prop
  | .epollWait, v => v = .free
  | .loadConsumerPos, v => v = .free
  | .loadProducerPos, v => ∃ n m, v = .upTo n m
  | .loadLen lenPtr, v => ∃ n m, v = .upTo n m ∧ n < m ∧ lenPtr = 32 * n % 2 ^ order
  | .sampleCb sample _, v => ∃ n m, v = .ready n m ∧ sample = slotPtr order n
  | .storeConsumerPos pos, v => ∃ n m, v = .given n m ∧ pos = 32 * (n + 1)

def Can (order : Nat) : Who → Op → Stage → Prop
  | .cpu c, .helper c' op, v => c' = c ∧ CanCpu order op v
  | .cpu _, .lib _, _ => False
  | .loader, .helper _ _, _ => False
  | .loader, .lib op, v => CanLib order op v

def NextCpu (order : Nat) : (op : Xdp.Op) → Stage → op.Res → Stage → Prop
  | .ringbufReserve, v, e, v' =>
    (e = none ∧ v' = v) ∨ ∃ i q, e = some (slotPtr order i) ∧ v' = .filling i q
  | .store _ p, v, _, v' => ∃ i q, v = .filling i q ∧ v' = .filling i p
  | .ringbufSubmit _, v, _, v' => ∃ i q, v = .filling i q ∧ v' = .submitted q
  | _, v, _, v' => v' = v

def NextLib : (op : RingOp) → Stage → op.Res → Stage → Prop
  | .epollWait, v, _, v' => v' = v
  | .loadConsumerPos, _, r, v' => ∃ n, r = 32 * n ∧ v' = .upTo n 0
  | .loadProducerPos, v, r, v' => ∃ n m m', v = .upTo n m ∧ r = 32 * m' ∧ v' = .upTo n m'
  | .loadLen _, v, r, v' => ∃ n m, v = .upTo n m ∧
      ((r = lenWord true ∧ v' = v) ∨ (r = lenWord false ∧ v' = .ready n m))
  | .sampleCb _ _, v, r, v' => ∃ n m, v = .ready n m ∧ r = 0 ∧ v' = .given n m
  | .storeConsumerPos _, v, _, v' => ∃ n m, v = .given n m ∧ v' = .upTo (n + 1) m

def Next (order : Nat) : Who → (op : Op) → Stage → op.Res → Stage → Prop
  | .cpu _, .helper _ op, v, r, v' => NextCpu order op v r v'
  | .cpu _, .lib _, _, _, _ => False
  | .loader, .helper _ _, _, _, _ => False
  | .loader, .lib op, v, r, v' => NextLib op v r v'

/-- The frame is dealt with: it has a record if it is recorded, and none otherwise. -/
def EndCpu (data : Frame) (tr : Trace Xdp.Op Xdp.Op.Res) (a : XdpAction) (v : Stage) : Prop :=
  let i : Finished := ⟨data, tr, a⟩
  i.Law ∧ ((v = .free ∧ ¬ i.Recorded) ∨ (v = .submitted i.record ∧ i.Recorded))

/-- The loader is between two records. -/
def EndLib (v : Stage) : Prop := v = .free ∨ ∃ n m, v = .upTo n m

def End (who : Who) (tag : Task) (tr : Trace Op Op.Res) (a : Outcome) (v : Stage) : Prop :=
  match who with
  | .cpu c => ∃ data tr₀ act, tag = .frame c data ∧ tr = Prog.embedTrace (Op.helper c) tr₀ ∧
      a = .verdict act ∧ EndCpu data tr₀ act v
  | .loader => EndLib v

/-! ### The programs -/

section Programs

variable {order : Nat}

theorem ok_record {data : Frame} (hc : Complete data) :
    (record data).Ok (CanCpu order) (NextCpu order) (EndCpu data) [] .free := by
  simp only [record, ktimeGetNs, printk, ringbufReserve, Prog.perform_bind, Prog.ok_call]
  refine ⟨rfl, fun t _ h₀ => ?_⟩
  obtain rfl := h₀
  refine ⟨rfl, fun _ _ h₁ => ?_⟩
  obtain rfl := h₁
  refine ⟨rfl, fun _ _ h₂ => ?_⟩
  obtain rfl := h₂
  refine ⟨rfl, fun e _ h₃ => ?_⟩
  rcases h₃ with ⟨rfl, rfl⟩ | ⟨i, q, rfl, rfl⟩
  · exact ⟨.full hc, Or.inl ⟨rfl, fun h => absurd h.2 (by simp)⟩⟩
  · refine ⟨⟨i, q, rfl, rfl⟩, fun _ _ h₄ => ?_⟩
    obtain ⟨_, _, hv, rfl⟩ := h₄
    cases hv
    refine ⟨⟨i, _, rfl, rfl⟩, fun _ _ h₅ => ?_⟩
    obtain ⟨_, _, hv, rfl⟩ := h₅
    cases hv
    exact ⟨.complete hc, Or.inr ⟨rfl, hc, rfl⟩⟩

theorem ok_xdpProg (data : Frame) :
    (xdpProg data).Ok (CanCpu order) (NextCpu order) (EndCpu data) [] .free := by
  by_cases hc : Complete data
  · rw [xdpProg_of_complete hc]
    exact ok_record hc
  · have hr : ∀ tr a, ¬ Finished.Recorded ⟨data, tr, a⟩ := fun tr a h => hc h.1
    by_cases hs : Short data
    · rw [xdpProg_of_short hs]
      exact ⟨.short hs, Or.inl ⟨rfl, hr _ _⟩⟩
    · rw [xdpProg_of_other hc hs]
      exact ⟨.other hc hs, Or.inl ⟨rfl, hr _ _⟩⟩

theorem ok_scan (fuel : Nat) :
    ∀ (n m : Nat) (got : Bool) (cnt : Int) (tr : Trace RingOp RingOp.Res),
    (scan order fuel (32 * n) (32 * m) got cnt).Ok (CanLib order) NextLib (fun _ _ => EndLib) tr
      (.upTo n m) := by
  have hbusy : lenWord true &&& busyBit ≠ 0 := by decide
  have hfree : ¬ lenWord false &&& busyBit ≠ 0 := by decide
  have hkept : lenWord false &&& discardBit = 0 := by decide
  have hround : (roundupLen (lenWord false)).toNat = 32 := by decide
  induction fuel with
  | zero =>
    intro n m got cnt tr
    exact Or.inr ⟨n, m, rfl⟩
  | succ fuel ih =>
    intro n m got cnt tr
    simp only [scan, loadLen, sampleCb, storeConsumerPos, Prog.perform_bind]
    by_cases hlt : n < m
    · rw [if_pos (by omega), Prog.ok_call]
      refine ⟨⟨n, m, rfl, hlt, Nat.and_two_pow_sub_one_eq_mod _ _⟩, fun len v hlen => ?_⟩
      obtain ⟨_, _, hv, hlen⟩ := hlen
      cases hv
      rcases hlen with ⟨rfl, rfl⟩ | ⟨rfl, rfl⟩
      · -- the reservation is open
        rw [if_pos hbusy]
        exact Or.inr ⟨n, m, rfl⟩
      · rw [if_neg hfree, if_pos hkept, Prog.ok_call]
        refine ⟨⟨n, m, rfl, ?_⟩, fun err v herr => ?_⟩
        · rw [Nat.and_two_pow_sub_one_eq_mod]
          rfl
        obtain ⟨_, _, hv, rfl, rfl⟩ := herr
        cases hv
        rw [if_neg (Int.lt_irrefl 0), hround, Prog.ok_call]
        refine ⟨⟨n, m, rfl, rfl⟩, fun _ v hstore => ?_⟩
        obtain ⟨_, _, hv, rfl⟩ := hstore
        cases hv
        exact ih (n + 1) m true (cnt + 1) _
    · rw [if_neg (by omega)]
      cases got with
      | false => exact Or.inr ⟨n, m, rfl⟩
      | true =>
        refine ⟨⟨n, m, rfl⟩, fun prodPos v hprod => ?_⟩
        obtain ⟨_, _, m', hv, rfl, rfl⟩ := hprod
        cases hv
        exact ih n m' false cnt _

theorem ok_ringBufferPoll (fuel : Nat) :
    (ringBufferPoll order fuel).Ok (CanLib order) NextLib (fun _ _ => EndLib) [] .free := by
  rw [ringBufferPoll, Prog.perform_bind, Prog.ok_call]
  refine ⟨rfl, fun cnt v hcnt => ?_⟩
  obtain rfl := hcnt
  by_cases hneg : cnt < 0
  · rw [if_pos hneg]
    exact Or.inl rfl
  by_cases hzero : cnt = 0
  · rw [if_neg hneg, if_pos hzero]
    exact Or.inl rfl
  rw [if_neg hneg, if_neg hzero, Prog.ok_bind, processRing]
  refine ⟨rfl, fun consPos v hcons => ?_⟩
  obtain ⟨n, rfl, rfl⟩ := hcons
  refine ⟨⟨n, 0, rfl⟩, fun prodPos v hprod => ?_⟩
  obtain ⟨_, _, m, hv, rfl, rfl⟩ := hprod
  cases hv
  refine (ok_scan fuel n m false 0 _).mono id id fun {_ ret _} hend => ?_
  cases ret with
  | none => exact hend
  | some res => exact hend

end Programs

/-! ### The operations -/

section Steps

variable {order n : Nat} {s s' : State} {log : List Done} {v w : Stage} {inp : Inp}

/-- An operation of a CPU. -/
theorem cpu_step {c : Nat} {op : Xdp.Op} {r : op.Res}
    (hI : Inv order s.ring s.handed s.booked n) (hB : Books c s.booked log v)
    (hcan : CanCpu order op v) (hexec : exec order inp (.helper c op) s = some (r, s')) :
    Inv order s'.ring s'.handed s'.booked n ∧ s'.handed = s.handed ∧ Moves c s.booked s'.booked ∧
      ∃ v', NextCpu order op v r v' ∧ Books c s'.booked log v' := by
  cases op with
  | ktimeGetNs =>
    rw [exec, Option.ite_none_right_eq_some] at hexec
    obtain ⟨-, he⟩ := hexec
    cases he
    exact ⟨hI, rfl, .same _, v, rfl, hB⟩
  | printk fmt ip port ts =>
    cases hexec
    exact ⟨hI, rfl, .same _, v, rfl, hB⟩
  | ringbufReserve =>
    obtain rfl : v = .free := hcan
    rw [exec] at hexec
    split at hexec
    · rename_i e ring hres
      cases hexec
      obtain ⟨he, hI'⟩ := hI.reserve c hres
      refine ⟨hI', rfl, .reserve _ _, .filling s.booked.length (infoAt order ring e),
        Or.inr ⟨_, _, congrArg some he, rfl⟩, ?_, ?_, hB.law⟩
      · rw [slotsOf_append, slotsOf_cons_self, hB.slots, List.append_assoc]
        rfl
      · intro i p hv
        cases hv
        rw [List.getElem?_append_right (Nat.le_refl _), Nat.sub_self]
        rfl
    · cases hexec
      exact ⟨hI, rfl, .same _, .free, Or.inl ⟨rfl, rfl⟩, hB⟩
  | store e p =>
    cases hexec
    obtain ⟨i, q, rfl, rfl⟩ := hcan
    obtain ⟨pre, post, hbooked, rfl⟩ := exists_append_of_getElem? (hB.opened i q rfl)
    have hslots := hB.slots
    rw [hbooked] at hI hslots
    obtain ⟨hmap, hslots'⟩ := map_change_eq (f := ({ · with data := p })) hslots
    simp only
    rw [hbooked, hmap]
    refine ⟨hI.store p, trivial, .change _ _ _ _, .filling pre.length p, ⟨_, q, rfl, rfl⟩,
      hslots', ?_, hB.law⟩
    intro i p' hv
    cases hv
    rw [List.getElem?_append_right (Nat.le_refl _), Nat.sub_self]
    rfl
  | ringbufSubmit e =>
    cases hexec
    obtain ⟨i, q, rfl, rfl⟩ := hcan
    obtain ⟨pre, post, hbooked, rfl⟩ := exists_append_of_getElem? (hB.opened i q rfl)
    have hslots := hB.slots
    rw [hbooked] at hI hslots
    obtain ⟨hmap, hslots'⟩ := map_change_eq (f := ({ · with busy := false })) hslots
    simp only
    rw [hbooked, hmap]
    refine ⟨hI.submit, trivial, .change _ _ _ _, .submitted q, ⟨_, q, rfl, rfl⟩, ?_, ?_, hB.law⟩
    · rw [hslots']
      simp [Stage.fresh, Stage.opened]
    · intro i p hv
      cases hv

/-- An operation of the loader. -/
theorem lib_step {op : RingOp} {r : op.Res} (hI : Inv order s.ring s.handed s.booked n)
    (hP : Place s.handed s.booked n v) (hcan : CanLib order op v)
    (hexec : exec order inp (.lib op) s = some (r, s')) :
    s'.booked = s.booked ∧ ∃ n' v', NextLib op v r v' ∧
      Inv order s'.ring s'.handed s'.booked n' ∧ Place s'.handed s'.booked n' v' := by
  cases op with
  | epollWait =>
    rw [exec, Option.ite_none_right_eq_some] at hexec
    obtain ⟨-, he⟩ := hexec
    cases he
    exact ⟨rfl, n, v, rfl, hI, hP⟩
  | loadConsumerPos =>
    cases hexec
    obtain rfl : v = .free := hcan
    exact ⟨rfl, n, .upTo n 0, ⟨n, hI.shows.1, rfl⟩, hI, rfl, hP, Nat.zero_le _⟩
  | loadProducerPos =>
    cases hexec
    obtain ⟨k, m, rfl⟩ := hcan
    obtain ⟨rfl, hhanded, -⟩ := hP
    exact ⟨rfl, k, .upTo k s.booked.length, ⟨k, m, _, rfl, hI.producerPos_eq, rfl⟩, hI, rfl,
      hhanded, Nat.le_refl _⟩
  | loadLen lenPtr =>
    cases hexec
    obtain ⟨k, m, rfl, hlt, rfl⟩ := hcan
    obtain ⟨rfl, hhanded, hm⟩ := hP
    obtain ⟨⟨c, busy, p⟩, hb⟩ : ∃ b, s.booked[k]? = some b :=
      ⟨_, List.getElem?_eq_getElem (by omega)⟩
    have hload := hI.load_eq hb
    cases busy with
    | true =>
      exact ⟨rfl, k, .upTo k m, ⟨k, m, rfl, Or.inl ⟨hload, rfl⟩⟩, hI, rfl, hhanded, hm⟩
    | false =>
      exact ⟨rfl, k, .ready k m, ⟨k, m, rfl, Or.inr ⟨hload, rfl⟩⟩, hI, rfl, hhanded, hm, c, p, hb⟩
  | sampleCb sample len =>
    cases hexec
    obtain ⟨k, m, rfl, rfl⟩ := hcan
    obtain ⟨rfl, hhanded, hm, c, p, hb⟩ := hP
    refine ⟨rfl, k, .given k m, ⟨k, m, rfl, rfl, rfl⟩, hI.hand hhanded hb, rfl, ?_, hm⟩
    rw [List.length_append, hhanded]
    rfl
  | storeConsumerPos pos =>
    cases hexec
    obtain ⟨k, m, rfl, rfl⟩ := hcan
    obtain ⟨rfl, hhanded, hm⟩ := hP
    exact ⟨rfl, k + 1, .upTo (k + 1) m, ⟨k, m, rfl, rfl⟩, hI.advance hhanded, rfl, hhanded, hm⟩

theorem Books.of_moves {c c' : Nat} (h : Moves c s.booked s'.booked) (hc : c ≠ c')
    (hB : Books c' s.booked log w) : Books c' s'.booked log w where
  slots := (h.slotsOf_of_ne hc).trans hB.slots
  opened i p hv := h.getElem?_eq (hB.opened i p hv) (Or.inl hc.symm)
  law := hB.law

theorem Place.of_moves {c : Nat} (h : Moves c s.booked s'.booked) (hhanded : s'.handed = s.handed)
    (hP : Place s.handed s.booked n w) : Place s'.handed s'.booked n w := by
  have hlen := h.length_le
  rw [hhanded]
  cases w with
  | free => exact hP
  | filling i p => exact hP
  | submitted p => exact hP
  | upTo k m =>
    obtain ⟨hk, hn, hm⟩ := hP
    exact ⟨hk, hn, Nat.le_trans hm hlen⟩
  | ready k m =>
    obtain ⟨hk, hn, hm, c', p, hb⟩ := hP
    exact ⟨hk, hn, Nat.le_trans hm hlen, c', p, h.getElem?_eq hb (Or.inr rfl)⟩
  | given k m =>
    obtain ⟨hk, hn, hm⟩ := hP
    exact ⟨hk, hn, Nat.le_trans hm hlen⟩

theorem view_own {who : Who} {op : Op} {r : op.Res} (hv : View order who s log v)
    (hcan : Can order who op v) (hexec : exec order inp op s = some (r, s')) :
    ∃ v', Next order who op v r v' ∧ View order who s' log v' := by
  cases who with
  | cpu c =>
    cases op with
    | helper c' op =>
      obtain ⟨rfl, hcan⟩ := hcan
      obtain ⟨⟨n, hI⟩, hB⟩ := hv
      obtain ⟨hI', -, -, v', hnext, hB'⟩ := cpu_step hI hB hcan hexec
      exact ⟨v', hnext, ⟨n, hI'⟩, hB'⟩
    | lib op => exact hcan.elim
  | loader =>
    cases op with
    | helper c op => exact hcan.elim
    | lib op =>
      obtain ⟨n, hI, hP⟩ := hv
      obtain ⟨-, n', v', hnext, hI', hP'⟩ := lib_step hI hP hcan hexec
      exact ⟨v', hnext, n', hI', hP'⟩

/-- What one party does, the others do not notice. -/
theorem view_other {who who' : Who} {op : Op} {r : op.Res} (hne : who' ≠ who)
    (hv : View order who s log v) (hcan : Can order who op v)
    (hexec : exec order inp op s = some (r, s')) (hw : View order who' s log w) :
    View order who' s' log w := by
  cases who with
  | cpu c =>
    cases op with
    | lib op => exact hcan.elim
    | helper c' op =>
      obtain ⟨rfl, hcan⟩ := hcan
      obtain ⟨-, hB⟩ := hv
      cases who' with
      | cpu d =>
        obtain ⟨⟨n, hI⟩, hBd⟩ := hw
        obtain ⟨hI', -, hmoves, -⟩ := cpu_step hI hB hcan hexec
        exact ⟨⟨n, hI'⟩, hBd.of_moves hmoves fun h => hne (by rw [h])⟩
      | loader =>
        obtain ⟨n, hI, hP⟩ := hw
        obtain ⟨hI', hhanded, hmoves, -⟩ := cpu_step hI hB hcan hexec
        exact ⟨n, hI', hP.of_moves hmoves hhanded⟩
  | loader =>
    cases op with
    | helper c op => exact hcan.elim
    | lib op =>
      obtain ⟨n, hI, hP⟩ := hv
      obtain ⟨hbooked, n', v', -, hI', -⟩ := lib_step hI hP hcan hexec
      cases who' with
      | cpu d =>
        refine ⟨⟨n', hI'⟩, ?_⟩
        rw [hbooked]
        exact hw.2
      | loader => exact absurd rfl hne

end Steps

theorem view_finish {order : Nat} {tag : Task} {tr : Trace Op Op.Res} {a : Outcome} {s : State}
    {log : List Done} {v : Stage} (hv : View order tag.who s log v)
    (hend : End tag.who tag tr a v) :
    ∃ v', v' = .free ∧ View order tag.who s (log ++ [⟨tag, tr, a⟩]) v' := by
  refine ⟨.free, rfl, ?_⟩
  cases tag with
  | frame c data =>
    obtain ⟨hI, hB⟩ := hv
    obtain ⟨data, tr₀, act, htag, rfl, rfl, hlaw, hcase⟩ := hend
    cases htag
    have hlaws : ∀ i ∈ framesOf c log ++ [⟨data, tr₀, act⟩], i.Law := by
      intro i hi
      rcases List.mem_append.mp hi with hi | hi
      · exact hB.law i hi
      · rw [List.mem_singleton.mp hi]
        exact hlaw
    refine ⟨hI, ?_, ?_, ?_⟩
    · rw [recordsOf, framesOf_snoc, List.filter_append, List.map_append]
      rcases hcase with ⟨rfl, hr⟩ | ⟨rfl, hr⟩
      · rw [List.filter_cons_of_neg (by simpa using hr)]
        exact hB.slots.trans (by simp [recordsOf, Stage.fresh])
      · rw [List.filter_cons_of_pos (by simpa using hr)]
        exact hB.slots.trans (by simp [recordsOf, Stage.fresh, Stage.opened])
    · intro i p h
      cases h
    · rw [framesOf_snoc]
      exact hlaws
  | poll fuel =>
    obtain ⟨n, hI, hP⟩ := hv
    refine ⟨n, hI, ?_⟩
    rcases hend with rfl | ⟨k, m, rfl⟩
    · exact hP
    · exact hP.2.1

theorem view_finish_other {order : Nat} {who : Who} {tag : Task} {tr : Trace Op Op.Res}
    {a : Outcome} {s : State} {log : List Done} {v : Stage} (hne : who ≠ tag.who)
    (hv : View order who s log v) : View order who s (log ++ [⟨tag, tr, a⟩]) v := by
  cases who with
  | loader => exact hv
  | cpu c =>
    obtain ⟨hI, hB⟩ := hv
    have hframes : framesOf c (log ++ [⟨tag, tr, a⟩]) = framesOf c log :=
      framesOf_snoc_of_ne hne.symm
    refine ⟨hI, ?_, hB.opened, ?_⟩
    · rw [recordsOf, hframes]
      exact hB.slots
    · rw [hframes]
      exact hB.law

theorem ok_body {order : Nat} (tag : Task) :
    (tag.body order).Ok (Can order tag.who) (Next order tag.who) (End tag.who tag) [] .free := by
  cases tag with
  | frame c data =>
    show (Prog.embed (Op.helper c) .verdict (xdpProg data) : Prog Op Op.Res Outcome).Ok _ _ _
      (Prog.embedTrace (Op.helper c) [] : Trace Op Op.Res) _
    rw [Prog.ok_embed]
    refine (ok_xdpProg data).mono (fun hcan => ⟨rfl, hcan⟩) id fun {tr a v} hend => ?_
    exact ⟨data, tr, a, rfl, rfl, rfl, hend⟩
  | poll fuel =>
    show (Prog.embed Op.lib .polled (ringBufferPoll order fuel) : Prog Op Op.Res Outcome).Ok _ _ _
      (Prog.embedTrace Op.lib [] : Trace Op Op.Res) _
    rw [Prog.ok_embed]
    exact ok_ringBufferPoll fuel

/-- The outline: every CPU has its books, and the loader its place. -/
def outline (order : Nat) : Outline (smp order) Stage where
  View := View order
  Idle _ v := v = .free
  Can := Can order
  Next := Next order
  Done := End
  spawn {tag v} hidle := by
    subst hidle
    exact ok_body tag
  own hv hcan hexec := view_own hv hcan hexec
  other hne hv hcan hexec hw := view_other hne hv hcan hexec hw
  env {_ e} := e.elim
  finish hv hend := view_finish hv hend
  finish_other hne hv := view_finish_other hne hv

/-! ### Two CPUs -/

/-- The segment is received by CPU 0 and by CPU 1.  CPU 0 reads the clock first, but CPU 1 reserves
and submits before it; the loader polls while the record of CPU 0 is being written. -/
def exampleActs : List (Act Who Inp Empty Task) :=
  let at0 (t : UInt64) : Act Who Inp Empty Task := .step (.cpu 0) ⟨t, 0, 1⟩
  let at1 (t : UInt64) : Act Who Inp Empty Task := .step (.cpu 1) ⟨t, 0, 1⟩
  [.spawn (.frame 0 exampleSegment), at0 5000, .spawn (.frame 1 exampleSegment), at1 7000, at1 0,
    at1 0, at1 0, at1 0, at0 0, at0 0, at0 0, at1 0, .spawn (.poll 5)] ++
  List.replicate 7 (.step .loader ⟨0, 0, 1⟩) ++ [at0 0, at0 0]

def exampleRun := (smp 7).run ((smp 7).init (.boot fun _ => 255)) exampleActs

/-! ### Every run -/

section Runs

variable {order : Nat} {data : Nat → UInt8} {acts : List (Act Who Inp Empty Task)}
  {c : Config Who Op Op.Res State Task Outcome}

theorem view_boot (order : Nat) (data : Nat → UInt8) (who : Who) :
    ∃ v, (outline order).View who (.boot data) [] v ∧ (outline order).Idle who v := by
  refine ⟨.free, ?_, rfl⟩
  cases who with
  | cpu c => exact ⟨⟨0, inv_boot order data⟩, rfl, fun i p h => (nomatch h),
      fun i hi => (nomatch hi)⟩
  | loader => exact ⟨0, inv_boot order data, rfl⟩

theorem books_of_run (hrun : (smp order).run ((smp order).init (.boot data)) acts = some c)
    (cpu : Nat) : ∃ v, Books cpu c.shared.booked c.log v ∧ v.fresh = [] ∧
      (c.running (.cpu cpu) = none → v = .free) := by
  obtain ⟨v, hv, hcase⟩ := (outline order).idle_or_can (view_boot order data) hrun (.cpu cpu)
  refine ⟨v, hv.2, ?_⟩
  rcases hcase with ⟨-, hidle⟩ | ⟨th, op, f, hth, -, hcan⟩
  · obtain rfl : v = .free := hidle
    exact ⟨rfl, fun _ => rfl⟩
  · refine ⟨?_, fun hnone => absurd (hnone.symm.trans hth) (by simp)⟩
    cases op with
    | lib op => exact hcan.elim
    | helper c' op =>
      obtain ⟨-, hcan⟩ := hcan
      cases op with
      | store e p =>
        obtain ⟨i, q, rfl, -⟩ := hcan
        rfl
      | ringbufSubmit e =>
        obtain ⟨i, q, rfl, -⟩ := hcan
        rfl
      | ktimeGetNs =>
        obtain rfl : v = .free := hcan
        rfl
      | printk fmt ip port ts =>
        obtain rfl : v = .free := hcan
        rfl
      | ringbufReserve =>
        obtain rfl : v = .free := hcan
        rfl

theorem inv_of_run (hrun : (smp order).run ((smp order).init (.boot data)) acts = some c) :
    ∃ n, Inv order c.shared.ring c.shared.handed c.shared.booked n ∧
      (c.running .loader = none → c.shared.handed.length = n) := by
  obtain ⟨v, ⟨n, hI, hP⟩, hcase⟩ :=
    (outline order).idle_or_can (view_boot order data) hrun .loader
  refine ⟨n, hI, fun hnone => ?_⟩
  rcases hcase with ⟨-, hidle⟩ | ⟨th, op, f, hth, -⟩
  · obtain rfl : v = .free := hidle
    exact hP
  · exact absurd (hnone.symm.trans hth) (by simp)

/-- The reservation is submitted. -/
def Booking.committed (b : Booking) : Bool := !b.slot.busy

theorem takeWhile_eq_take {l : List Booking} {n : Nat}
    (hall : ∀ b ∈ l.take n, b.committed = true) (hn : ∀ b, l[n]? = some b → b.committed = false) :
    l.takeWhile Booking.committed = l.take n := by
  induction l generalizing n with
  | nil => rw [List.takeWhile_nil, List.take_nil]
  | cons b l ih =>
    cases n with
    | zero => exact List.takeWhile_cons_of_neg (by simpa using hn b rfl)
    | succ n =>
      rw [List.take_succ_cons] at hall ⊢
      rw [List.takeWhile_cons_of_pos (hall b List.mem_cons_self)]
      exact congrArg _ (ih (fun x hx => hall x (List.mem_cons_of_mem b hx)) hn)

/-- What is left when the loader is through. -/
def State.drained (s : State) : State :=
  { s with
    handed := (s.booked.takeWhile Booking.committed).map (·.slot.data)
    ring := { s.ring with consumerPos := 32 * (s.booked.takeWhile Booking.committed).length } }

theorem drained_eq {n : Nat} {s : State} (hI : Inv order s.ring s.handed s.booked n)
    (hn : s.handed.length = n) (hstop : ∀ b, s.booked[n]? = some b → b.committed = false) :
    (s.booked.takeWhile Booking.committed).length = n ∧ s.drained = s := by
  have hwhile : s.booked.takeWhile Booking.committed = s.booked.take n := by
    refine takeWhile_eq_take (fun b hb => ?_) hstop
    rw [← hn] at hb
    rw [Booking.committed, hI.submitted b hb]
    rfl
  have hlen : (s.booked.takeWhile Booking.committed).length = n := by
    rw [hwhile, List.length_take_of_le]
    exact hn ▸ hI.handed_le
  have hhanded : (s.booked.takeWhile Booking.committed).map (·.slot.data) = s.handed := by
    rw [hwhile, ← hn, ← hI.handed_eq]
  have hring : { s.ring with consumerPos := 32 * n } = s.ring := by rw [← hI.shows.1]
  refine ⟨hlen, ?_⟩
  rw [State.drained, hhanded, hlen, hring]

/-- The loop hands over the records up to the first open reservation. -/
theorem run_scan {inp : Inp} (fuel : Nat) : ∀ (n : Nat) (got : Bool) (cnt : Int) (s : State),
    Inv order s.ring s.handed s.booked n → s.handed.length = n →
    s.booked.length - n + 2 ≤ fuel →
    (scan order fuel (32 * n) (32 * s.booked.length) got cnt).run
        (fun op => exec order inp (.lib op)) s =
      some (some (cnt + ((s.booked.takeWhile Booking.committed).length - n : Int)), s.drained) := by
  have hbusy : lenWord true &&& busyBit ≠ 0 := by decide
  have hfree : ¬ lenWord false &&& busyBit ≠ 0 := by decide
  have hkept : lenWord false &&& discardBit = 0 := by decide
  have hround : (roundupLen (lenWord false)).toNat = 32 := by decide
  induction fuel with
  | zero =>
    intro n got cnt s _ _ hfuel
    omega
  | succ fuel ih =>
    intro n got cnt s hI hn hfuel
    have hle := hI.handed_le
    by_cases hlt : n < s.booked.length
    · simp only [scan, loadLen, sampleCb, storeConsumerPos, Prog.perform_bind]
      rw [if_pos (by omega), Prog.run_call, Nat.and_two_pow_sub_one_eq_mod]
      obtain ⟨⟨c, busy, p⟩, hb⟩ : ∃ b, s.booked[n]? = some b := ⟨_, List.getElem?_eq_getElem hlt⟩
      have hload := hI.load_eq hb
      simp only [exec, Option.bind_some, hload]
      cases busy with
      | true =>
        obtain ⟨hlen, hdrained⟩ := drained_eq hI hn fun b hb' => by
          rw [hb] at hb'
          cases hb'
          rfl
        rw [if_pos hbusy, Prog.pure_eq, Prog.run_ret, hlen, hdrained, Int.sub_self, Int.add_zero]
      | false =>
        rw [if_neg hfree, if_pos hkept, Prog.run_call]
        simp only [exec, Option.bind_some]
        rw [if_neg (Int.lt_irrefl 0), Prog.run_call, hround]
        simp only [exec, Option.bind_some]
        have hI₁ := hI.hand hn hb
        have hn₁ : (s.handed ++ [infoAt order s.ring (slotPtr order n)]).length = n + 1 := by
          rw [List.length_append, hn]
          rfl
        have hscan := ih (n + 1) true (cnt + 1)
          { s with
            handed := s.handed ++ [infoAt order s.ring (slotPtr order n)]
            ring := { s.ring with consumerPos := 32 * (n + 1) } } (hI₁.advance hn₁) hn₁
          (by simp only; omega)
        refine hscan.trans ?_
        have hcnt : ∀ N : Int, cnt + 1 + (N - (n + 1 : Nat)) = cnt + (N - n) := by
          intro N
          omega
        rw [hcnt]
        rfl
    · -- all of them are handed over
      obtain ⟨hlen, hdrained⟩ := drained_eq hI hn fun b hb => by
        rw [List.getElem?_eq_none (Nat.le_of_not_lt hlt)] at hb
        cases hb
      rw [hlen, hdrained, Int.sub_self, Int.add_zero]
      cases got with
      | false =>
        rw [scan, if_neg (by omega)]
        rfl
      | true =>
        obtain ⟨fuel, rfl⟩ : ∃ k, fuel = k + 1 := ⟨fuel - 1, by omega⟩
        rw [scan, if_neg (by omega), if_pos rfl, Prog.perform_bind, Prog.run_call]
        simp only [exec, Option.bind_some, hI.producerPos_eq]
        rw [scan, if_neg (by omega)]
        rfl

/-- **A poll drains the ring.**  In every state in which the loader is not polling, a poll
that is woken up and not interrupted returns the number of records that it has handed over,
and leaves nothing before the first open reservation; it comes back after as many steps as
there are slots.  When no CPU is processing a frame, all records of all CPUs are handed over
and the ring is empty. -/
theorem poll_drains (hrun : (smp order).run ((smp order).init (.boot data)) acts = some c)
    (hidle : c.running .loader = none) {inp : Inp} (hready : inp.ready = 1) {fuel : Nat}
    (hfuel : slotCount order + 2 ≤ fuel) (hint : slotCount order ≤ 2147483647) :
    ∃ s', ((smp order).body (.poll fuel)).run ((smp order).exec inp) c.shared =
        some (.polled (some (s'.handed.length - c.shared.handed.length : Int)), s') ∧
      s'.handed = (c.shared.booked.takeWhile Booking.committed).map (·.slot.data) ∧
      s'.booked = c.shared.booked ∧
      ((∀ cpu, c.running (.cpu cpu) = none) →
        s'.ring.consumerPos = s'.ring.producerPos ∧ s'.handed = c.shared.booked.map (·.slot.data) ∧
          ∀ cpu, (c.shared.booked.filter (·.cpu = cpu)).map (·.slot.data) =
            recordsOf cpu c.log) := by
  obtain ⟨n, hI, hn⟩ := inv_of_run hrun
  have hn := hn hidle
  have hle := hI.shows.length_le
  rw [List.length_map, List.length_drop] at hle
  have hring : (processRing order fuel).run (fun op => exec order inp (.lib op)) c.shared =
      some (some (0 + ((c.shared.booked.takeWhile Booking.committed).length - n : Int)),
        c.shared.drained) := by
    rw [← run_scan fuel n false 0 c.shared hI hn (by omega), ← hI.shows.1, ← hI.producerPos_eq]
    rfl
  have hwhile : (c.shared.booked.takeWhile Booking.committed).length ≤ c.shared.booked.length :=
    (List.takeWhile_prefix _).length_le
  have hclamp :
      ¬ 2147483647 < ((c.shared.booked.takeWhile Booking.committed).length - n : Int) := by omega
  refine ⟨c.shared.drained, ?_, rfl, rfl, fun hquiet => ?_⟩
  · show (Prog.embed Op.lib .polled (ringBufferPoll order fuel) : Prog Op Op.Res Outcome).run
      (exec order inp) c.shared = _
    rw [Prog.run_embed, ringBufferPoll, Prog.perform_bind, Prog.run_call]
    simp only [exec, hready, Int.le_refl, if_true, Option.bind_some]
    rw [if_neg (by decide), if_neg (by decide), Prog.run_bind, hring, Option.bind_some,
      Int.zero_add]
    simp only [if_neg hclamp]
    have hlen : c.shared.drained.handed.length =
        (c.shared.booked.takeWhile Booking.committed).length := List.length_map _
    rw [hlen, hn]
    rfl
  · have hslots : ∀ cpu, slotsOf cpu c.shared.booked =
        (recordsOf cpu c.log).map (Slot.mk false) := by
      intro cpu
      obtain ⟨v, hB, -, hfree⟩ := books_of_run hrun cpu
      have hv := hB.slots
      rw [hfree (hquiet cpu)] at hv
      simpa [Stage.fresh, Stage.opened] using hv
    have hall : c.shared.booked.takeWhile Booking.committed = c.shared.booked := by
      refine List.takeWhile_eq_self_iff.mpr fun b hb => ?_
      have hmem : b.slot ∈ slotsOf b.cpu c.shared.booked :=
        List.mem_map_of_mem (List.mem_filter.mpr ⟨hb, by simp⟩)
      rw [hslots] at hmem
      obtain ⟨p, -, hp⟩ := List.mem_map.mp hmem
      rw [Booking.committed, ← hp]
      rfl
    refine ⟨?_, ?_, fun cpu => ?_⟩
    · show 32 * (c.shared.booked.takeWhile Booking.committed).length = c.shared.ring.producerPos
      rw [hall, hI.producerPos_eq]
    · rw [State.drained, hall]
    · have hdata := congrArg (List.map Slot.data) (hslots cpu)
      rw [slotsOf, List.map_map, List.map_map] at hdata
      exact hdata.trans (List.map_id _)

theorem poll_drains_example :
    ∃ c s', exampleRun = some c ∧
      ((smp 7).body (.poll 5)).run ((smp 7).exec ⟨0, 0, 1⟩) c.shared =
        some (.polled (some (s'.handed.length - c.shared.handed.length : Int)), s') ∧
      s'.handed = (c.shared.booked.takeWhile Booking.committed).map (·.slot.data) := by
  have h : exampleRun.map (fun c => (c.running .loader).isNone) = some true := by decide +kernel
  obtain ⟨c, hc, he⟩ := Option.map_eq_some_iff.mp h
  have hready : (⟨0, 0, 1⟩ : Inp).ready = 1 := rfl
  have hfuel : slotCount 7 + 2 ≤ 5 := by decide
  obtain ⟨s', hpoll, hhanded, -⟩ := poll_drains hc (Option.isNone_iff_eq_none.mp he) hready hfuel
    (by decide)
  exact ⟨c, s', hc, hpoll, hhanded⟩

end Runs

end NetworkAnalyse.Xdp.Smp
