import NetworkAnalyse.Lib.Interleave
import NetworkAnalyse.Xdp.Kern

/-!
# The packet monitor over every run

`xdp_prog` processes frames one after the other, and `ring_buffer__poll` of
`xdp_packet_load.c` takes records out of `packet_ringbuf` at any time, also
between two helper calls of the program (`monitor`).

* `Finished.Law`: the verdict on a frame and the helper calls made for it.
* `Ledger`: the records that are out or in the ring, and the slot being filled.
* `monitor_verdicts`: which frames reach the network stack.
* `records_conserved`: the records are those of the frames that did.
-/

namespace NetworkAnalyse.Xdp

open Lib

/-- A frame that has been processed, with the helper calls made for it and the verdict. -/
abbrev Finished := Entry Op Op.Res Frame XdpAction

/-- The program, a frame at a time, and the consumer in between. -/
def monitor : System Unit Op Op.Res Inp Unit Kern Frame XdpAction where
  key _ := ()
  body := xdpProg
  exec := exec
  env _ := consume

/-! ### Reading a trace -/

def readingOf : (Σ op : Op, op.Res) → Option UInt64
  | ⟨.ktimeGetNs, t⟩ => some t
  | _ => none

def reservationOf : (Σ op : Op, op.Res) → Option SlotPtr
  | ⟨.ringbufReserve, e⟩ => e
  | _ => none

def submissionOf : (Σ op : Op, op.Res) → Option SlotPtr
  | ⟨.ringbufSubmit e, _⟩ => some e
  | _ => none

def isRefusal : (Σ op : Op, op.Res) → Bool
  | ⟨.ringbufReserve, none⟩ => true
  | _ => false

namespace Finished

variable (i : Finished)

def reading : Option UInt64 := i.trace.findSome? readingOf

/-- The slots that were reserved for the frame. -/
def reserved : List SlotPtr := i.trace.filterMap reservationOf

/-- The slots that were submitted for the frame. -/
def submitted : List SlotPtr := i.trace.filterMap submissionOf

/-- `bpf_ringbuf_reserve` returned `NULL`. -/
def refused : Bool := i.trace.any isRefusal

/-- A complete TCP segment over IPv4 that was let through. -/
def Recorded : Prop := Complete i.tag ∧ i.result = .pass

instance : Decidable i.Recorded := inferInstanceAs (Decidable (_ ∧ _))

/-- The record of the frame, with its time. -/
def record : PacketInfo := packetInfo i.tag (i.reading.getD 0)

/-- The frame does not reach the network stack: it ends before a header that the
program looks for, or the ring had no room for its record. -/
def Dropped : Prop := Short i.tag ∨ (Complete i.tag ∧ i.refused = true)

instance : Decidable i.Dropped := inferInstanceAs (Decidable (_ ∨ _))

end Finished

/-- The helper calls for a complete frame at the time `t`, when the reservation
gives `e`. -/
def recordTrace (data : Frame) (t : UInt64) (e : Option SlotPtr) : Trace Op Op.Res :=
  let p := packetInfo data t
  [⟨.ktimeGetNs, t⟩,
    ⟨.printk srcFormat p.srcIp p.srcPort p.timestamp, ()⟩,
    ⟨.printk dstFormat p.dstIp p.dstPort p.timestamp, ()⟩,
    ⟨.ringbufReserve, e⟩] ++
  match e with
  | none => []
  | some e => [⟨.store e p, ()⟩, ⟨.ringbufSubmit e, ()⟩]

/-- **What happens to a frame.** -/
inductive Finished.Law : Finished → Prop
  | complete {data : Frame} {t : UInt64} {e : SlotPtr} (h : Complete data) :
      Law ⟨data, recordTrace data t (some e), .pass⟩
  | full {data : Frame} {t : UInt64} (h : Complete data) :
      Law ⟨data, recordTrace data t none, .aborted⟩
  | short {data : Frame} (h : Short data) : Law ⟨data, [], .aborted⟩
  | other {data : Frame} (hc : ¬ Complete data) (hs : ¬ Short data) : Law ⟨data, [], .pass⟩

section Law

variable {i : Finished}

/-- The verdict. -/
theorem Finished.Law.result_eq (h : i.Law) :
    i.result = if i.Dropped then .aborted else .pass := by
  cases h with
  | @complete data t e h =>
    have hd : ¬ Dropped ⟨data, recordTrace data t (some e), .pass⟩ := by
      rintro (hs | ⟨-, hr⟩)
      · exact not_short_of_complete h hs
      · simp [refused, recordTrace, isRefusal] at hr
    rw [if_neg hd]
  | full h => exact (if_pos (Or.inr ⟨h, rfl⟩)).symm
  | short h => exact (if_pos (Or.inl h)).symm
  | @other data hc hs =>
    have hd : ¬ Dropped ⟨data, [], .pass⟩ := by
      rintro (h | h)
      · exact hs h
      · exact hc h.1
    rw [if_neg hd]

/-- Every reservation is submitted, and there is one exactly for the frames that
are recorded. -/
theorem Finished.Law.submitted_eq (h : i.Law) :
    i.submitted = i.reserved ∧ i.submitted.length = (if i.Recorded then 1 else 0) ∧
      (i.Recorded → ∃ t, i.reading = some t) := by
  cases h with
  | complete h =>
    refine ⟨rfl, ?_, fun _ => ⟨_, rfl⟩⟩
    rw [if_pos ⟨h, rfl⟩]
    rfl
  | full h =>
    refine ⟨rfl, ?_, fun hr => absurd hr.2 (by simp)⟩
    rw [if_neg (fun hr => absurd hr.2 (by simp))]
    rfl
  | short h =>
    have hr : ¬ Complete _ := fun hc => not_short_of_complete hc h
    refine ⟨rfl, ?_, fun h => absurd h.1 hr⟩
    rw [if_neg (fun h => hr h.1)]
    rfl
  | other hc hs =>
    refine ⟨rfl, ?_, fun h => absurd h.1 hc⟩
    rw [if_neg (fun h => hc h.1)]
    rfl

end Law

/-! ### The books of the ring -/

/-- The records of the frames that have been processed, the record that the frame
being processed has submitted, the slot that is reserved, and a time that has
passed. -/
structure Ledger where
  past : List Finished
  records : List PacketInfo
  fresh : Option PacketInfo
  slot : Option PacketInfo
  clock : UInt64

namespace Ledger

/-- **The books balance**: the records are those of the frames that are recorded,
in their order and in the order of time. -/
structure Balanced (v : Ledger) : Prop where
  law : ∀ i ∈ v.past, i.Law
  records_eq : v.records = (v.past.filter (·.Recorded)).map Finished.record
  sorted : (v.records.map (·.timestamp)).Pairwise (· ≤ ·)
  past_le : ∀ p ∈ v.records, p.timestamp ≤ v.clock / 1000

def View (_ : Unit) (s : Kern) (h : List Finished) (v : Ledger) : Prop :=
  v.past = h ∧ v.clock = s.clock ∧ v.Balanced ∧
    ∃ rs, s.handed ++ rs = v.records ++ v.fresh.toList ∧ s.ring.head = s.handed.length ∧
      s.ring.Holds rs v.slot

def Idle (_ : Unit) (v : Ledger) : Prop := v.fresh = none ∧ v.slot = none

/-- Once the record is submitted the program is at its end.  It only touches the
slot it has reserved. -/
def Can (_ : Unit) (op : Op) (v : Ledger) : Prop :=
  v.fresh = none ∧
    match op with
    | .ringbufReserve => v.slot = none
    | .store e _ => e = v.records.length ∧ ∃ p, v.slot = some p
    | .ringbufSubmit e => e = v.records.length ∧ ∃ p, v.slot = some p
    | _ => True

def Next (_ : Unit) : (op : Op) → Ledger → op.Res → Ledger → Prop
  | .ktimeGetNs, v, t, v' => v' = { v with clock := t }
  | .printk _ _ _ _, v, _, v' => v' = v
  | .ringbufReserve, v, e, v' => (e = none ∧ v' = v) ∨
      (e = some v.records.length ∧ ∃ stale, v' = { v with slot := some stale })
  | .store _ p, v, _, v' => v' = { v with slot := some p }
  | .ringbufSubmit _, v, _, v' => v' = { v with fresh := v.slot, slot := none }

/-- The frame is dealt with: it has a record if it is recorded, and none otherwise. -/
def Done (_ : Unit) (tag : Frame) (tr : Trace Op Op.Res) (a : XdpAction) (v : Ledger) : Prop :=
  let i : Finished := ⟨tag, tr, a⟩
  i.Law ∧ v.slot = none ∧
    ((v.fresh = none ∧ ¬ i.Recorded) ∨
      (v.fresh = some i.record ∧ i.Recorded ∧ i.record.timestamp = v.clock / 1000))

variable {v : Ledger} {data : Frame} {t : UInt64}

theorem Balanced.later (h : v.Balanced) (ht : v.clock ≤ t) : Balanced { v with clock := t } where
  law := h.law
  records_eq := h.records_eq
  sorted := h.sorted
  past_le p hp := UInt64.le_trans (h.past_le p hp) (by
    rw [UInt64.le_iff_toNat_le, UInt64.toNat_div, UInt64.toNat_div]
    exact Nat.div_le_div_right (UInt64.le_iff_toNat_le.mp ht))

/-- A frame without a record. -/
theorem Balanced.snoc (h : v.Balanced) {i : Finished} (hi : i.Law) (hr : ¬ i.Recorded) :
    Balanced { v with past := v.past ++ [i] } where
  law j hj := by
    rcases List.mem_append.mp hj with hj | hj
    · exact h.law j hj
    · rw [List.mem_singleton.mp hj]
      exact hi
  records_eq := by
    show v.records = ((v.past ++ [i]).filter _).map _
    rw [List.filter_append, List.filter_cons_of_neg (by simpa using hr), List.filter_nil,
      List.append_nil]
    exact h.records_eq
  sorted := h.sorted
  past_le := h.past_le

/-- A frame with its record. -/
theorem Balanced.snoc_record (h : v.Balanced) {i : Finished} (hi : i.Law) (hr : i.Recorded)
    (ht : i.record.timestamp = v.clock / 1000) :
    Balanced { v with records := v.records ++ [i.record], past := v.past ++ [i] } where
  law j hj := by
    rcases List.mem_append.mp hj with hj | hj
    · exact h.law j hj
    · rw [List.mem_singleton.mp hj]
      exact hi
  records_eq := by
    show v.records ++ [i.record] = ((v.past ++ [i]).filter _).map _
    rw [List.filter_append, List.filter_cons_of_pos (by simpa using hr), List.filter_nil,
      List.map_append, ← h.records_eq]
    rfl
  sorted := by
    show ((v.records ++ [i.record]).map _).Pairwise _
    rw [List.map_append, List.pairwise_append]
    refine ⟨h.sorted, by simp, ?_⟩
    intro x hx y hy
    obtain ⟨p, hp, rfl⟩ := List.mem_map.mp hx
    rw [List.map_singleton, List.mem_singleton] at hy
    rw [hy, ht]
    exact h.past_le p hp
  past_le p hp := by
    rcases List.mem_append.mp hp with hp | hp
    · exact h.past_le p hp
    · rw [List.mem_singleton.mp hp, ht]
      exact UInt64.le_refl _

theorem ok_record (hc : Complete data) (hv : v.Idle ()) :
    (record data).Ok (Can ()) (Next ()) (Done () data) [] v := by
  obtain ⟨hfresh, hslot⟩ := hv
  simp only [record, ktimeGetNs, printk, ringbufReserve, Prog.perform_bind, Prog.ok_call]
  refine ⟨⟨hfresh, trivial⟩, fun t _ h₀ => ?_⟩
  obtain rfl := h₀
  refine ⟨⟨hfresh, trivial⟩, fun _ _ h₁ => ?_⟩
  obtain rfl := h₁
  refine ⟨⟨hfresh, trivial⟩, fun _ _ h₂ => ?_⟩
  obtain rfl := h₂
  refine ⟨⟨hfresh, hslot⟩, fun e _ h₃ => ?_⟩
  rcases h₃ with ⟨rfl, rfl⟩ | ⟨rfl, stale, rfl⟩
  · exact ⟨.full hc, hslot, Or.inl ⟨hfresh, fun h => absurd h.2 (by simp)⟩⟩
  · refine ⟨⟨hfresh, rfl, stale, rfl⟩, fun _ _ h₄ => ?_⟩
    obtain rfl := h₄
    refine ⟨⟨hfresh, rfl, _, rfl⟩, fun _ _ h₅ => ?_⟩
    obtain rfl := h₅
    exact ⟨.complete hc, rfl, Or.inr ⟨rfl, ⟨hc, rfl⟩, rfl⟩⟩

theorem ok_xdpProg (hv : v.Idle ()) :
    (xdpProg data).Ok (Can ()) (Next ()) (Done () data) [] v := by
  by_cases hc : Complete data
  · rw [xdpProg_of_complete hc]
    exact ok_record hc hv
  · have hr : ∀ tr a, ¬ Finished.Recorded ⟨data, tr, a⟩ := fun tr a h => hc h.1
    by_cases hs : Short data
    · rw [xdpProg_of_short hs]
      exact ⟨.short hs, hv.2, Or.inl ⟨hv.1, hr _ _⟩⟩
    · rw [xdpProg_of_other hc hs]
      exact ⟨.other hc hs, hv.2, Or.inl ⟨hv.1, hr _ _⟩⟩

/-- A helper call changes the shared state as `Next` says. -/
theorem view_own {k : Unit} {s s' : Kern} {h : List Finished} {inp : Inp} {op : Op} {r : op.Res}
    (hv : View k s h v) (hcan : Can k op v) (hexec : exec inp op s = some (r, s')) :
    ∃ v', Next k op v r v' ∧ View k s' h v' := by
  obtain ⟨hpast, hclock, hb, rs, hrs, hhead, hholds⟩ := hv
  obtain ⟨hfresh, hcan⟩ := hcan
  have hlen : s.ring.head + rs.length = v.records.length := by
    rw [hfresh, Option.toList_none, List.append_nil] at hrs
    rw [hhead, ← hrs, List.length_append]
  cases op with
  | ktimeGetNs =>
    rw [exec, Option.ite_none_right_eq_some] at hexec
    obtain ⟨ht, he⟩ := hexec
    cases he
    exact ⟨{ v with clock := inp.now }, rfl, hpast, rfl, hb.later (hclock ▸ ht), rs, hrs, hhead,
      hholds⟩
  | printk fmt ip port ts =>
    cases hexec
    exact ⟨v, rfl, hpast, hclock, hb, rs, hrs, hhead, hholds⟩
  | ringbufReserve =>
    rw [exec] at hexec
    split at hexec
    · rename_i e ring hres
      cases hexec
      have hslot : v.slot = none := hcan
      rw [hslot] at hholds
      obtain ⟨he, hhead', hholds'⟩ := hholds.reserve hres
      refine ⟨{ v with slot := some inp.stale }, Or.inr ⟨?_, _, rfl⟩, hpast, hclock,
        ⟨hb.law, hb.records_eq, hb.sorted, hb.past_le⟩, rs, hrs, hhead'.trans hhead, hholds'⟩
      rw [he, hlen]
    · cases hexec
      exact ⟨v, Or.inl ⟨rfl, rfl⟩, hpast, hclock, hb, rs, hrs, hhead, hholds⟩
  | store e p =>
    cases hexec
    obtain ⟨he, q, hq⟩ := hcan
    rw [hq] at hholds
    have hring := hholds.write (a := p)
    rw [hlen, ← he] at hring
    exact ⟨{ v with slot := some p }, rfl, hpast, hclock,
      ⟨hb.law, hb.records_eq, hb.sorted, hb.past_le⟩, rs, hrs, hhead, hring⟩
  | ringbufSubmit e =>
    cases hexec
    obtain ⟨he, q, hq⟩ := hcan
    rw [hq] at hholds
    have hring := hholds.submit
    rw [hlen, ← he] at hring
    refine ⟨{ v with fresh := v.slot, slot := none }, rfl, hpast, hclock,
      ⟨hb.law, hb.records_eq, hb.sorted, hb.past_le⟩, rs ++ [q], ?_, hhead, hring⟩
    show s.handed ++ (rs ++ [q]) = v.records ++ v.slot.toList
    rw [hfresh, Option.toList_none, List.append_nil] at hrs
    rw [hq, ← List.append_assoc, hrs]
    rfl

/-- The consumer moves a record from the ring to `handle_event`, which the books
do not notice. -/
theorem view_consume {k : Unit} {s s' : Kern} {h : List Finished} (hc : consume s = some s')
    (hv : View k s h v) : View k s' h v := by
  obtain ⟨hpast, hclock, hb, rs, hrs, hhead, hholds⟩ := hv
  rw [consume, Option.map_eq_some_iff] at hc
  obtain ⟨⟨p, ring⟩, hring, rfl⟩ := hc
  obtain ⟨rest, rfl, hhead', hholds'⟩ := hholds.consume hring
  refine ⟨hpast, hclock, hb, rest, ?_, ?_, hholds'⟩
  · rw [← hrs, List.append_assoc, List.singleton_append]
  · rw [hhead', hhead, List.length_append, List.length_singleton]

theorem view_finish {k : Unit} {s : Kern} {h : List Finished} {tag : Frame}
    {tr : Trace Op Op.Res} {a : XdpAction} (hv : View k s h v) (hdone : Done k tag tr a v) :
    ∃ v', Idle k v' ∧ View k s (h ++ [⟨tag, tr, a⟩]) v' := by
  obtain ⟨hpast, hclock, hb, rs, hrs, hring⟩ := hv
  obtain ⟨hlaw, hslot, ⟨hfresh, hr⟩ | ⟨hfresh, hr, htime⟩⟩ := hdone
  · refine ⟨{ v with past := v.past ++ [⟨tag, tr, a⟩] }, ⟨hfresh, hslot⟩, ?_, hclock,
      hb.snoc hlaw hr, rs, hrs, hring⟩
    rw [hpast]
  · have hb' := hb.snoc_record hlaw hr htime
    rw [hfresh] at hrs
    refine ⟨⟨v.past ++ [⟨tag, tr, a⟩], v.records ++ [Finished.record ⟨tag, tr, a⟩], none, v.slot,
      v.clock⟩, ⟨rfl, hslot⟩, ?_, hclock, ⟨hb'.law, hb'.records_eq, hb'.sorted, hb'.past_le⟩,
      rs, ?_, hring⟩
    · rw [hpast]
    · rw [hrs, Option.toList_none, List.append_nil]
      rfl

end Ledger

/-- The outline: one producer, whose view is the ledger. -/
def books : Outline monitor Ledger where
  View := Ledger.View
  Idle := Ledger.Idle
  Can := Ledger.Can
  Next := Ledger.Next
  Done := Ledger.Done
  spawn hv := Ledger.ok_xdpProg hv
  own hv hcan hexec := Ledger.view_own hv hcan hexec
  other hk _ _ _ _ := absurd rfl hk
  env he hv := Ledger.view_consume he hv
  finish hv hdone := Ledger.view_finish hv hdone
  finish_other hk _ := absurd rfl hk

/-! ### Every run -/

section Runs

variable {acts : List (Act Unit Inp Unit Frame)} {c : Config Unit Op Op.Res Kern Frame XdpAction}

/-- In every state the books balance, and a slot is reserved only while a frame is
being processed. -/
theorem balanced_of_run (hrun : monitor.run (monitor.init Kern.boot) acts = some c) :
    ∃ v : Ledger, v.Balanced ∧ v.past = c.log ∧
      c.shared.handed ++ c.shared.ring.records = v.records ∧
      (c.running () = none → ∀ slot ∈ c.shared.ring.slots, slot.busy = false) := by
  have hboot : ∀ k, ∃ v, books.View k Kern.boot [] v ∧ books.Idle k v := by
    intro k
    refine ⟨⟨[], [], none, none, 0⟩, ⟨rfl, rfl, ?_, [], rfl, rfl, RingBuf.holds_empty⟩, rfl, rfl⟩
    exact ⟨by simp, rfl, List.Pairwise.nil, by simp⟩
  obtain ⟨v, ⟨hpast, -, hb, rs, hrs, -, hholds⟩, hcase⟩ := books.idle_or_can hboot hrun ()
  have hfresh : v.fresh = none := by
    rcases hcase with ⟨-, hidle⟩ | ⟨th, op, f, -, -, hcan⟩
    · exact hidle.1
    · exact hcan.1
  refine ⟨v, hb, hpast, ?_, fun hnone => ?_⟩
  · rw [hholds.records_eq, hrs, hfresh, Option.toList_none, List.append_nil]
  · rcases hcase with ⟨-, -, hslot⟩ | ⟨th, op, f, hsome, -⟩
    · intro slot hmem
      rw [hholds, hslot, Option.toList_none, List.map_nil, List.append_nil] at hmem
      obtain ⟨p, -, rfl⟩ := List.mem_map.mp hmem
      rfl
    · rw [hnone] at hsome
      cases hsome

/-- **Which frames reach the network stack.**  In every run, whatever the consumer
does, the verdict on a frame is `XDP_ABORTED` if the frame ends before a header
that the program looks for, or if it is complete and `bpf_ringbuf_reserve` returned
`NULL` for it, which happens when the ring has no room; otherwise it is `XDP_PASS`. -/
theorem monitor_verdicts (hrun : monitor.run (monitor.init Kern.boot) acts = some c) :
    (∀ i : Finished, i ∈ c.log → i.result = if i.Dropped then .aborted else .pass) ∧
      (c.log.filter (·.result = .pass)).map (·.tag) =
        (c.log.filter (fun i : Finished => ¬ i.Dropped)).map (·.tag) ∧
      ∀ inp s, (∃ s', exec inp .ringbufReserve s = some (none, s')) ↔
        s.ring.slots.length = packetRingbufSlots := by
  obtain ⟨v, hb, hpast, -⟩ := balanced_of_run hrun
  have hverdict : ∀ i : Finished, i ∈ c.log → i.result = if i.Dropped then .aborted else .pass := by
    intro i hi
    exact (hb.law i (hpast ▸ hi)).result_eq
  refine ⟨hverdict, ?_, fun inp s => ?_⟩
  · congr 1
    refine List.filter_congr fun i hi => ?_
    rw [hverdict i hi]
    by_cases hd : Finished.Dropped i
    · simp [hd]
    · simp [hd]
  · rw [← RingBuf.reserve_eq_none_iff inp.stale, exec]
    cases s.ring.reserve inp.stale with
    | none => simp
    | some p => simp

/-- **No record is lost and none is made up.**  In every state of every run the
records that `handle_event` has been given, followed by those in the ring, are the
records of the complete TCP segments that were let through, in the order of the
frames and with nondecreasing timestamps.  Each such frame has read the clock and
submitted one record, any other frame none; whatever is reserved is submitted; and
between frames no slot is left reserved. -/
theorem records_conserved (hrun : monitor.run (monitor.init Kern.boot) acts = some c) :
    c.shared.handed ++ c.shared.ring.records =
        (c.log.filter (fun i : Finished => i.Recorded)).map Finished.record ∧
      (∀ i : Finished, i ∈ c.log → i.submitted = i.reserved ∧
        i.submitted.length = (if i.Recorded then 1 else 0) ∧
        (i.Recorded → ∃ t, i.reading = some t)) ∧
      (c.running () = none → ∀ slot ∈ c.shared.ring.slots, slot.busy = false) ∧
      ((c.shared.handed ++ c.shared.ring.records).map (·.timestamp)).Pairwise (· ≤ ·) := by
  obtain ⟨v, hb, hpast, hrecords, hidle⟩ := balanced_of_run hrun
  refine ⟨?_, fun i hi => ?_, hidle, ?_⟩
  · rw [hrecords, hb.records_eq, hpast]
  · exact (hb.law i (hpast ▸ hi)).submitted_eq
  · rw [hrecords]
    exact hb.sorted

end Runs

/-! ### Examples -/

/-- The last fragment of a TCP segment over IPv4: eight bytes after the header. -/
def exampleFragment : Frame :=
  [0, 0, 0, 0, 0, 0, 0, 0, 0, 0, 0, 0, 8, 0,
    69, 0, 0, 28, 0, 0, 0, 185, 64, 6, 0, 0, 127, 0, 0, 1, 127, 0, 0, 1, 1, 2, 3, 4, 5, 6, 7, 8]

/-- Two segments and a fragment; the consumer takes the first record while the
second one is being written. -/
def exampleActs : List (Act Unit Inp Unit Frame) :=
  [.spawn exampleSegment, .step () (exampleInp 5000), .step () (exampleInp 0),
    .step () (exampleInp 0), .step () (exampleInp 0), .step () (exampleInp 0),
    .step () (exampleInp 0),
    .spawn exampleSegment, .step () (exampleInp 7000), .step () (exampleInp 0),
    .step () (exampleInp 0), .step () (exampleInp 0), .env (), .step () (exampleInp 0),
    .step () (exampleInp 0), .spawn exampleFragment]

def exampleRun := monitor.run (monitor.init Kern.boot) exampleActs

theorem monitor_verdicts_example :
    ∃ c, exampleRun = some c ∧ c.log.map (·.result) = [.pass, .pass, .aborted] ∧
      (c.log.filter (·.result = .pass)).map (·.tag) =
        (c.log.filter (fun i : Finished => ¬ i.Dropped)).map (·.tag) := by
  have h : exampleRun.map (fun c => c.log.map (·.result)) = some [.pass, .pass, .aborted] := by
    rfl
  obtain ⟨c, hc, hlog⟩ := Option.map_eq_some_iff.mp h
  exact ⟨c, hc, hlog, (monitor_verdicts hc).2.1⟩

theorem records_conserved_example :
    ∃ c, exampleRun = some c ∧ c.shared.handed.map (·.timestamp) = [5] ∧
      c.shared.ring.records.map (·.timestamp) = [7] ∧
      c.shared.handed ++ c.shared.ring.records =
        (c.log.filter (fun i : Finished => i.Recorded)).map Finished.record := by
  have h : exampleRun.map (fun c => (c.shared.handed.map (·.timestamp),
      c.shared.ring.records.map (·.timestamp))) = some ([5], [7]) := by
    rfl
  obtain ⟨c, hc, he⟩ := Option.map_eq_some_iff.mp h
  obtain ⟨hhanded, hring⟩ := Prod.mk.inj he
  exact ⟨c, hc, hhanded, hring, (records_conserved hc).1⟩

/-! ### Frames that do not pass -/

/-- Segments that nobody drains fill the ring. -/
theorem exists_run_filling {n : Nat} (hn : n ≤ packetRingbufSlots) :
    ∃ acts c, monitor.run (monitor.init Kern.boot) acts = some c ∧ c.running () = none ∧
      c.shared.clock = 0 ∧ c.shared.ring.slots.length = n ∧
      c.log.map (fun i => (i.tag, i.result)) = List.replicate n (exampleSegment, .pass) := by
  induction n with
  | zero => exact ⟨[], _, rfl, rfl, rfl, rfl, rfl⟩
  | succ n ih =>
    obtain ⟨acts, c, hrun, hidle, hclock, hlen, hlog⟩ := ih (Nat.le_of_succ_le hn)
    obtain ⟨e, ring, hres, hlen'⟩ := RingBuf.exists_reserve_of_lt (exampleInp 0).stale
      (show c.shared.ring.slots.length < packetRingbufSlots by omega)
    have hnow : c.shared.clock ≤ (exampleInp 0).now := by
      rw [hclock]
      exact UInt64.le_refl _
    obtain ⟨acts', tr, hrun'⟩ :=
      System.exists_run_of_run (S := monitor) (exampleInp 0) exampleSegment hidle
      (run_xdpProg_of_room complete_exampleSegment hnow hres)
    refine ⟨acts ++ acts', _, (System.run_append_of_run hrun acts').trans hrun', ?_, rfl, ?_, ?_⟩
    · show Function.update c.running () none () = none
      rw [Function.update_self]
    · show ((ring.write _ _).submit _).slots.length = n + 1
      rw [RingBuf.submit, RingBuf.write, RingBuf.length_slots_modify, RingBuf.length_slots_modify,
        hlen', hlen]
    · rw [List.map_append, hlog, List.replicate_succ']
      rfl

/-- **Frames that do not pass.**  A fragment whose payload is shorter than a TCP
header is dropped; and when nobody drains the ring, so is the segment after the one
that fills it. -/
theorem monitor_drops :
    (∃ c, monitor.run (monitor.init Kern.boot) [.spawn exampleFragment] = some c ∧
      ethHdrLen ≤ exampleFragment.length ∧ c.log.map (·.tag) = [exampleFragment] ∧
      (c.log.filter (·.result = .pass)).map (·.tag) = []) ∧
    ∃ acts c, monitor.run (monitor.init Kern.boot) acts = some c ∧
      c.log.map (·.tag) = List.replicate (packetRingbufSlots + 1) exampleSegment ∧
      (c.log.filter (·.result = .pass)).map (·.tag) =
        List.replicate packetRingbufSlots exampleSegment := by
  constructor
  · exact ⟨_, rfl, by decide, rfl, rfl⟩
  · obtain ⟨acts, c, hrun, hidle, hclock, hlen, hlog⟩ := exists_run_filling (Nat.le_refl _)
    have hres := (RingBuf.reserve_eq_none_iff (exampleInp 0).stale).mpr hlen
    have hnow : c.shared.clock ≤ (exampleInp 0).now := by
      rw [hclock]
      exact UInt64.le_refl _
    obtain ⟨acts', tr, hrun'⟩ :=
      System.exists_run_of_run (S := monitor) (exampleInp 0) exampleSegment hidle
      (run_xdpProg_of_full complete_exampleSegment hnow hres)
    have htag : c.log.map (·.tag) = List.replicate packetRingbufSlots exampleSegment := by
      have := congrArg (List.map Prod.fst) hlog
      rwa [List.map_map, List.map_replicate] at this
    have hpass : c.log.filter (·.result = .pass) = c.log := by
      refine List.filter_eq_self.mpr fun i hi => ?_
      have hmem := List.mem_map_of_mem (f := fun i : Finished => (i.tag, i.result)) hi
      rw [hlog] at hmem
      have := (List.mem_replicate.mp hmem).2
      simpa using congrArg Prod.snd this
    refine ⟨acts ++ acts', _, (System.run_append_of_run hrun acts').trans hrun', ?_, ?_⟩
    · rw [List.map_append, htag, List.replicate_succ']
      rfl
    · rw [List.filter_append, hpass, List.map_append, htag]
      exact List.append_nil _

end NetworkAnalyse.Xdp
