import NetworkAnalyse.Lib.Interleave
import NetworkAnalyse.Libbpf.PerfBuffer

/-!
# From `bpf_perf_event_output` to the callbacks

The kernel puts records into the buffer of a CPU, and the process of `tcp_analyse.c` or
`tcp_analyse_service.c` calls `perf_buffer__poll`.  The kernel may act between any two operations of
the process (`perf`).  When there is no room it counts the output as lost, and it tells
the count with the next output that has room.

* `report`: what the process is to be told of the outputs of a CPU.
* `Pending`: the records in a buffer are the part of the report for which there has been no
  callback.
* `perf_conserved`: this holds in every state of every run.
* `perf_in_bounds`: the process does not read past the data area, and it does not write past
  the copy.
* `poll_delivers`: a poll that is not interrupted tells all that there is.
-/

namespace NetworkAnalyse.Libbpf.Delivery

open Lib Lib.Bytes Lib.Circular

/-! ### The system -/

/-- A call of `bpf_perf_event_output`: what it gave, and whether there was room. -/
structure Sent where
  data : List UInt8
  accepted : Bool
  deriving DecidableEq, Repr

/-- There was no room. -/
def Sent.refused (o : Sent) : Bool := !o.accepted

structure CpuBuf where
  /-- `data_tail` is the consumer's position, `data_head` the producer's -/
  ring : Ring
  /-- the kernel's count since the last record -/
  lost : UInt64
  /-- `*copy_mem`, of `*copy_size` bytes -/
  copy : List UInt8
  /-- the calls of `sample_cb` and `lost_cb` -/
  calls : List PerfEvent
  /-- the history, which no answer depends on -/
  sent : List Sent

abbrev State := Nat → CpuBuf

/-- The buffers are empty; the memory holds anything. -/
def State.boot (mem : Nat → Nat → UInt8) : State := fun cpu => ⟨.boot (mem cpu), 0, [], [], []⟩

/-- What the environment chooses: the result of `epoll_wait`, whether `malloc` finds memory, and
what this holds. -/
structure Inp where
  ready : Except Nat (List Nat)
  alloc : Bool
  heap : Nat → UInt8

/-- A load outside the data area and an access outside the copy are refused. -/
def exec (order : Nat) (inp : Inp) : (op : PerfOp) → State → Option (op.Res × State)
  | .epollWait, s => some (inp.ready, s)
  | .readHead cpu, s => some ((s cpu).ring.producerPos, s)
  | .readTail cpu, s => some ((s cpu).ring.consumerPos, s)
  | .load cpu a n, s => if a + n ≤ 2 ^ order then some (cells (s cpu).ring.data a n, s) else none
  | .copySize cpu, s => some ((s cpu).copy.length, s)
  | .malloc cpu n, s => some (inp.alloc, Function.update s cpu
      { s cpu with copy := if inp.alloc then cells inp.heap 0 n else [] })
  | .memcpy cpu off bytes, s =>
    if off + bytes.length ≤ (s cpu).copy.length then
      some ((), Function.update s cpu { s cpu with copy := put (s cpu).copy off bytes })
    else none
  | .loadCopy cpu off n, s =>
    if off + n ≤ (s cpu).copy.length then some (((s cpu).copy.drop off).take n, s) else none
  | .sampleCb cpu data, s => some ((), Function.update s cpu
      { s cpu with calls := (s cpu).calls ++ [.sample data] })
  | .lostCb cpu lost, s => some ((), Function.update s cpu
      { s cpu with calls := (s cpu).calls ++ [.lost lost] })
  | .writeTail cpu tail, s => some ((), Function.update s cpu
      { s cpu with ring := { (s cpu).ring with consumerPos := tail } })

/-- What the kernel is given, and what it puts beside it. -/
structure Output where
  cpu : Nat
  payload : List UInt8
  /-- what lies behind the payload -/
  pad : List UInt8
  misc : UInt16
  id : UInt64

/-- The size of a sample and its own size field are together a multiple of eight. -/
def padLen (n : Nat) : Nat := (n + 4 + 7) / 8 * 8 - 4 - n

def Output.records (e : Output) (lost : UInt64) : List Record :=
  if lost = 0 then [⟨e.misc, e.id, .sample (e.payload ++ e.pad)⟩]
  else [⟨e.misc, e.id, .lost lost⟩, ⟨e.misc, e.id, .sample (e.payload ++ e.pad)⟩]

/-- The kernel publishes `data_head` when all is written, and it leaves one byte free. -/
def CpuBuf.output (order : Nat) (e : Output) (b : CpuBuf) : CpuBuf :=
  if b.ring.producerPos - b.ring.consumerPos + recordsSize (e.records b.lost) ≤ 2 ^ order - 1 then
    { b with
      ring := (e.records b.lost).foldl (fun ring r => ring.append order r.bytes) b.ring
      lost := 0
      sent := b.sent ++ [⟨e.payload ++ e.pad, true⟩] }
  else
    { b with lost := b.lost + 1, sent := b.sent ++ [⟨e.payload ++ e.pad, false⟩] }

def output (order : Nat) (e : Output) (s : State) : Option State :=
  if e.pad.length = padLen e.payload.length ∧ 12 + e.payload.length + e.pad.length < 65536 then
    some (Function.update s e.cpu ((s e.cpu).output order e))
  else none

/-- One process that polls, and the kernel.  There are at most as many records as bytes. -/
def perf (order : Nat) : System Unit PerfOp PerfOp.Res Inp Output State Unit (Option Int) where
  key := id
  body _ := perfBufferPoll order (2 ^ order)
  exec := exec order
  env := output order

/-! ### What the process is to be told -/

/-- The events in their order, and the count that is not told yet. -/
def tell (p : List PerfEvent × UInt64) (o : Sent) : List PerfEvent × UInt64 :=
  if o.accepted then
    (p.1 ++ ((if p.2 = 0 then [] else [.lost p.2]) ++ [.sample o.data]), 0)
  else (p.1, p.2 + 1)

def report (sent : List Sent) : List PerfEvent × UInt64 := sent.foldl tell ([], 0)

theorem report_snoc (sent : List Sent) (o : Sent) :
    report (sent ++ [o]) = tell (report sent) o := by
  rw [report, List.foldl_append]
  rfl

def sampleOf : PerfEvent → Option (List UInt8)
  | .sample data => some data
  | .lost _ => none

/-- The samples among the events. -/
def samplesOf (l : List PerfEvent) : List (List UInt8) := l.filterMap sampleOf

def lostCount : PerfEvent → UInt64
  | .sample _ => 0
  | .lost n => n

/-- The outputs that the events count as lost. -/
def lostTotal (l : List PerfEvent) : UInt64 := l.foldr (fun e n => lostCount e + n) 0

theorem lostTotal_append (l₁ l₂ : List PerfEvent) :
    lostTotal (l₁ ++ l₂) = lostTotal l₁ + lostTotal l₂ := by
  induction l₁ with
  | nil => exact (UInt64.zero_add _).symm
  | cons e l ih =>
    show lostCount e + lostTotal (l ++ l₂) = lostCount e + lostTotal l + lostTotal l₂
    rw [ih, UInt64.add_assoc]

/-- The report names the outputs for which there was room, in their order. -/
theorem samplesOf_report (sent : List Sent) :
    samplesOf (report sent).1 = (sent.filter (·.accepted)).map (·.data) := by
  induction sent using List.reverseRecOn with
  | nil => rfl
  | append_singleton sent o ih =>
    rw [report_snoc, List.filter_append, List.map_append, ← ih, tell]
    by_cases ho : o.accepted = true
    · rw [if_pos ho, List.filter_cons_of_pos ho, samplesOf, List.filterMap_append]
      congr 1
      by_cases hz : (report sent).2 = 0
      · rw [if_pos hz]
        rfl
      · rw [if_neg hz]
        rfl
    · rw [if_neg ho, List.filter_cons_of_neg ho]
      exact (List.append_nil _).symm

/-- It counts all the others. -/
theorem lostTotal_report (sent : List Sent) :
    lostTotal (report sent).1 + (report sent).2 =
      .ofNat (sent.filter Sent.refused).length := by
  induction sent using List.reverseRecOn with
  | nil => rfl
  | append_singleton sent o ih =>
    rw [report_snoc, List.filter_append, List.length_append, UInt64.ofNat_add, ← ih, tell]
    by_cases ho : o.accepted = true
    · have hnot : ¬ o.refused = true := by simp [Sent.refused, ho]
      rw [if_pos ho, List.filter_cons_of_neg hnot, lostTotal_append, lostTotal_append]
      by_cases hz : (report sent).2 = 0
      · rw [if_pos hz, hz]
        rfl
      · rw [if_neg hz]
        simp [lostTotal, lostCount]
    · have hnot : o.refused = true := by simpa [Sent.refused] using ho
      rw [if_neg ho, List.filter_cons_of_pos hnot, UInt64.add_assoc]
      rfl

/-! ### The records of a buffer -/

/-- The callbacks have been made for the records `gone` of the buffer, and not for the others. -/
structure Pending (order : Nat) (b : CpuBuf) (gone left : List Record) : Prop where
  holds : b.ring.Holds order ((gone ++ left).map Record.bytes)
  fits : ∀ r ∈ gone ++ left, r.Fits
  aligned : 8 ∣ b.ring.consumerPos
  calls_eq : b.calls ++ left.map (·.event) = (report b.sent).1
  lost_eq : b.lost = (report b.sent).2

theorem dvd_of_padLen {n m : Nat} (h : m = padLen n) : 8 ∣ 12 + (n + m) := by
  rw [h, padLen]
  omega

section Pending

variable {order : Nat} {b : CpuBuf} {gone left : List Record} {r : Record} {e : Output}

theorem pending_boot (order : Nat) (mem : Nat → UInt8) :
    Pending order ⟨.boot mem, 0, [], [], []⟩ [] [] where
  holds := Ring.holds_boot order mem
  fits _ h := absurd h List.not_mem_nil
  aligned := Nat.dvd_zero 8
  calls_eq := rfl
  lost_eq := rfl

theorem Pending.producer (h : Pending order b gone left) :
    b.ring.producerPos = b.ring.consumerPos + (recordsSize gone + recordsSize left) := by
  rw [← recordsSize_append]
  exact h.holds.producer

theorem Pending.room (h : Pending order b gone left) :
    recordsSize gone + recordsSize left < 2 ^ order := by
  have hpow := Nat.two_pow_pos order
  have hroom : recordsSize (gone ++ left) ≤ 2 ^ order - 1 := h.holds.room
  rw [recordsSize_append] at hroom
  omega

/-- What the process loads of the first record for which there has been no callback. -/
theorem Pending.cells_eq (h : Pending order b gone (r :: left)) {a off n : Nat}
    (hn : off + n ≤ r.bytes.length)
    (ha : a % 2 ^ order = (b.ring.consumerPos + recordsSize gone + off) % 2 ^ order)
    (hfit : a + n ≤ 2 ^ order) : cells b.ring.data a n = (r.bytes.drop off).take n := by
  have hholds := h.holds
  rw [List.map_append, List.map_cons] at hholds
  exact hholds.cells_eq hn ha hfit

/-- The callback for this record. -/
theorem Pending.hand (h : Pending order b gone (r :: left)) :
    Pending order { b with calls := b.calls ++ [r.event] } (gone ++ [r]) left where
  holds := by
    have hholds := h.holds
    rwa [List.append_cons] at hholds
  fits := by
    have hfits := h.fits
    rwa [List.append_cons] at hfits
  aligned := h.aligned
  calls_eq := by
    rw [← h.calls_eq, List.map_cons, List.append_assoc]
    rfl
  lost_eq := h.lost_eq

/-- The tail is written. -/
theorem Pending.advance (h : Pending order b gone left) :
    Pending order { b with
      ring := { b.ring with consumerPos := b.ring.consumerPos + recordsSize gone } } [] left where
  holds := by
    have hholds := h.holds
    rw [List.map_append] at hholds
    exact hholds.advances
  fits r hr := h.fits r (List.mem_append_right _ hr)
  aligned := Nat.dvd_add h.aligned
    (dvd_recordsSize fun r hr => h.fits r (List.mem_append_left _ hr))
  calls_eq := h.calls_eq
  lost_eq := h.lost_eq

theorem Pending.of_copy (h : Pending order b gone left) (copy : List UInt8) :
    Pending order { b with copy := copy } gone left :=
  ⟨h.holds, h.fits, h.aligned, h.calls_eq, h.lost_eq⟩

theorem holds_foldl_append (l : List Record) : ∀ {ring : Ring} {chunks : List (List UInt8)},
    ring.Holds order chunks → chunks.flatten.length + recordsSize l ≤ 2 ^ order - 1 →
    (l.foldl (fun ring r => ring.append order r.bytes) ring).Holds order
        (chunks ++ l.map Record.bytes) ∧
      (l.foldl (fun ring r => ring.append order r.bytes) ring).consumerPos = ring.consumerPos := by
  induction l with
  | nil =>
    intro ring chunks h _
    rw [List.map_nil, List.append_nil]
    exact ⟨h, rfl⟩
  | cons r l ih =>
    intro ring chunks h hroom
    rw [recordsSize_cons] at hroom
    have hfirst : chunks.flatten.length + r.bytes.length ≤ 2 ^ order - 1 := by omega
    have h₁ := h.append hfirst
    obtain ⟨h₂, hpos⟩ := ih h₁ (by
      rw [List.flatten_append, List.flatten_singleton, List.length_append]
      omega)
    rw [List.map_cons, List.append_cons]
    exact ⟨h₂, hpos⟩

theorem fits_records (hpad : e.pad.length = padLen e.payload.length)
    (hlt : 12 + e.payload.length + e.pad.length < 65536) (lost : UInt64) :
    ∀ r ∈ e.records lost, r.Fits := by
  have hsample : Record.Fits ⟨e.misc, e.id, .sample (e.payload ++ e.pad)⟩ := by
    constructor
    · rw [Record.length_bytes_sample rfl, List.length_append]
      exact dvd_of_padLen hpad
    · rw [Record.length_bytes_sample rfl, List.length_append]
      omega
  have hlost : Record.Fits ⟨e.misc, e.id, .lost lost⟩ := by
    constructor
    · rw [Record.length_bytes_lost rfl]
      decide
    · rw [Record.length_bytes_lost rfl]
      decide
  intro r hr
  rw [Output.records] at hr
  by_cases hz : lost = 0
  · rw [if_pos hz, List.mem_singleton] at hr
    rw [hr]
    exact hsample
  · rw [if_neg hz, List.mem_cons, List.mem_singleton] at hr
    rcases hr with rfl | rfl
    · exact hlost
    · exact hsample

theorem map_event_records (e : Output) (lost : UInt64) : (e.records lost).map (·.event) =
    (if lost = 0 then [] else [.lost lost]) ++ [.sample (e.payload ++ e.pad)] := by
  rw [Output.records]
  by_cases hz : lost = 0
  · rw [if_pos hz, if_pos hz]
    rfl
  · rw [if_neg hz, if_neg hz]
    rfl

/-- An output of the kernel, with room or without. -/
theorem Pending.output (h : Pending order b gone left)
    (hpad : e.pad.length = padLen e.payload.length)
    (hlt : 12 + e.payload.length + e.pad.length < 65536) :
    (b.output order e).ring.consumerPos = b.ring.consumerPos ∧
      (b.output order e).copy = b.copy ∧
      ∃ new, Pending order (b.output order e) gone (left ++ new) := by
  rw [CpuBuf.output]
  split
  · rename_i hroom
    have hused : b.ring.producerPos - b.ring.consumerPos =
        ((gone ++ left).map Record.bytes).flatten.length := by
      rw [h.holds.producer, Nat.add_sub_cancel_left]
    rw [hused] at hroom
    obtain ⟨hholds, hpos⟩ := holds_foldl_append _ h.holds hroom
    refine ⟨hpos, rfl, e.records b.lost, ?_, ?_, ?_, ?_, ?_⟩
    · rw [← List.append_assoc, List.map_append]
      exact hholds
    · rw [← List.append_assoc]
      exact List.forall_mem_append.mpr ⟨h.fits, fits_records hpad hlt b.lost⟩
    · rw [hpos]
      exact h.aligned
    · rw [report_snoc, tell, if_pos rfl, List.map_append, ← List.append_assoc, h.calls_eq,
        map_event_records, h.lost_eq]
    · rw [report_snoc, tell, if_pos rfl]
  · refine ⟨rfl, rfl, [], ?_, ?_, h.aligned, ?_, ?_⟩
    · rw [List.append_nil]
      exact h.holds
    · rw [List.append_nil]
      exact h.fits
    · rw [report_snoc, tell, List.append_nil]
      exact h.calls_eq
    · rw [report_snoc, tell, h.lost_eq]
      rfl

end Pending

/-! ### Where the process is -/

inductive Phase
  /-- outside of `perf_event_read_simple` -/
  | rest
  /-- it has read `data_head` -/
  | headed (cpu dataHead : Nat)
  /-- there has been no callback for the records `todo`, the first of which lies at `dataTail` -/
  | reading (cpu : Nat) (todo : List Record) (dataTail : Nat)
  /-- moreover the copy has room for the first one, and holds `n` bytes of it -/
  | copied (cpu : Nat) (todo : List Record) (dataTail n : Nat)

@[ext] structure Stage where
  /-- the CPUs whose buffers it has read to the end -/
  seen : List Nat
  phase : Phase

/-- The first of the records is being read. -/
def Handling (phase : Phase) (cpu : Nat) (r : Record) (l : List Record) (tail : Nat) : Prop :=
  phase = .reading cpu (r :: l) tail ∨ ∃ n, phase = .copied cpu (r :: l) tail n

theorem Handling.unique {phase : Phase} {cpu cpu' tail tail' : Nat} {r r' : Record}
    {l l' : List Record} (h : Handling phase cpu r l tail) (h' : Handling phase cpu' r' l' tail') :
    r' = r ∧ l' = l ∧ tail' = tail := by
  rcases h with rfl | ⟨n, rfl⟩
  · rcases h' with h' | ⟨_, h'⟩
    · cases h'
      exact ⟨rfl, rfl, rfl⟩
    · cases h'
  · rcases h' with h' | ⟨_, h'⟩
    · cases h'
    · cases h'
      exact ⟨rfl, rfl, rfl⟩

def Can (order : Nat) : PerfOp → Stage → Prop
  | .epollWait, v => v.phase = .rest
  | .readHead _, v => v.phase = .rest
  | .readTail cpu, v => ∃ head, v.phase = .headed cpu head
  | .load cpu a n, v => ∃ r l tail off, Handling v.phase cpu r l tail ∧ off + n ≤ r.bytes.length ∧
      a % 2 ^ order = (tail + off) % 2 ^ order ∧ a + n ≤ 2 ^ order
  | .copySize cpu, v => ∃ r l tail, v.phase = .reading cpu (r :: l) tail
  | .malloc cpu n, v => ∃ r l tail, v.phase = .reading cpu (r :: l) tail ∧ n = r.bytes.length
  | .memcpy cpu off bytes, v => ∃ r l tail, v.phase = .copied cpu (r :: l) tail off ∧
      off + bytes.length ≤ r.bytes.length ∧ bytes = (r.bytes.drop off).take bytes.length
  | .loadCopy cpu off n, v => ∃ r l tail, v.phase = .copied cpu (r :: l) tail r.bytes.length ∧
      off + n ≤ r.bytes.length
  | .sampleCb cpu data, v => ∃ r l tail, Handling v.phase cpu r l tail ∧ r.event = .sample data
  | .lostCb cpu n, v => ∃ r l tail, Handling v.phase cpu r l tail ∧ r.event = .lost n
  | .writeTail cpu tail, v => ∃ l, v.phase = .reading cpu l tail

def NextPhase (order : Nat) : (op : PerfOp) → Phase → op.Res → Phase → Prop
  | .epollWait, v, _, v' => v' = v
  | .readHead cpu, _, head, v' => v' = .headed cpu head
  | .readTail cpu, v, tail, v' => ∃ head l, v = .headed cpu head ∧ head = tail + recordsSize l ∧
      (∀ r ∈ l, r.Fits) ∧ 8 ∣ tail ∧ recordsSize l < 2 ^ order ∧ v' = .reading cpu l tail
  | .load cpu a n, v, bytes, v' => v' = v ∧ ∀ r l tail off, Handling v cpu r l tail →
      off + n ≤ r.bytes.length → a % 2 ^ order = (tail + off) % 2 ^ order → a + n ≤ 2 ^ order →
      bytes = (r.bytes.drop off).take n
  | .copySize cpu, v, n, v' => ∃ r l tail, v = .reading cpu (r :: l) tail ∧
      v' = if n < r.bytes.length then v else .copied cpu (r :: l) tail 0
  | .malloc cpu _, v, ok, v' => ∃ r l tail, v = .reading cpu (r :: l) tail ∧
      v' = if ok = true then .copied cpu (r :: l) tail 0 else v
  | .memcpy cpu off bytes, v, _, v' => ∃ r l tail, v = .copied cpu (r :: l) tail off ∧
      v' = .copied cpu (r :: l) tail (off + bytes.length)
  | .loadCopy cpu off n, v, bytes, v' => v' = v ∧ ∃ r l tail,
      v = .copied cpu (r :: l) tail r.bytes.length ∧ bytes = (r.bytes.drop off).take n
  | .sampleCb cpu _, v, _, v' => ∃ r l tail, Handling v cpu r l tail ∧
      v' = .reading cpu l (tail + r.bytes.length)
  | .lostCb cpu _, v, _, v' => ∃ r l tail, Handling v cpu r l tail ∧
      v' = .reading cpu l (tail + r.bytes.length)
  | .writeTail _ _, _, _, v' => v' = .rest

/-- A buffer is read to the end when the tail is written and no record is left. -/
def seenAfter : PerfOp → Stage → List Nat
  | .writeTail cpu _, ⟨seen, .reading _ [] _⟩ => cpu :: seen
  | _, v => v.seen

def Next (order : Nat) (op : PerfOp) (v : Stage) (r : op.Res) (v' : Stage) : Prop :=
  NextPhase order op v.phase r v'.phase ∧ v'.seen = seenAfter op v

/-- There was no memory for a copy. -/
def Failed (tr : Trace PerfOp PerfOp.Res) : Prop :=
  ∃ cpu n, ⟨.malloc cpu n, false⟩ ∈ tr

/-- What `perf_buffer__poll` returns. -/
def Returns (tr : Trace PerfOp PerfOp.Res) (ret : Option Int) (seen : List Nat) : Prop :=
  (∃ errno : Nat, ⟨.epollWait, .error errno⟩ ∈ tr ∧ ret = some (-(errno : Int))) ∨
  ∃ events : List Nat, ⟨.epollWait, .ok events⟩ ∈ tr ∧
    ((ret = some (events.length : Int) ∧ ∀ cpu ∈ events, cpu ∈ seen) ∨
      (ret = some (-1) ∧ Failed tr))

/-! ### The program -/

section Program

variable {order cpu tail : Nat} {r : Record} {l : List Record} {v : Stage} {e : RecordPtr}

/-- The pointer leads to the first of the records. -/
def Points (order : Nat) (phase : Phase) (cpu : Nat) (r : Record) (l : List Record) (tail : Nat) :
    RecordPtr → Prop
  | .base a => phase = .reading cpu (r :: l) tail ∧ a = tail % 2 ^ order ∧
      a + r.bytes.length ≤ 2 ^ order
  | .copy => phase = .copied cpu (r :: l) tail r.bytes.length

theorem Points.handling (h : Points order v.phase cpu r l tail e) :
    Handling v.phase cpu r l tail := by
  cases e with
  | base a => exact Or.inl h.1
  | copy => exact Or.inr ⟨_, h⟩

theorem ok_fetch (hp : Points order v.phase cpu r l tail e) {off n : Nat}
    (hn : off + n ≤ r.bytes.length) (tr : Trace PerfOp PerfOp.Res) :
    (e.fetch cpu off n).Ok (Can order) (Next order)
      (fun _ bytes v' => v' = v ∧ bytes = (r.bytes.drop off).take n) tr v := by
  cases e with
  | base a =>
    obtain ⟨hphase, rfl, hfit⟩ := hp
    have hmod : (tail % 2 ^ order + off) % 2 ^ order = (tail + off) % 2 ^ order :=
      Nat.mod_add_mod _ _ _
    refine ⟨⟨r, l, tail, off, Or.inl hphase, hn, hmod, by omega⟩, fun bytes v' hnext => ?_⟩
    obtain ⟨⟨hphase', hbytes⟩, hseen⟩ := hnext
    exact ⟨Stage.ext hseen hphase', hbytes r l tail off (Or.inl hphase) hn hmod (by omega)⟩
  | copy =>
    have hphase : v.phase = .copied cpu (r :: l) tail r.bytes.length := hp
    refine ⟨⟨r, l, tail, hphase, hn⟩, fun bytes v' hnext => ?_⟩
    obtain ⟨⟨hphase', r', l', tail', heq, hbytes⟩, hseen⟩ := hnext
    rw [hphase] at heq
    cases heq
    exact ⟨Stage.ext hseen hphase', hbytes⟩

theorem ok_processRecord (hp : Points order v.phase cpu r l tail e) (hfits : r.Fits)
    (tr : Trace PerfOp PerfOp.Res) :
    (perfBufferProcessRecord cpu e).Ok (Can order) (Next order)
      (fun _ ret v' => ret = .cont ∧ v' = ⟨v.seen, .reading cpu l (tail + r.bytes.length)⟩)
      tr v := by
  have htwelve := r.twelve_le
  have hhandling := hp.handling
  rw [perfBufferProcessRecord, Prog.ok_bind]
  refine (ok_fetch hp (by omega) tr).mono id id fun {tr₁ type v₁} h₁ => ?_
  obtain ⟨rfl, rfl⟩ := h₁
  cases he : r.event with
  | sample data =>
    have hlen := Record.length_bytes_sample he
    rw [Record.type_sample he, if_pos rfl, Prog.ok_bind]
    refine (ok_fetch hp (by omega) tr₁).mono id id fun {tr₂ size v₂} h₂ => ?_
    obtain ⟨rfl, rfl⟩ := h₂
    rw [hfits.sample_size_eq he, Prog.ok_bind]
    refine (ok_fetch hp (by omega) tr₂).mono id id fun {tr₃ bytes v₃} h₃ => ?_
    obtain ⟨rfl, rfl⟩ := h₃
    rw [Record.sample_data_eq he]
    refine ⟨⟨r, l, tail, hhandling, he⟩, fun _ v' hnext => ⟨rfl, ?_⟩⟩
    obtain ⟨⟨r', l', tail', hhandling', hphase⟩, hseen⟩ := hnext
    obtain ⟨rfl, rfl, rfl⟩ := hhandling.unique hhandling'
    exact Stage.ext hseen hphase
  | lost n =>
    have hlen := Record.length_bytes_lost he
    rw [Record.type_lost he, if_neg (by decide), if_pos rfl, Prog.ok_bind]
    refine (ok_fetch hp (by omega) tr₁).mono id id fun {tr₂ lost v₂} h₂ => ?_
    obtain ⟨rfl, rfl⟩ := h₂
    rw [Record.lost_eq he]
    refine ⟨⟨r, l, tail, hhandling, he⟩, fun _ v' hnext => ⟨rfl, ?_⟩⟩
    obtain ⟨⟨r', l', tail', hhandling', hphase⟩, hseen⟩ := hnext
    obtain ⟨rfl, rfl, rfl⟩ := hhandling.unique hhandling'
    exact Stage.ext hseen hphase

/-- The two halves of the record make the record. -/
theorem ok_copyRecord {seen : List Nat} (hlong : 2 ^ order < tail % 2 ^ order + r.bytes.length)
    (hroom : r.bytes.length < 2 ^ order) (tr : Trace PerfOp PerfOp.Res) :
    (copyRecord order cpu (tail % 2 ^ order) r.bytes.length).Ok (Can order) (Next order)
      (fun _ e v' => v'.seen = seen ∧ Points order v'.phase cpu r l tail e) tr
      ⟨seen, .copied cpu (r :: l) tail 0⟩ := by
  have hlt := Nat.mod_lt tail (Nat.two_pow_pos order)
  have hsecnd : 0 % 2 ^ order = (tail + (2 ^ order - tail % 2 ^ order)) % 2 ^ order := by
    rw [← Nat.mod_add_mod, Nat.add_sub_cancel' hlt.le, Nat.mod_self, Nat.zero_mod]
  simp only [copyRecord, PerfOp.call, Prog.perform_bind]
  have hhandling : ∀ n, Handling (.copied cpu (r :: l) tail n) cpu r l tail :=
    fun n => Or.inr ⟨n, rfl⟩
  refine ⟨⟨r, l, tail, 0, hhandling 0, by omega, Nat.mod_mod _ _, by omega⟩, fun b₁ v₁ h₁ => ?_⟩
  obtain ⟨⟨hphase₁, hb₁⟩, hseen₁⟩ := h₁
  have hb₁ := hb₁ r l tail 0 (hhandling 0) (by omega) (Nat.mod_mod _ _) (by omega)
  have hlen₁ : b₁.length = 2 ^ order - tail % 2 ^ order := by
    rw [hb₁, List.length_take_of_le]
    rw [List.length_drop]
    omega
  refine ⟨⟨r, l, tail, hphase₁, by omega, by rw [hlen₁]; exact hb₁⟩, fun _ v₂ h₂ => ?_⟩
  obtain ⟨⟨_, _, _, heq, hphase₂⟩, hseen₂⟩ := h₂
  rw [hphase₁] at heq
  cases heq
  rw [Nat.zero_add, hlen₁] at hphase₂
  have hhandling₂ : Handling v₂.phase cpu r l tail := Or.inr ⟨_, hphase₂⟩
  refine ⟨⟨r, l, tail, _, hhandling₂, by omega, hsecnd, by omega⟩, fun b₂ v₃ h₃ => ?_⟩
  obtain ⟨⟨hphase₃, hb₂⟩, hseen₃⟩ := h₃
  have hb₂ := hb₂ r l tail _ hhandling₂ (by omega) hsecnd (by omega)
  have hlen₂ : b₂.length = r.bytes.length - (2 ^ order - tail % 2 ^ order) := by
    rw [hb₂, List.length_take_of_le]
    rw [List.length_drop]
  rw [hphase₂] at hphase₃
  refine ⟨⟨r, l, tail, hphase₃, by omega, by rw [hlen₂]; exact hb₂⟩, fun _ v₄ h₄ => ?_⟩
  obtain ⟨⟨_, _, _, heq, hphase₄⟩, hseen₄⟩ := h₄
  rw [hphase₃] at heq
  cases heq
  rw [hlen₂, Nat.add_sub_cancel' (by omega)] at hphase₄
  exact ⟨hseen₄.trans (hseen₃.trans (hseen₂.trans hseen₁)), hphase₄⟩

theorem ok_locate {seen : List Nat} (hroom : r.bytes.length < 2 ^ order)
    (tr : Trace PerfOp PerfOp.Res) :
    (locate order cpu (tail % 2 ^ order) r.bytes.length).Ok (Can order) (Next order)
      (fun tr' o v' => v'.seen = seen ∧
        ((∃ e, o = some e ∧ Points order v'.phase cpu r l tail e) ∨
          (o = none ∧ v'.phase = .reading cpu (r :: l) tail ∧ Failed tr'))) tr
      ⟨seen, .reading cpu (r :: l) tail⟩ := by
  simp only [locate, PerfOp.call, Prog.perform_bind]
  by_cases hlong : 2 ^ order < tail % 2 ^ order + r.bytes.length
  · rw [if_pos hlong, Prog.ok_call]
    refine ⟨⟨r, l, tail, rfl⟩, fun copySize v₁ h₁ => ?_⟩
    obtain ⟨⟨_, _, _, heq, hphase₁⟩, hseen₁⟩ := h₁
    cases heq
    by_cases hsize : copySize < r.bytes.length
    · rw [if_pos hsize] at hphase₁ ⊢
      rw [Prog.ok_call]
      refine ⟨⟨r, l, tail, hphase₁, rfl⟩, fun copyMem v₂ h₂ => ?_⟩
      obtain ⟨⟨_, _, _, heq, hphase₂⟩, hseen₂⟩ := h₂
      rw [hphase₁] at heq
      cases heq
      cases copyMem with
      | false =>
        refine ⟨hseen₂.trans hseen₁, Or.inr ⟨rfl, hphase₂.trans hphase₁, cpu, r.bytes.length, ?_⟩⟩
        exact List.mem_append_right _ (List.mem_singleton.mpr rfl)
      | true =>
        obtain rfl : v₂ = ⟨seen, .copied cpu (r :: l) tail 0⟩ :=
          Stage.ext (hseen₂.trans hseen₁) hphase₂
        rw [if_pos rfl, Prog.ok_bind]
        refine (ok_copyRecord hlong hroom _).mono id id fun {_ e _} h => ?_
        exact ⟨h.1, Or.inl ⟨e, rfl, h.2⟩⟩
    · rw [if_neg hsize] at hphase₁ ⊢
      obtain rfl : v₁ = ⟨seen, .copied cpu (r :: l) tail 0⟩ := Stage.ext hseen₁ hphase₁
      rw [Prog.ok_bind]
      refine (ok_copyRecord hlong hroom _).mono id id fun {_ e _} h => ?_
      exact ⟨h.1, Or.inl ⟨e, rfl, h.2⟩⟩
  · rw [if_neg hlong]
    exact ⟨rfl, Or.inl ⟨_, rfl, rfl, rfl, Nat.le_of_not_lt hlong⟩⟩

/-- The header of a record does not go around the end. -/
theorem header_fits (horder : 3 ≤ order) (haligned : 8 ∣ tail) :
    tail % 2 ^ order + 8 ≤ 2 ^ order := by
  have hdvd : 8 ∣ 2 ^ order := Nat.pow_dvd_pow 2 horder
  have hmod : 8 ∣ tail % 2 ^ order := (Nat.dvd_mod_iff hdvd).mpr haligned
  have hlt := Nat.mod_lt tail (Nat.two_pow_pos order)
  omega

/-- The loop reads to the head, unless there is no memory for a copy. -/
theorem ok_readLoop {head : Nat} {seen : List Nat} (horder : 3 ≤ order) (fuel : Nat) :
    ∀ (l : List Record) (tail : Nat) (tr : Trace PerfOp PerfOp.Res), l.length < fuel →
      head = tail + recordsSize l → (∀ r ∈ l, r.Fits) → 8 ∣ tail → recordsSize l < 2 ^ order →
      (readLoop order cpu head fuel tail .cont).Ok (Can order) (Next order)
        (fun tr' o v' => ∃ ret l' tail', o = some (ret, tail') ∧
          v' = ⟨seen, .reading cpu l' tail'⟩ ∧
          ((ret = .cont ∧ l' = []) ∨ (ret = .error ∧ Failed tr'))) tr
        ⟨seen, .reading cpu l tail⟩ := by
  induction fuel with
  | zero =>
    intro l tail tr hfuel
    exact absurd hfuel (Nat.not_lt_zero _)
  | succ fuel ih =>
    intro l tail tr hfuel hhead hfits haligned hroom
    simp only [readLoop, PerfOp.call, Prog.perform_bind]
    rw [Nat.and_two_pow_sub_one_eq_mod]
    cases l with
    | nil =>
      have heq : head = tail := hhead
      rw [if_pos heq]
      exact ⟨.cont, [], tail, rfl, rfl, Or.inl ⟨rfl, rfl⟩⟩
    | cons r l =>
      rw [List.forall_mem_cons] at hfits
      rw [recordsSize_cons] at hhead hroom
      rw [List.length_cons] at hfuel
      have htwelve := r.twelve_le
      have hheader := header_fits horder haligned
      have hmod : (tail % 2 ^ order + 6) % 2 ^ order = (tail + 6) % 2 ^ order :=
        Nat.mod_add_mod _ _ _
      have hhandling : Handling (.reading cpu (r :: l) tail) cpu r l tail := Or.inl rfl
      rw [if_neg (by omega), Prog.ok_call]
      refine ⟨⟨r, l, tail, 6, hhandling, by omega, hmod, by omega⟩, fun size v₁ h₁ => ?_⟩
      obtain ⟨⟨hphase₁, hsize⟩, hseen₁⟩ := h₁
      have hsize := hsize r l tail 6 hhandling (by omega) hmod (by omega)
      obtain rfl : v₁ = ⟨seen, .reading cpu (r :: l) tail⟩ := Stage.ext hseen₁ hphase₁
      rw [hsize, hfits.1.size_eq, Prog.ok_bind]
      refine (ok_locate (by omega) _).mono id id fun {tr₂ o v₂} h₂ => ?_
      obtain ⟨hseen₂, ⟨e, rfl, hp⟩ | ⟨rfl, hphase₂, hfailed⟩⟩ := h₂
      · rw [Prog.ok_bind]
        refine (ok_processRecord hp hfits.1 tr₂).mono id id fun {tr₃ ret v₃} h₃ => ?_
        obtain ⟨rfl, rfl⟩ := h₃
        rw [if_neg (fun h => h rfl), hseen₂]
        exact ih l (tail + r.bytes.length) tr₃ (by omega) (by omega) hfits.2
          (Nat.dvd_add haligned hfits.1.aligned) (by omega)
      · exact ⟨.error, r :: l, tail, rfl, Stage.ext hseen₂ hphase₂, Or.inr ⟨rfl, hfailed⟩⟩

theorem Failed.append {tr : Trace PerfOp PerfOp.Res} (h : Failed tr)
    (tr' : Trace PerfOp PerfOp.Res) : Failed (tr ++ tr') := by
  obtain ⟨c, n, hmem⟩ := h
  exact ⟨c, n, List.mem_append_left _ hmem⟩

/-- A buffer is read to the end, unless there is no memory for a copy. -/
theorem ok_processRecords {seen : List Nat} (horder : 3 ≤ order) (tr : Trace PerfOp PerfOp.Res) :
    (perfBufferProcessRecords order (2 ^ order) cpu).Ok (Can order) (Next order)
      (fun tr' o v' => v'.phase = .rest ∧ (∀ c ∈ seen, c ∈ v'.seen) ∧
        ((o = some 0 ∧ cpu ∈ v'.seen) ∨ (o = some (-1) ∧ Failed tr'))) tr ⟨seen, .rest⟩ := by
  simp only [perfBufferProcessRecords, perfEventReadSimple, PerfOp.call, Prog.perform_bind,
    Prog.call_bind]
  refine ⟨rfl, fun head v₁ h₁ => ?_⟩
  obtain rfl : v₁ = ⟨seen, .headed cpu head⟩ := Stage.ext h₁.2 h₁.1
  refine ⟨⟨head, rfl⟩, fun tail v₂ h₂ => ?_⟩
  obtain ⟨⟨_, l, heq, hhead, hfits, haligned, hroom, hphase₂⟩, hseen₂⟩ := h₂
  cases heq
  obtain rfl : v₂ = ⟨seen, .reading cpu l tail⟩ := Stage.ext hseen₂ hphase₂
  have hlen := length_le_recordsSize l
  simp only
  rw [Prog.ok_bind, Prog.ok_bind]
  refine (ok_readLoop horder (2 ^ order) l tail _ (by omega) hhead hfits haligned hroom).mono id id
    fun {tr₃ o v₃} h₃ => ?_
  obtain ⟨ret, l', tail', rfl, rfl, hend⟩ := h₃
  refine ⟨⟨l', rfl⟩, fun _ v₄ h₄ => ?_⟩
  obtain ⟨hphase₄, hseen₄⟩ := h₄
  rcases hend with ⟨rfl, rfl⟩ | ⟨rfl, hfailed⟩
  · have hmem : v₄.seen = cpu :: seen := hseen₄
    refine ⟨hphase₄, ?_, Or.inl ⟨rfl, ?_⟩⟩
    · rw [hmem]
      exact fun c hc => List.mem_cons_of_mem cpu hc
    · rw [hmem]
      exact List.mem_cons_self
  · refine ⟨hphase₄, ?_, Or.inr ⟨rfl, hfailed.append _⟩⟩
    intro c hc
    rw [hseen₄]
    cases l' with
    | nil => exact List.mem_cons_of_mem cpu hc
    | cons r l' => exact hc

theorem ok_processEvents (horder : 3 ≤ order) (events : List Nat) :
    ∀ (seen : List Nat) (tr : Trace PerfOp PerfOp.Res),
      (processEvents order (2 ^ order) events).Ok (Can order) (Next order)
        (fun tr' o v' => v'.phase = .rest ∧ (∀ c ∈ seen, c ∈ v'.seen) ∧
          ((o = some 0 ∧ ∀ c ∈ events, c ∈ v'.seen) ∨ (o = some (-1) ∧ Failed tr'))) tr
        ⟨seen, .rest⟩ := by
  induction events with
  | nil =>
    intro seen tr
    exact ⟨rfl, fun c hc => hc, Or.inl ⟨rfl, fun c hc => absurd hc List.not_mem_nil⟩⟩
  | cons cpu events ih =>
    intro seen tr
    rw [processEvents, Prog.ok_bind]
    refine (ok_processRecords horder tr).mono id id fun {tr₁ o v₁} h₁ => ?_
    obtain ⟨hphase, hkeeps, ⟨rfl, hcpu⟩ | ⟨rfl, hfailed⟩⟩ := h₁
    · obtain ⟨seen₁, phase₁⟩ := v₁
      obtain rfl : phase₁ = .rest := hphase
      simp only
      rw [if_neg (fun h => h rfl)]
      refine (ih seen₁ tr₁).mono id id fun {tr₂ o v₂} h₂ => ?_
      obtain ⟨hphase₂, hkeeps₂, hend⟩ := h₂
      refine ⟨hphase₂, fun c hc => hkeeps₂ c (hkeeps c hc), hend.imp_left fun h => ⟨h.1, ?_⟩⟩
      exact List.forall_mem_cons.mpr ⟨hkeeps₂ cpu hcpu, h.2⟩
    · exact ⟨hphase, hkeeps, Or.inr ⟨rfl, hfailed⟩⟩

theorem ok_perfBufferPoll (horder : 3 ≤ order) :
    (perfBufferPoll order (2 ^ order)).Ok (Can order) (Next order)
      (fun tr ret v => v.phase = .rest ∧ Returns tr ret v.seen) [] ⟨[], .rest⟩ := by
  rw [perfBufferPoll, PerfOp.call, Prog.perform_bind, Prog.ok_call]
  refine ⟨rfl, fun ready v₁ h₁ => ?_⟩
  obtain rfl : v₁ = ⟨[], .rest⟩ := Stage.ext h₁.2 h₁.1
  cases ready with
  | error errno => exact ⟨rfl, Or.inl ⟨errno, List.mem_singleton.mpr rfl, rfl⟩⟩
  | ok events =>
    simp only
    rw [Prog.ok_bind]
    refine (ok_processEvents horder events [] _).keeps_trace.mono id id fun {tr₂ o v₂} h₂ => ?_
    obtain ⟨htr, hphase, -, hend⟩ := h₂
    have hmem : (⟨.epollWait, .ok events⟩ : Σ op : PerfOp, op.Res) ∈ tr₂ :=
      htr.subset (List.mem_singleton.mpr rfl)
    rcases hend with ⟨rfl, hseen⟩ | ⟨rfl, hfailed⟩
    · exact ⟨hphase, Or.inr ⟨events, hmem, Or.inl ⟨rfl, hseen⟩⟩⟩
    · exact ⟨hphase, Or.inr ⟨events, hmem, Or.inr ⟨rfl, hfailed⟩⟩⟩

end Program

/-! ### What holds of the buffers -/

def Others (order : Nat) (s : State) (cpu : Nat) : Prop :=
  ∀ c, c ≠ cpu → ∃ l, Pending order (s c) [] l

/-- The buffer of `cpu` is being read; behind the records `todo` there may be newer ones. -/
def At (order : Nat) (s : State) (cpu : Nat) (todo : List Record) (tail : Nat) : Prop :=
  Others order s cpu ∧ ∃ gone newer, Pending order (s cpu) gone (todo ++ newer) ∧
    tail = (s cpu).ring.consumerPos + recordsSize gone

def Place (order : Nat) (s : State) : Phase → Prop
  | .rest => ∀ c, ∃ l, Pending order (s c) [] l
  | .headed cpu head => Others order s cpu ∧ ∃ todo newer,
      Pending order (s cpu) [] (todo ++ newer) ∧
      head = (s cpu).ring.consumerPos + recordsSize todo
  | .reading cpu todo tail => At order s cpu todo tail
  | .copied cpu todo tail n => At order s cpu todo tail ∧ ∃ r l, todo = r :: l ∧
      r.bytes.length ≤ (s cpu).copy.length ∧ n ≤ r.bytes.length ∧
      (s cpu).copy.take n = r.bytes.take n

section Steps

variable {order cpu tail : Nat} {s s' : State} {v : Stage} {r : Record} {l : List Record}
  {inp : Inp} {b : CpuBuf}

theorem Others.update (h : Others order s cpu) (b : CpuBuf) :
    Others order (Function.update s cpu b) cpu := by
  intro c hc
  rw [Function.update_of_ne hc]
  exact h c hc

theorem Place.at_of_handling {phase : Phase} (h : Place order s phase)
    (hh : Handling phase cpu r l tail) : At order s cpu (r :: l) tail := by
  rcases hh with rfl | ⟨n, rfl⟩
  · exact h
  · exact h.1

theorem At.of_copy (h : At order s cpu (r :: l) tail) (copy : List UInt8) :
    At order (Function.update s cpu { s cpu with copy := copy }) cpu (r :: l) tail := by
  obtain ⟨hothers, gone, newer, hpend, rfl⟩ := h
  refine ⟨hothers.update _, gone, newer, ?_, ?_⟩
  · rw [Function.update_self]
    exact hpend.of_copy copy
  · rw [Function.update_self]

/-- A callback for the first of the records. -/
theorem At.hand (h : At order s cpu (r :: l) tail) {event : PerfEvent} (he : r.event = event) :
    At order (Function.update s cpu { s cpu with calls := (s cpu).calls ++ [event] }) cpu l
      (tail + r.bytes.length) := by
  obtain ⟨hothers, gone, newer, hpend, rfl⟩ := h
  subst he
  refine ⟨hothers.update _, gone ++ [r], newer, ?_, ?_⟩
  · rw [Function.update_self]
    exact hpend.hand
  · rw [Function.update_self, recordsSize_append, recordsSize_cons, recordsSize_nil, Nat.add_zero,
      ← Nat.add_assoc]

/-- The tail is written. -/
theorem At.advance (h : At order s cpu l tail) (c : Nat) :
    ∃ l', Pending order (Function.update s cpu
      { s cpu with ring := { (s cpu).ring with consumerPos := tail } } c) [] l' := by
  obtain ⟨hothers, gone, newer, hpend, rfl⟩ := h
  by_cases hc : c = cpu
  · subst hc
    rw [Function.update_self]
    exact ⟨l ++ newer, hpend.advance⟩
  · rw [Function.update_of_ne hc]
    exact hothers c hc

theorem At.cells_eq (h : At order s cpu (r :: l) tail) {a off n : Nat}
    (hn : off + n ≤ r.bytes.length) (ha : a % 2 ^ order = (tail + off) % 2 ^ order)
    (hfit : a + n ≤ 2 ^ order) : cells (s cpu).ring.data a n = (r.bytes.drop off).take n := by
  obtain ⟨-, gone, newer, hpend, rfl⟩ := h
  exact hpend.cells_eq hn ha hfit

/-- The operations that the process may perform are not refused, and what is known of the
buffers is carried on. -/
theorem exec_step {op : PerfOp} (hP : Place order s v.phase) (hcan : Can order op v) (inp : Inp) :
    ∃ r s' v', exec order inp op s = some (r, s') ∧ Next order op v r v' ∧
      Place order s' v'.phase := by
  obtain ⟨seen, phase⟩ := v
  cases op with
  | epollWait => exact ⟨inp.ready, s, ⟨seen, phase⟩, rfl, ⟨rfl, rfl⟩, hP⟩
  | readHead cpu =>
    obtain rfl : phase = .rest := hcan
    obtain ⟨l, hl⟩ := hP cpu
    refine ⟨_, s, ⟨seen, .headed cpu (s cpu).ring.producerPos⟩, rfl, ⟨rfl, rfl⟩, fun c _ => hP c,
      l, [], ?_, ?_⟩
    · rw [List.append_nil]
      exact hl
    · rw [hl.producer, recordsSize_nil, Nat.zero_add]
  | readTail cpu =>
    obtain ⟨head, rfl⟩ : ∃ head, phase = .headed cpu head := hcan
    obtain ⟨hothers, todo, newer, hpend, rfl⟩ := hP
    have hroom := hpend.room
    rw [recordsSize_nil, Nat.zero_add, recordsSize_append] at hroom
    have hfits : ∀ r ∈ todo, r.Fits :=
      fun r hr => hpend.fits r (List.mem_append_right [] (List.mem_append_left _ hr))
    exact ⟨_, s, ⟨seen, .reading cpu todo (s cpu).ring.consumerPos⟩, rfl,
      ⟨⟨_, todo, rfl, rfl, hfits, hpend.aligned, by omega, rfl⟩, rfl⟩, hothers, [], newer,
      hpend, rfl⟩
  | load cpu a n =>
    obtain ⟨r, l, tail, off, hh, hn, ha, hfit⟩ := hcan
    refine ⟨_, s, ⟨seen, phase⟩, if_pos hfit, ⟨⟨rfl, ?_⟩, rfl⟩, hP⟩
    intro r l tail off hh hn ha hfit
    exact (hP.at_of_handling hh).cells_eq hn ha hfit
  | copySize cpu =>
    obtain ⟨r, l, tail, rfl⟩ : ∃ r l tail, phase = .reading cpu (r :: l) tail := hcan
    by_cases hlt : (s cpu).copy.length < r.bytes.length
    · refine ⟨_, s, ⟨seen, .reading cpu (r :: l) tail⟩, rfl, ⟨⟨r, l, tail, rfl, ?_⟩, rfl⟩, hP⟩
      rw [if_pos hlt]
    · refine ⟨_, s, ⟨seen, .copied cpu (r :: l) tail 0⟩, rfl, ⟨⟨r, l, tail, rfl, ?_⟩, rfl⟩, hP,
        r, l, rfl, Nat.le_of_not_lt hlt, Nat.zero_le _, rfl⟩
      rw [if_neg hlt]
  | malloc cpu n =>
    obtain ⟨r, l, tail, rfl, rfl⟩ :
      ∃ r l tail, phase = .reading cpu (r :: l) tail ∧ n = r.bytes.length := hcan
    cases halloc : inp.alloc with
    | false =>
      refine ⟨false, _, ⟨seen, .reading cpu (r :: l) tail⟩, ?_, ⟨⟨r, l, tail, rfl, rfl⟩, rfl⟩,
        At.of_copy hP []⟩
      rw [exec, halloc]
      rfl
    | true =>
      refine ⟨true, _, ⟨seen, .copied cpu (r :: l) tail 0⟩, ?_, ⟨⟨r, l, tail, rfl, rfl⟩, rfl⟩,
        At.of_copy hP (cells inp.heap 0 r.bytes.length), r, l, rfl, ?_, Nat.zero_le _, rfl⟩
      · rw [exec, halloc]
        rfl
      · rw [Function.update_self]
        show r.bytes.length ≤ (cells inp.heap 0 r.bytes.length).length
        rw [cells, List.length_map, List.length_range]
  | memcpy cpu off bytes =>
    obtain ⟨r, l, tail, rfl, hn, hbytes⟩ : ∃ r l tail, phase = .copied cpu (r :: l) tail off ∧
      off + bytes.length ≤ r.bytes.length ∧ bytes = (r.bytes.drop off).take bytes.length := hcan
    obtain ⟨hat, _, _, heq, hcopy, -, htake⟩ := hP
    cases heq
    have hfit : off + bytes.length ≤ (s cpu).copy.length := Nat.le_trans hn hcopy
    refine ⟨(), _, ⟨seen, .copied cpu (r :: l) tail (off + bytes.length)⟩, if_pos hfit,
      ⟨⟨r, l, tail, rfl, rfl⟩, rfl⟩, hat.of_copy _, r, l, rfl, ?_, hn, ?_⟩
    · rw [Function.update_self]
      show r.bytes.length ≤ (put (s cpu).copy off bytes).length
      rw [length_put hfit]
      exact hcopy
    · rw [Function.update_self]
      show (put (s cpu).copy off bytes).take (off + bytes.length) = _
      rw [take_put (by omega), htake, List.take_add, ← hbytes]
  | loadCopy cpu off n =>
    obtain ⟨r, l, tail, rfl, hn⟩ : ∃ r l tail, phase = .copied cpu (r :: l) tail r.bytes.length ∧
      off + n ≤ r.bytes.length := hcan
    obtain ⟨hat, _, _, heq, hcopy, hle, htake⟩ := hP
    cases heq
    refine ⟨_, s, ⟨seen, .copied cpu (r :: l) tail r.bytes.length⟩, if_pos (Nat.le_trans hn hcopy),
      ⟨⟨rfl, r, l, tail, rfl, ?_⟩, rfl⟩, hat, r, l, rfl, hcopy, hle, htake⟩
    rw [List.take_length] at htake
    rw [← htake, List.drop_take, List.take_take, Nat.min_eq_left (by omega)]
  | sampleCb cpu data =>
    obtain ⟨r, l, tail, hh, he⟩ := hcan
    exact ⟨(), _, ⟨seen, .reading cpu l (tail + r.bytes.length)⟩, rfl, ⟨⟨r, l, tail, hh, rfl⟩, rfl⟩,
      (hP.at_of_handling hh).hand he⟩
  | lostCb cpu n =>
    obtain ⟨r, l, tail, hh, he⟩ := hcan
    exact ⟨(), _, ⟨seen, .reading cpu l (tail + r.bytes.length)⟩, rfl, ⟨⟨r, l, tail, hh, rfl⟩, rfl⟩,
      (hP.at_of_handling hh).hand he⟩
  | writeTail cpu tail =>
    obtain ⟨l, rfl⟩ : ∃ l, phase = .reading cpu l tail := hcan
    exact ⟨(), _, ⟨seenAfter (.writeTail cpu tail) ⟨seen, .reading cpu l tail⟩, .rest⟩, rfl,
      ⟨rfl, rfl⟩, At.advance hP⟩

/-- The kernel adds records behind those that are there. -/
theorem pending_of_output {e : Output} (h : output order e s = some s') {gone left : List Record}
    {c : Nat} (hpend : Pending order (s c) gone left) :
    (s' c).ring.consumerPos = (s c).ring.consumerPos ∧ (s' c).copy = (s c).copy ∧
      ∃ new, Pending order (s' c) gone (left ++ new) := by
  rw [output, Option.ite_none_right_eq_some] at h
  obtain ⟨⟨hpad, hlt⟩, hs⟩ := h
  obtain rfl := Option.some.inj hs
  by_cases hc : c = e.cpu
  · subst hc
    rw [Function.update_self]
    exact hpend.output hpad hlt
  · rw [Function.update_of_ne hc]
    refine ⟨rfl, rfl, [], ?_⟩
    rw [List.append_nil]
    exact hpend

theorem At.of_output {e : Output} (h : output order e s = some s') (hat : At order s cpu l tail) :
    At order s' cpu l tail := by
  obtain ⟨hothers, gone, newer, hpend, rfl⟩ := hat
  refine ⟨fun c hc => ?_, ?_⟩
  · obtain ⟨l, hl⟩ := hothers c hc
    obtain ⟨-, -, new, hnew⟩ := pending_of_output h hl
    exact ⟨_, hnew⟩
  · obtain ⟨hpos, -, new, hnew⟩ := pending_of_output h hpend
    rw [List.append_assoc] at hnew
    exact ⟨gone, newer ++ new, hnew, by rw [hpos]⟩

theorem place_of_output {e : Output} (h : output order e s = some s') {phase : Phase}
    (hP : Place order s phase) : Place order s' phase := by
  have hrest : ∀ c, (∃ l, Pending order (s c) [] l) → ∃ l, Pending order (s' c) [] l := by
    rintro c ⟨l, hl⟩
    obtain ⟨-, -, new, hnew⟩ := pending_of_output h hl
    exact ⟨_, hnew⟩
  cases phase with
  | rest => exact fun c => hrest c (hP c)
  | headed cpu head =>
    obtain ⟨hothers, todo, newer, hpend, rfl⟩ := hP
    obtain ⟨hpos, -, new, hnew⟩ := pending_of_output h hpend
    rw [List.append_assoc] at hnew
    exact ⟨fun c hc => hrest c (hothers c hc), todo, newer ++ new, hnew, by rw [hpos]⟩
  | reading cpu todo tail => exact At.of_output h hP
  | copied cpu todo tail n =>
    obtain ⟨hat, r, l, rfl, hcopy, hle, htake⟩ := hP
    obtain ⟨gone, newer, hpend, -⟩ := hat.2
    have hsame := (pending_of_output h hpend).2.1
    refine ⟨hat.of_output h, r, l, rfl, ?_, hle, ?_⟩
    · rw [hsame]
      exact hcopy
    · rw [hsame]
      exact htake

end Steps

/-- The outline: the process knows which records are left. -/
def outline {order : Nat} (horder : 3 ≤ order) : Outline (perf order) Stage where
  View _ s log v := Place order s v.phase ∧ ∀ i ∈ log, ∃ seen, Returns i.trace i.result seen
  Idle _ v := v = ⟨[], .rest⟩
  Can _ := Can order
  Next _ := Next order
  Done _ _ tr ret v := v.phase = .rest ∧ Returns tr ret v.seen
  spawn {_ v} hidle := by
    subst hidle
    exact ok_perfBufferPoll horder
  own {_ s L v inp op r s'} hv hcan hexec := by
    obtain ⟨r₁, s₁, v₁, hexec₁, hnext, hP⟩ := exec_step hv.1 hcan inp
    have heq : some (r₁, s₁) = some (r, s') := hexec₁.symm.trans hexec
    cases heq
    exact ⟨v₁, hnext, hP, hv.2⟩
  other hne := absurd rfl hne
  env henv hv := ⟨place_of_output henv hv.1, hv.2⟩
  finish {_ tr ret s L v} hv hend := by
    obtain ⟨hphase, hreturns⟩ := hend
    refine ⟨⟨[], .rest⟩, rfl, hphase ▸ hv.1, fun i hi => ?_⟩
    rcases List.mem_append.mp hi with hi | hi
    · exact hv.2 i hi
    · rw [List.mem_singleton.mp hi]
      exact ⟨v.seen, hreturns⟩
  finish_other hne := absurd rfl hne

/-! ### A poll in one go -/

/-- When the kernel does not act, the records up to the head are all that there are. -/
def UpToHead (s : State) : Phase → Prop
  | .rest => True
  | .headed cpu head => head = (s cpu).ring.producerPos
  | .reading cpu todo tail => tail + recordsSize todo = (s cpu).ring.producerPos
  | .copied cpu todo tail _ => tail + recordsSize todo = (s cpu).ring.producerPos

structure Quiet (s : State) (v : Stage) : Prop where
  drained : ∀ c ∈ v.seen, (s c).ring.consumerPos = (s c).ring.producerPos
  upToHead : UpToHead s v.phase

section Quiet

variable {order : Nat} {s s' : State} {v v' : Stage} {inp : Inp} {op : PerfOp} {ret : op.Res}

/-- The process writes no more than `data_tail` of what the kernel reads. -/
theorem exec_frame (h : exec order inp op s = some (ret, s')) (c : Nat) :
    (s' c).sent = (s c).sent ∧ (s' c).ring.producerPos = (s c).ring.producerPos ∧
      ((s' c).ring.consumerPos = (s c).ring.consumerPos ∨
        ∃ tail, op = .writeTail c tail ∧ (s' c).ring.consumerPos = tail) := by
  have hupdate : ∀ (cpu : Nat) (b : CpuBuf), b.sent = (s cpu).sent → b.ring = (s cpu).ring →
      (Function.update s cpu b c).sent = (s c).sent ∧
        (Function.update s cpu b c).ring = (s c).ring := by
    intro cpu b hsent hring
    by_cases hc : c = cpu
    · subst hc
      rw [Function.update_self]
      exact ⟨hsent, hring⟩
    · rw [Function.update_of_ne hc]
      exact ⟨rfl, rfl⟩
  have hkeeps : (s' c).sent = (s c).sent ∧ (s' c).ring = (s c).ring →
      (s' c).sent = (s c).sent ∧ (s' c).ring.producerPos = (s c).ring.producerPos ∧
        ((s' c).ring.consumerPos = (s c).ring.consumerPos ∨
          ∃ tail, op = .writeTail c tail ∧ (s' c).ring.consumerPos = tail) :=
    fun hsame => ⟨hsame.1, by rw [hsame.2], Or.inl (by rw [hsame.2])⟩
  cases op with
  | epollWait => cases h; exact hkeeps ⟨rfl, rfl⟩
  | readHead cpu => cases h; exact hkeeps ⟨rfl, rfl⟩
  | readTail cpu => cases h; exact hkeeps ⟨rfl, rfl⟩
  | copySize cpu => cases h; exact hkeeps ⟨rfl, rfl⟩
  | load cpu a n =>
    rw [exec, Option.ite_none_right_eq_some] at h
    cases h.2
    exact hkeeps ⟨rfl, rfl⟩
  | loadCopy cpu off n =>
    rw [exec, Option.ite_none_right_eq_some] at h
    cases h.2
    exact hkeeps ⟨rfl, rfl⟩
  | memcpy cpu off bytes =>
    rw [exec, Option.ite_none_right_eq_some] at h
    cases h.2
    exact hkeeps (hupdate cpu _ rfl rfl)
  | malloc cpu n => cases h; exact hkeeps (hupdate cpu _ rfl rfl)
  | sampleCb cpu data => cases h; exact hkeeps (hupdate cpu _ rfl rfl)
  | lostCb cpu n => cases h; exact hkeeps (hupdate cpu _ rfl rfl)
  | writeTail cpu tail =>
    cases h
    by_cases hc : c = cpu
    · subst hc
      rw [Function.update_self]
      exact ⟨rfl, rfl, Or.inr ⟨tail, rfl, rfl⟩⟩
    · rw [Function.update_of_ne hc]
      exact ⟨rfl, rfl, Or.inl rfl⟩

theorem mem_seenAfter {c : Nat} (h : c ∈ seenAfter op v) :
    c ∈ v.seen ∨ ∃ cpu tail tail', op = .writeTail c tail ∧ v.phase = .reading cpu [] tail' := by
  rw [seenAfter.eq_def] at h
  split at h
  · rename_i cpu' tail seen cpu tail'
    rcases List.mem_cons.mp h with rfl | h
    · exact Or.inr ⟨cpu, tail, tail', rfl, rfl⟩
    · exact Or.inl h
  · exact Or.inl h

theorem UpToHead.handling {phase : Phase} {cpu tail : Nat} {r : Record} {l : List Record}
    (h : UpToHead s phase) (hh : Handling phase cpu r l tail) :
    tail + r.bytes.length + recordsSize l = (s cpu).ring.producerPos := by
  rcases hh with rfl | ⟨n, rfl⟩
  · rw [← h, recordsSize_cons, Nat.add_assoc]
  · rw [← h, recordsSize_cons, Nat.add_assoc]

theorem UpToHead.congr (hprod : ∀ c, (s' c).ring.producerPos = (s c).ring.producerPos)
    {phase : Phase} (h : UpToHead s phase) : UpToHead s' phase := by
  cases phase with
  | rest => trivial
  | headed cpu head => exact h.trans (hprod cpu).symm
  | reading cpu todo tail => exact h.trans (hprod cpu).symm
  | copied cpu todo tail n => exact h.trans (hprod cpu).symm

theorem upToHead_step (hup : UpToHead s v.phase)
    (hexec : exec order inp op s = some (ret, s')) (hnext : Next order op v ret v') :
    UpToHead s' v'.phase := by
  have hup' := hup.congr fun c => (exec_frame hexec c).2.1
  obtain ⟨hphase, -⟩ := hnext
  obtain ⟨seen, phase⟩ := v
  obtain ⟨seen', phase'⟩ := v'
  cases op with
  | epollWait =>
    obtain rfl : phase' = phase := hphase
    exact hup'
  | readHead cpu =>
    obtain rfl : phase' = .headed cpu ret := hphase
    cases hexec
    rfl
  | readTail cpu =>
    obtain ⟨head, l, rfl, rfl, -, -, -, rfl⟩ := hphase
    exact hup'
  | load cpu a n =>
    obtain rfl : phase' = phase := hphase.1
    exact hup'
  | copySize cpu =>
    obtain ⟨r, l, tail, rfl, rfl⟩ := hphase
    show UpToHead s' (if _ then _ else _)
    split
    · exact hup'
    · exact hup'
  | malloc cpu n =>
    obtain ⟨r, l, tail, rfl, rfl⟩ := hphase
    show UpToHead s' (if _ then _ else _)
    split
    · exact hup'
    · exact hup'
  | memcpy cpu off bytes =>
    obtain ⟨r, l, tail, rfl, rfl⟩ := hphase
    exact hup'
  | loadCopy cpu off n =>
    obtain rfl : phase' = phase := hphase.1
    exact hup'
  | sampleCb cpu data =>
    obtain ⟨r, l, tail, hh, rfl⟩ := hphase
    exact hup'.handling hh
  | lostCb cpu n =>
    obtain ⟨r, l, tail, hh, rfl⟩ := hphase
    exact hup'.handling hh
  | writeTail cpu tail =>
    obtain rfl : phase' = .rest := hphase
    trivial

theorem quiet_step (hP : Place order s v.phase) (hQ : Quiet s v) (hcan : Can order op v)
    (hexec : exec order inp op s = some (ret, s')) (hnext : Next order op v ret v') :
    Quiet s' v' := by
  refine ⟨fun c hc => ?_, upToHead_step hQ.upToHead hexec hnext⟩
  obtain ⟨-, hprod, hcons⟩ := exec_frame hexec c
  rw [hprod]
  rw [hnext.2] at hc
  by_cases hop : ∃ tail, op = .writeTail c tail
  · -- the tail that is written is the head
    obtain ⟨tail, rfl⟩ := hop
    obtain ⟨l, hphase⟩ := hcan
    have hup := hQ.upToHead
    rw [hphase] at hP hup
    obtain ⟨-, gone, newer, -, htail⟩ := hP
    have hup : tail + recordsSize l = (s c).ring.producerPos := hup
    have htail' : (s' c).ring.consumerPos = tail := by
      cases hexec
      rw [Function.update_self]
    rw [htail']
    rcases mem_seenAfter hc with hc | ⟨cpu, _, _, -, hphase'⟩
    · have := hQ.drained c hc
      omega
    · rw [hphase] at hphase'
      cases hphase'
      exact hup
  · rcases hcons with hcons | ⟨tail, hwrite, -⟩
    · rcases mem_seenAfter hc with hc | ⟨_, tail, _, hwrite, -⟩
      · rw [hcons]
        exact hQ.drained c hc
      · exact absurd ⟨tail, hwrite⟩ hop
    · exact absurd ⟨tail, hwrite⟩ hop

end Quiet

/-! ### A buffer that goes around -/

/-- Eight bytes, and four behind them. -/
def exampleOutput (x : UInt8) : Output := ⟨0, List.replicate 8 x, [0, 0, 0, 0], 0, 0⟩

def exampleStep : Act Unit Inp Output Unit := .step () ⟨.ok [0], true, fun _ => 255⟩

/-- The area has room for two records.  The third output is lost; after a poll the fourth one
has room, and the record that tells the loss goes around the end. -/
def exampleActs : List (Act Unit Inp Output Unit) :=
  [.env (exampleOutput 1), .env (exampleOutput 2), .env (exampleOutput 3), .spawn ()] ++
    List.replicate 14 exampleStep ++ [.env (exampleOutput 4)]

def exampleRun := (perf 6).run ((perf 6).init (.boot fun _ _ => 255)) exampleActs

/-! ### Every run -/

section Runs

variable {order : Nat} {mem : Nat → Nat → UInt8} {acts : List (Act Unit Inp Output Unit)}
  {c : Config Unit PerfOp PerfOp.Res State Unit (Option Int)}

theorem view_boot (horder : 3 ≤ order) (mem : Nat → Nat → UInt8) (k : Unit) :
    ∃ v, (outline horder).View k (.boot mem) [] v ∧ (outline horder).Idle k v :=
  ⟨⟨[], .rest⟩, ⟨fun cpu => ⟨[], pending_boot order (mem cpu)⟩,
    fun _ hi => absurd hi List.not_mem_nil⟩, rfl⟩

/-- The records of every buffer, wherever the process is. -/
theorem pending_of_place {s : State} {phase : Phase} (h : Place order s phase) (cpu : Nat) :
    ∃ gone left, Pending order (s cpu) gone left := by
  have hat : ∀ {c todo tail}, At order s c todo tail →
      ∃ gone left, Pending order (s cpu) gone left := by
    rintro c todo tail ⟨hothers, gone, newer, hpend, -⟩
    by_cases hc : cpu = c
    · subst hc
      exact ⟨gone, _, hpend⟩
    · exact ⟨[], hothers cpu hc⟩
  cases phase with
  | rest => exact ⟨[], h cpu⟩
  | headed c head =>
    obtain ⟨hothers, todo, newer, hpend, -⟩ := h
    by_cases hc : cpu = c
    · subst hc
      exact ⟨[], _, hpend⟩
    · exact ⟨[], hothers cpu hc⟩
  | reading c todo tail => exact hat h
  | copied c todo tail n => exact hat h.1

theorem Pending.prefix_report {b : CpuBuf} {gone left : List Record}
    (h : Pending order b gone left) :
    b.calls <+: (report b.sent).1 ∧
      (b.ring.consumerPos = b.ring.producerPos → b.calls = (report b.sent).1) := by
  refine ⟨⟨_, h.calls_eq⟩, fun hempty => ?_⟩
  have hprod := h.producer
  have hlen := length_le_recordsSize left
  obtain rfl : left = [] := List.eq_nil_of_length_eq_zero (by omega)
  rw [← h.calls_eq]
  exact (List.append_nil _).symm

/-- **No event is lost unseen.**  In every state of every run, however the outputs of the
kernel fall between the operations of the process, and for each CPU:

the callbacks are the first ones of the report, in its order and once each, and all of it
when the buffer is empty; the report has the samples for which there was room, in the order
of the outputs, and with the count that the kernel keeps it counts all others;

every poll comes back, with a negative result only if `epoll_wait` or a `malloc` has failed. -/
theorem perf_conserved (horder : 3 ≤ order)
    (hrun : (perf order).run ((perf order).init (.boot mem)) acts = some c) :
    (∀ cpu, let b := c.shared cpu
      (b.calls <+: (report b.sent).1 ∧
        (b.ring.consumerPos = b.ring.producerPos → b.calls = (report b.sent).1)) ∧
      samplesOf (report b.sent).1 = (b.sent.filter (·.accepted)).map (·.data) ∧
      lostTotal (report b.sent).1 + b.lost = .ofNat (b.sent.filter Sent.refused).length) ∧
    ∀ i ∈ c.log, ∃ n : Int, i.result = some n ∧
      (n < 0 → (∃ errno, ⟨.epollWait, .error errno⟩ ∈ i.trace) ∨ Failed i.trace) := by
  obtain ⟨v, ⟨hP, hlog⟩, -⟩ := (outline horder).holds_run (view_boot horder mem) hrun ()
  refine ⟨fun cpu => ?_, fun i hi => ?_⟩
  · obtain ⟨gone, left, hpend⟩ := pending_of_place hP cpu
    refine ⟨hpend.prefix_report, samplesOf_report _, ?_⟩
    rw [hpend.lost_eq, lostTotal_report]
  · obtain ⟨seen, hreturns⟩ := hlog i hi
    rcases hreturns with ⟨errno, hmem, hret⟩ | ⟨events, -, ⟨hret, -⟩ | ⟨hret, hfailed⟩⟩
    · exact ⟨_, hret, fun _ => Or.inl ⟨errno, hmem⟩⟩
    · refine ⟨_, hret, fun hneg => ?_⟩
      omega
    · exact ⟨_, hret, fun _ => Or.inr hfailed⟩

theorem perf_conserved_example :
    ∃ c, exampleRun = some c ∧ (c.shared 0).calls.length = 2 ∧
      (c.shared 0).sent.map (·.accepted) = [true, true, false, true] ∧
      (c.shared 0).calls <+: (report (c.shared 0).sent).1 := by
  have h : exampleRun.map (fun c => ((c.shared 0).calls.length,
      (c.shared 0).sent.map (·.accepted))) = some (2, [true, true, false, true]) := by
    decide +kernel
  obtain ⟨c, hc, he⟩ := Option.map_eq_some_iff.mp h
  obtain ⟨hcalls, hsent⟩ := Prod.mk.inj he
  exact ⟨c, hc, hcalls, hsent, ((perf_conserved (by decide) hc).1 0).1.1⟩

/-- **In bounds.**  In every state of every run the operation that the process is about to
perform is not refused: a load lies in the data area, and an access to the copy lies in the
memory that was allocated for it. -/
theorem perf_in_bounds (horder : 3 ≤ order)
    (hrun : (perf order).run ((perf order).init (.boot mem)) acts = some c)
    {th : Thread PerfOp PerfOp.Res Unit (Option Int)} (hth : c.running () = some th) :
    ∃ op f, th.rest = .call op f ∧ ∀ inp, ((perf order).exec inp op c.shared).isSome := by
  obtain ⟨v, ⟨hP, -⟩, ⟨hnone, -⟩ | ⟨th', op, f, hth', hrest, hcan⟩⟩ :=
    (outline horder).idle_or_can (view_boot horder mem) hrun ()
  · rw [hth] at hnone
    cases hnone
  · rw [hth] at hth'
    cases hth'
    refine ⟨op, f, hrest, fun inp => ?_⟩
    obtain ⟨r, s', -, hexec, -⟩ := exec_step hP hcan inp
    exact Option.isSome_iff_exists.mpr ⟨(r, s'), hexec⟩

/-- The process is about to copy the second half of the record. -/
theorem perf_in_bounds_example :
    ∃ c th op f, (perf 6).run ((perf 6).init (.boot fun _ _ => 255))
        (exampleActs ++ .spawn () :: List.replicate 9 exampleStep) = some c ∧
      c.running () = some th ∧ th.trace.length = 9 ∧ th.rest = .call op f ∧
      ∀ inp, ((perf 6).exec inp op c.shared).isSome := by
  have h : ((perf 6).run ((perf 6).init (.boot fun _ _ => 255))
      (exampleActs ++ .spawn () :: List.replicate 9 exampleStep)).bind
        (fun c => (c.running ()).map (·.trace.length)) = some 9 := by decide +kernel
  obtain ⟨c, hc, h⟩ := Option.bind_eq_some_iff.mp h
  obtain ⟨th, hth, hlen⟩ := Option.map_eq_some_iff.mp h
  obtain ⟨op, f, hrest, hsome⟩ := perf_in_bounds (by decide) hc hth
  exact ⟨c, th, op, f, hc, hth, hlen, hrest, hsome⟩

/-- A poll that is not interrupted and finds memory, from a state in which the process is not
polling. -/
theorem poll_of_place (horder : 3 ≤ order) {s : State} (hplace : Place order s .rest) {inp : Inp}
    {events : List Nat} (hready : inp.ready = .ok events) (halloc : inp.alloc = true) :
    ∃ s', (perfBufferPoll order (2 ^ order)).run (exec order inp) s =
        some (some (events.length : Int), s') ∧
      (∀ cpu, (s' cpu).sent = (s cpu).sent ∧ ∃ gone left, Pending order (s' cpu) gone left) ∧
      ∀ cpu ∈ events, (s' cpu).ring.consumerPos = (s' cpu).ring.producerPos := by
  -- what a run without the kernel keeps
  let view (s₁ : State) (v : Stage) : Prop :=
    Place order s₁ v.phase ∧ Quiet s₁ v ∧ ∀ cpu, (s₁ cpu).sent = (s cpu).sent
  let good : (Σ op : PerfOp, op.Res) → Prop :=
    fun x => ∃ s s', exec order inp x.1 s = some (x.2, s')
  have hview : view s ⟨[], .rest⟩ :=
    ⟨hplace, ⟨fun cpu hcpu => absurd hcpu List.not_mem_nil, trivial⟩, fun _ => rfl⟩
  have hexec : ∀ {op : PerfOp} {s : State} {v : Stage}, view s v → Can order op v →
      ∃ r s' v', exec order inp op s = some (r, s') ∧ good ⟨op, r⟩ ∧ Next order op v r v' ∧
        view s' v' := by
    intro op s v hv hcan
    obtain ⟨r, s', v', he, hnext, hP'⟩ := exec_step hv.1 hcan inp
    refine ⟨r, s', v', he, ⟨s, s', he⟩, hnext, hP', quiet_step hv.1 hv.2.1 hcan he hnext,
      fun cpu => ?_⟩
    rw [(exec_frame he cpu).1]
    exact hv.2.2 cpu
  obtain ⟨ret, s', tr, v', hpoll, hgood, ⟨-, hreturns⟩, hP', hQ', hsent⟩ :=
    (ok_perfBufferPoll horder).exists_run hexec (fun x hx => absurd hx List.not_mem_nil) hview
  have hevents : ∀ ready, ⟨.epollWait, ready⟩ ∈ tr → ready = .ok events := by
    intro ready hmem
    obtain ⟨s₁, s₂, he⟩ := hgood _ hmem
    cases he
    exact hready
  have hmalloc : ¬ Failed tr := by
    rintro ⟨cpu, n, hmem⟩
    obtain ⟨s₁, s₂, he⟩ := hgood _ hmem
    have hfalse := congrArg Prod.fst (Option.some.inj he)
    rw [halloc] at hfalse
    cases hfalse
  rcases hreturns with ⟨errno, hmem, -⟩ | ⟨events', hmem, ⟨rfl, hseen⟩ | ⟨-, hfailed⟩⟩
  · cases hevents _ hmem
  · cases hevents _ hmem
    exact ⟨s', hpoll, fun cpu => ⟨hsent cpu, pending_of_place hP' cpu⟩,
      fun cpu hcpu => hQ'.drained cpu (hseen cpu hcpu)⟩
  · exact absurd hfailed hmalloc

theorem place_of_idle (horder : 3 ≤ order)
    (hrun : (perf order).run ((perf order).init (.boot mem)) acts = some c)
    (hidle : c.running () = none) : Place order c.shared .rest := by
  obtain ⟨v, ⟨hplace, -⟩, hhere⟩ := (outline horder).holds_run (view_boot horder mem) hrun ()
  rw [hidle] at hhere
  obtain rfl : v = ⟨[], .rest⟩ := hhere
  exact hplace

/-- **A poll delivers.**  In every state in which the process is not polling, a poll that is not
interrupted and finds memory comes back with the number of the buffers that were readable.  For
each of them the callbacks are then the whole report of what had been sent, and the buffer is
empty. -/
theorem poll_delivers (horder : 3 ≤ order)
    (hrun : (perf order).run ((perf order).init (.boot mem)) acts = some c)
    (hidle : c.running () = none) {inp : Inp} {events : List Nat} (hready : inp.ready = .ok events)
    (halloc : inp.alloc = true) :
    ∃ s', ((perf order).body ()).run ((perf order).exec inp) c.shared =
        some (some (events.length : Int), s') ∧
      ∀ cpu ∈ events, (s' cpu).calls = (report (c.shared cpu).sent).1 ∧
        (s' cpu).ring.consumerPos = (s' cpu).ring.producerPos := by
  obtain ⟨s', hpoll, hkeeps, hempty⟩ :=
    poll_of_place horder (place_of_idle horder hrun hidle) hready halloc
  refine ⟨s', hpoll, fun cpu hcpu => ?_⟩
  obtain ⟨hsent, gone, left, hpend⟩ := hkeeps cpu
  rw [← hsent]
  exact ⟨hpend.prefix_report.2 (hempty cpu hcpu), hempty cpu hcpu⟩

theorem poll_delivers_example :
    ∃ c s', exampleRun = some c ∧
      ((perf 6).body ()).run ((perf 6).exec ⟨.ok [0], true, fun _ => 255⟩) c.shared =
        some (some 1, s') ∧
      (s' 0).calls = (report (c.shared 0).sent).1 ∧
      (report (c.shared 0).sent).1.map lostCount = [0, 0, 1, 0] := by
  have h : exampleRun.map (fun c => ((c.running ()).isNone,
      (report (c.shared 0).sent).1.map lostCount)) = some (true, [0, 0, 1, 0]) := by
    decide +kernel
  obtain ⟨c, hc, he⟩ := Option.map_eq_some_iff.mp h
  obtain ⟨hidle, hlost⟩ := Prod.mk.inj he
  have hready : (⟨.ok [0], true, fun _ => 255⟩ : Inp).ready = .ok [0] := rfl
  obtain ⟨s', hpoll, hcalls⟩ :=
    poll_delivers (by decide) hc (Option.isNone_iff_eq_none.mp hidle) hready rfl
  exact ⟨c, s', hc, hpoll, (hcalls 0 (List.mem_singleton.mpr rfl)).1, hlost⟩

end Runs

end NetworkAnalyse.Libbpf.Delivery
