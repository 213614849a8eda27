import NetworkAnalyse.Libbpf.Ringbuf

/-!
# The perf buffer

`lib/libbpf/src/libbpf.c`, from `perf_event_read_simple` on.  The kernel and the process
share, for each CPU, a data area of `2 ^ order` bytes and two positions, `data_head` and
`data_tail`.  A record is a header with its type and its size, and what belongs to it.  Other
than the ring buffer the area is mapped once, so that the process copies a record that goes
around the end into a buffer of its own.

* `perfEventReadSimple`: gives the records to `perfBufferProcessRecord`; the tail is written
  once, at the end.
* `perfBufferPoll`: reads the buffers that `epoll_wait` names.
* `Record.bytes`: a record as the kernel writes it, with what the process loads from it.

The tools leave `event_cb` null, so that the record goes to `sample_cb` or `lost_cb`.
-/

namespace NetworkAnalyse.Libbpf

open Lib Lib.Bytes

/-! ### The process -/

/-- `enum bpf_perf_event_ret`. -/
inductive PerfEventRet
  | done
  | error
  | cont
  deriving DecidableEq, Repr

def PerfEventRet.toInt : PerfEventRet → Int
  | done => 0
  | error => -1
  | cont => -2

/-- `PERF_RECORD_LOST`. -/
def perfRecordLost : UInt32 := 2
/-- `PERF_RECORD_SAMPLE`. -/
def perfRecordSample : UInt32 := 9

inductive PerfOp
  /-- `errno`, or the CPUs whose buffers are readable -/
  | epollWait
  | readHead (cpu : Nat)
  | readTail (cpu : Nat)
  /-- `n` bytes at `base + a` -/
  | load (cpu a n : Nat)
  /-- `*copy_size` -/
  | copySize (cpu : Nat)
  /-- `free`, `malloc` and the new `*copy_size` -/
  | malloc (cpu n : Nat)
  /-- to `*copy_mem + off` -/
  | memcpy (cpu off : Nat) (bytes : List UInt8)
  /-- `n` bytes at `*copy_mem + off` -/
  | loadCopy (cpu off n : Nat)
  | sampleCb (cpu : Nat) (data : List UInt8)
  | lostCb (cpu : Nat) (lost : UInt64)
  | writeTail (cpu tail : Nat)

@[reducible] def PerfOp.Res : PerfOp → Type
  | epollWait => Except Nat (List Nat)
  | readHead _ => Nat
  | readTail _ => Nat
  | load _ _ _ => List UInt8
  | copySize _ => Nat
  | malloc _ _ => Bool
  | memcpy _ _ _ => Unit
  | loadCopy _ _ _ => List UInt8
  | sampleCb _ _ => Unit
  | lostCb _ _ => Unit
  | writeTail _ _ => Unit

abbrev PerfProg := Prog PerfOp PerfOp.Res

def PerfOp.call (op : PerfOp) : PerfProg op.Res := .perform op

/-- Where a record is read: in the data area, or in the copy. -/
inductive RecordPtr
  | base (a : Nat)
  | copy

def RecordPtr.fetch (cpu : Nat) (off n : Nat) : RecordPtr → PerfProg (List UInt8)
  | base a => (PerfOp.load cpu (a + off) n).call
  | copy => (PerfOp.loadCopy cpu off n).call

/-- `perf_buffer__process_record`. -/
def perfBufferProcessRecord (cpu : Nat) (e : RecordPtr) : PerfProg PerfEventRet := do
  let type ← e.fetch cpu 0 4
  if load32 type 0 = perfRecordSample then
    let size ← e.fetch cpu 8 4
    let data ← e.fetch cpu 12 (load32 size 0).toNat
    (PerfOp.sampleCb cpu data).call
    return .cont
  else if load32 type 0 = perfRecordLost then
    let lost ← e.fetch cpu 16 8
    (PerfOp.lostCb cpu (load64 lost 0)).call
    return .cont
  else
    return .error

/-- The two halves of a record that goes around the end. -/
def copyRecord (order cpu a ehdrSize : Nat) : PerfProg RecordPtr := do
  let lenFirst := 2 ^ order - a
  let lenSecnd := ehdrSize - lenFirst
  let first ← (PerfOp.load cpu a lenFirst).call
  (PerfOp.memcpy cpu 0 first).call
  let secnd ← (PerfOp.load cpu 0 lenSecnd).call
  (PerfOp.memcpy cpu lenFirst secnd).call
  return .copy

/-- `none`: there is no memory for the copy. -/
def locate (order cpu a ehdrSize : Nat) : PerfProg (Option RecordPtr) := do
  if 2 ^ order < a + ehdrSize then
    let copySize ← (PerfOp.copySize cpu).call
    if copySize < ehdrSize then
      let copyMem ← (PerfOp.malloc cpu ehdrSize).call
      if copyMem then
        return some (← copyRecord order cpu a ehdrSize)
      else
        return none
    else
      return some (← copyRecord order cpu a ehdrSize)
  else
    return some (.base a)

/-- `while (data_head != data_tail)`.  The result is `ret` and `data_tail`; `none` is where the
model stops to look. -/
def readLoop (order cpu dataHead : Nat) :
    Nat → Nat → PerfEventRet → PerfProg (Option (PerfEventRet × Nat))
  | 0, _, _ => return none
  | fuel + 1, dataTail, ret =>
    if dataHead = dataTail then
      return some (ret, dataTail)
    else do
      let a := dataTail &&& (2 ^ order - 1)
      -- `size` is the last field of the header
      let size ← (PerfOp.load cpu (a + 6) 2).call
      let ehdrSize := (load16 size 0).toNat
      match ← locate order cpu a ehdrSize with
      | none => return some (.error, dataTail)
      | some e =>
        let ret ← perfBufferProcessRecord cpu e
        if ret ≠ .cont then
          return some (ret, dataTail + ehdrSize)
        else
          readLoop order cpu dataHead fuel (dataTail + ehdrSize) ret

def perfEventReadSimple (order fuel cpu : Nat) : PerfProg (Option PerfEventRet) := do
  let dataHead ← (PerfOp.readHead cpu).call
  let dataTail ← (PerfOp.readTail cpu).call
  match ← readLoop order cpu dataHead fuel dataTail .cont with
  | none => return none
  | some (ret, dataTail) =>
    (PerfOp.writeTail cpu dataTail).call
    return some ret

/-- `perf_buffer__process_records`. -/
def perfBufferProcessRecords (order fuel cpu : Nat) : PerfProg (Option Int) := do
  match ← perfEventReadSimple order fuel cpu with
  | none => return none
  | some ret => return some (if ret ≠ .cont then ret.toInt else 0)

/-- The loop of `perf_buffer__poll`: the first error, or 0. -/
def processEvents (order fuel : Nat) : List Nat → PerfProg (Option Int)
  | [] => return some 0
  | cpu :: events => do
    match ← perfBufferProcessRecords order fuel cpu with
    | none => return none
    | some err =>
      if err ≠ 0 then
        return some err
      else
        processEvents order fuel events

def perfBufferPoll (order fuel : Nat) : PerfProg (Option Int) := do
  match ← PerfOp.epollWait.call with
  | .error errno => return some (-errno)
  | .ok events =>
    match ← processEvents order fuel events with
    | none => return none
    | some err => return some (if err ≠ 0 then err else events.length)

/-! ### The records -/

/-- What a record tells the process. -/
inductive PerfEvent
  | sample (data : List UInt8)
  | lost (n : UInt64)
  deriving DecidableEq, Repr

/-- `misc` of the header, and `id` of `struct perf_sample_lost`, are not read. -/
structure Record where
  misc : UInt16
  id : UInt64
  event : PerfEvent
  deriving DecidableEq, Repr

/-- `struct perf_event_header`. -/
def perfEventHeader (type : UInt32) (misc : UInt16) (size : Nat) : List UInt8 :=
  bytes32 type ++ (bytes16 misc ++ bytes16 (.ofNat size))

def Record.bytes (r : Record) : List UInt8 :=
  match r.event with
  | .sample data => perfEventHeader perfRecordSample r.misc (12 + data.length) ++
      (bytes32 (.ofNat data.length) ++ data)
  | .lost n => perfEventHeader perfRecordLost r.misc 24 ++ (bytes64 r.id ++ bytes64 n)

/-- The size is a multiple of eight and fits into the header. -/
structure Record.Fits (r : Record) : Prop where
  aligned : 8 ∣ r.bytes.length
  lt : r.bytes.length < 65536

namespace Record

variable {r : Record} {data : List UInt8} {n : UInt64}

theorem length_bytes_sample (h : r.event = .sample data) : r.bytes.length = 12 + data.length := by
  rw [bytes, h]
  simp only [perfEventHeader, List.length_append, length_bytes32, length_bytes16]
  omega

theorem length_bytes_lost (h : r.event = .lost n) : r.bytes.length = 24 := by
  rw [bytes, h]
  rfl

theorem twelve_le (r : Record) : 12 ≤ r.bytes.length := by
  cases h : r.event with
  | sample data =>
    rw [length_bytes_sample h]
    omega
  | lost n =>
    rw [length_bytes_lost h]
    decide

/-- `ehdr->size`. -/
theorem Fits.size_eq (h : r.Fits) :
    (load16 ((r.bytes.drop 6).take 2) 0).toNat = r.bytes.length := by
  have hlt := h.lt
  have hsize : load16 ((r.bytes.drop 6).take 2) 0 = .ofNat r.bytes.length := by
    cases he : r.event with
    | sample data =>
      rw [length_bytes_sample he, bytes, he]
      exact load16_bytes16 _ []
    | lost n =>
      rw [length_bytes_lost he, bytes, he]
      exact load16_bytes16 _ []
  rw [hsize, UInt16.toNat_ofNat_of_lt']
  exact hlt

theorem type_sample (he : r.event = .sample data) :
    load32 ((r.bytes.drop 0).take 4) 0 = perfRecordSample := by
  rw [bytes, he]
  exact load32_bytes32 _ []

theorem type_lost (he : r.event = .lost n) :
    load32 ((r.bytes.drop 0).take 4) 0 = perfRecordLost := by
  rw [bytes, he]
  exact load32_bytes32 _ []

/-- `s->size` of a sample. -/
theorem Fits.sample_size_eq (h : r.Fits) (he : r.event = .sample data) :
    (load32 ((r.bytes.drop 8).take 4) 0).toNat = data.length := by
  have hlt := h.lt
  rw [length_bytes_sample he] at hlt
  have hsize : load32 ((r.bytes.drop 8).take 4) 0 = .ofNat data.length := by
    rw [bytes, he]
    exact load32_bytes32 _ []
  rw [hsize, UInt32.toNat_ofNat_of_lt']
  show _ < 4294967296
  omega

theorem sample_data_eq (he : r.event = .sample data) :
    (r.bytes.drop 12).take data.length = data := by
  rw [bytes, he]
  exact List.take_length

theorem lost_eq (he : r.event = .lost n) : load64 ((r.bytes.drop 16).take 8) 0 = n := by
  rw [bytes, he]
  exact load64_bytes64 _ []

end Record

/-- The bytes of records in a row. -/
def recordsSize (l : List Record) : Nat := (l.map Record.bytes).flatten.length

@[simp] theorem recordsSize_nil : recordsSize [] = 0 := rfl

@[simp] theorem recordsSize_cons (r : Record) (l : List Record) :
    recordsSize (r :: l) = r.bytes.length + recordsSize l := by
  rw [recordsSize, List.map_cons, List.flatten_cons, List.length_append]
  rfl

@[simp] theorem recordsSize_append (l₁ l₂ : List Record) :
    recordsSize (l₁ ++ l₂) = recordsSize l₁ + recordsSize l₂ := by
  rw [recordsSize, List.map_append, List.flatten_append, List.length_append]
  rfl

theorem length_le_recordsSize (l : List Record) : l.length ≤ recordsSize l := by
  induction l with
  | nil => exact Nat.le_refl 0
  | cons r l ih =>
    have := r.twelve_le
    rw [recordsSize_cons, List.length_cons]
    omega

theorem dvd_recordsSize {l : List Record} (h : ∀ r ∈ l, r.Fits) : 8 ∣ recordsSize l := by
  induction l with
  | nil => exact Nat.dvd_zero 8
  | cons r l ih =>
    rw [List.forall_mem_cons] at h
    rw [recordsSize_cons]
    exact Nat.dvd_add h.1.aligned (ih h.2)

end NetworkAnalyse.Libbpf
