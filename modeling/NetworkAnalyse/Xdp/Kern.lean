import NetworkAnalyse.Lib.Bytes
import NetworkAnalyse.Lib.Prog
import NetworkAnalyse.Lib.RingBuf

/-!
# The packet monitor

`xdp/xdp_packet_kern.c`.  `xdp_prog` looks at every frame that arrives.  For a
TCP segment over IPv4 it puts a record into `packet_ringbuf`; its verdict says
whether the frame goes on to the network stack.

The frame is a list of bytes, from `ctx->data` to `ctx->data_end`.  The helper
calls are the operations of a `Prog`, so that the consumer can run between them.
-/

namespace NetworkAnalyse.Xdp

open Lib Lib.Bytes

abbrev Frame := List UInt8

def ethHdrLen : Nat := 14
def ipHdrLen : Nat := 20
def tcpHdrLen : Nat := 20
def ethPIp : UInt16 := 0x0800
def ipprotoTcp : UInt8 := 6

/-- `struct packet_info` of `xdp_packet.h`. -/
structure PacketInfo where
  srcIp : UInt32
  dstIp : UInt32
  srcPort : UInt16
  dstPort : UInt16
  timestamp : UInt64
  deriving DecidableEq, Repr

inductive XdpAction
  | aborted
  | drop
  | pass
  | tx
  | redirect
  deriving DecidableEq, Repr

/-! ### Helper calls -/

/-- The name of a slot of the ring: the pointer that `bpf_ringbuf_reserve` returns. -/
abbrev SlotPtr := Nat

inductive Op
  | ktimeGetNs
  /-- the address, the port and the timestamp are the arguments of the format -/
  | printk (fmt : String) (ip : UInt32) (port : UInt16) (timestamp : UInt64)
  | ringbufReserve
  /-- the stores `e->src_ip = p.src_ip; …` into a slot that only the program sees -/
  | store (e : SlotPtr) (p : PacketInfo)
  | ringbufSubmit (e : SlotPtr)

@[reducible] def Op.Res : Op → Type
  | ktimeGetNs => UInt64
  | printk _ _ _ _ => Unit
  | ringbufReserve => Option SlotPtr
  | store _ _ => Unit
  | ringbufSubmit _ => Unit

abbrev XdpProg := Prog Op Op.Res XdpAction

def ktimeGetNs : Prog Op Op.Res UInt64 := .perform Op.ktimeGetNs
def printk (fmt : String) (ip : UInt32) (port : UInt16) (timestamp : UInt64) :
    Prog Op Op.Res Unit :=
  .perform (Op.printk fmt ip port timestamp)
def ringbufReserve : Prog Op Op.Res (Option SlotPtr) := .perform Op.ringbufReserve
def store (e : SlotPtr) (p : PacketInfo) : Prog Op Op.Res Unit := .perform (Op.store e p)
def ringbufSubmit (e : SlotPtr) : Prog Op Op.Res Unit := .perform (Op.ringbufSubmit e)

/-! ### The program -/

/-- `eth->h_proto == bpf_htons(ETH_P_IP)`. -/
def IsIp (data : Frame) : Prop := load16 data 12 = bswap16 ethPIp

/-- `ip->protocol == IPPROTO_TCP`. -/
def IsTcp (data : Frame) : Prop := load8 data (ethHdrLen + 9) = ipprotoTcp

instance (data : Frame) : Decidable (IsIp data) := inferInstanceAs (Decidable (_ = _))
instance (data : Frame) : Decidable (IsTcp data) := inferInstanceAs (Decidable (_ = _))

/-- The record of a frame with headers of twenty bytes each. -/
def packetInfo (data : Frame) (ts : UInt64) : PacketInfo where
  srcIp := load32 data (ethHdrLen + 12)
  dstIp := load32 data (ethHdrLen + 16)
  srcPort := bswap16 (load16 data (ethHdrLen + ipHdrLen))
  dstPort := bswap16 (load16 data (ethHdrLen + ipHdrLen + 2))
  timestamp := ts / 1000

/-- The formats of the two lines that are printed for a frame. -/
def srcFormat : String := "Packet Data - src_ip: %u,  src_port: %u, timestamp(us): %llu"
def dstFormat : String := "Packet Data -  dst_ip: %u, dst_port: %u, timestamp(us): %llu\n"

/-- What `xdp_prog` does once it has found the three headers. -/
def record (data : Frame) : XdpProg := do
  let p := packetInfo data (← ktimeGetNs)
  printk srcFormat p.srcIp p.srcPort p.timestamp
  printk dstFormat p.dstIp p.dstPort p.timestamp
  match ← ringbufReserve with
  | none => return .aborted
  | some e =>
    store e p
    ringbufSubmit e
    return .pass

def xdpProg (data : Frame) : XdpProg := do
  if data.length < ethHdrLen then
    return .aborted
  if ¬ IsIp data then
    return .pass
  if data.length < ethHdrLen + ipHdrLen then
    return .aborted
  if ¬ IsTcp data then
    return .pass
  if data.length < ethHdrLen + ipHdrLen + tcpHdrLen then
    return .aborted
  record data

/-! ### What the program shares -/

/-- `packet_ringbuf` has 2²⁴ bytes, of which the kernel leaves one free; a record
takes 24 bytes and a header of 8. -/
def packetRingbufSlots : Nat := (2 ^ 24 - 1) / 32

structure Kern where
  clock : UInt64
  ring : RingBuf PacketInfo packetRingbufSlots
  /-- the records given to `handle_event` -/
  handed : List PacketInfo
  /-- the lines of `bpf_printk` -/
  pipe : List (String × UInt32 × UInt16 × UInt64)

def Kern.boot : Kern := ⟨0, .empty, [], []⟩

/-- What the environment chooses for a helper call: the clock reading, and what
is in a slot before it is written. -/
structure Inp where
  now : UInt64
  stale : PacketInfo

def exec (inp : Inp) : (op : Op) → Kern → Option (op.Res × Kern)
  | .ktimeGetNs, s =>
    if s.clock ≤ inp.now then some (inp.now, { s with clock := inp.now }) else none
  | .printk fmt ip port timestamp, s =>
    some ((), { s with pipe := s.pipe ++ [(fmt, ip, port, timestamp)] })
  | .ringbufReserve, s =>
    match s.ring.reserve inp.stale with
    | some (e, ring) => some (some e, { s with ring := ring })
    | none => some (none, s)
  | .store e p, s => some ((), { s with ring := s.ring.write e p })
  | .ringbufSubmit e, s => some ((), { s with ring := s.ring.submit e })

/-- `ring_buffer__poll` gives the oldest record to `handle_event` and frees its slot. -/
def consume (s : Kern) : Option Kern :=
  s.ring.consume.map fun p => { s with ring := p.2, handed := s.handed ++ [p.1] }

/-! ### Which frames -/

/-- A frame that ends before the header that the program looks for. -/
def Short (data : Frame) : Prop :=
  data.length < ethHdrLen ∨ (IsIp data ∧ data.length < ethHdrLen + ipHdrLen) ∨
    (IsIp data ∧ IsTcp data ∧ data.length < ethHdrLen + ipHdrLen + tcpHdrLen)

/-- A frame that passes the three bounds checks and is IPv4 and TCP. -/
def Complete (data : Frame) : Prop :=
  ethHdrLen + ipHdrLen + tcpHdrLen ≤ data.length ∧ IsIp data ∧ IsTcp data

instance (data : Frame) : Decidable (Short data) := inferInstanceAs (Decidable (_ ∨ _))
instance (data : Frame) : Decidable (Complete data) := inferInstanceAs (Decidable (_ ∧ _))

section Kinds

variable {data : Frame}

theorem not_short_of_complete (h : Complete data) : ¬ Short data := by
  obtain ⟨hlen, -, -⟩ := h
  intro hs
  simp only [Short, ethHdrLen, ipHdrLen, tcpHdrLen] at hs hlen
  omega

theorem xdpProg_of_complete (h : Complete data) : xdpProg data = record data := by
  obtain ⟨hlen, hip, htcp⟩ := h
  have h₁ : ¬ data.length < ethHdrLen := by omega
  have h₂ : ¬ data.length < ethHdrLen + ipHdrLen := by omega
  have h₃ : ¬ data.length < ethHdrLen + ipHdrLen + tcpHdrLen := by omega
  unfold xdpProg
  rw [if_neg h₁, if_neg (not_not.mpr hip), if_neg h₂, if_neg (not_not.mpr htcp), if_neg h₃]

theorem xdpProg_of_short (h : Short data) : xdpProg data = .ret .aborted := by
  unfold xdpProg
  by_cases h₁ : data.length < ethHdrLen
  · rw [if_pos h₁]
    rfl
  have h := h.resolve_left h₁
  have hip : IsIp data := h.elim And.left And.left
  rw [if_neg h₁, if_neg (not_not.mpr hip)]
  by_cases h₂ : data.length < ethHdrLen + ipHdrLen
  · rw [if_pos h₂]
    rfl
  have h := h.resolve_left fun h' => h₂ h'.2
  rw [if_neg h₂, if_neg (not_not.mpr h.2.1), if_pos h.2.2]
  rfl

theorem xdpProg_of_other (hc : ¬ Complete data) (hs : ¬ Short data) :
    xdpProg data = .ret .pass := by
  have h₁ : ¬ data.length < ethHdrLen := fun h => hs (Or.inl h)
  unfold xdpProg
  rw [if_neg h₁]
  by_cases hip : IsIp data
  · have h₂ : ¬ data.length < ethHdrLen + ipHdrLen := fun h => hs (Or.inr (Or.inl ⟨hip, h⟩))
    rw [if_neg (not_not.mpr hip), if_neg h₂]
    have htcp : ¬ IsTcp data := by
      intro htcp
      by_cases h₃ : data.length < ethHdrLen + ipHdrLen + tcpHdrLen
      · exact hs (Or.inr (Or.inr ⟨hip, htcp, h₃⟩))
      · exact hc ⟨Nat.le_of_not_lt h₃, hip, htcp⟩
    rw [if_pos htcp]
    rfl
  · rw [if_pos hip]
    rfl

end Kinds

/-! ### A complete frame, in one go -/

section Record

variable {data : Frame} {inp : Inp} {s : Kern}

/-- The lines that are printed for a record. -/
def lines (p : PacketInfo) : List (String × UInt32 × UInt16 × UInt64) :=
  [(srcFormat, p.srcIp, p.srcPort, p.timestamp), (dstFormat, p.dstIp, p.dstPort, p.timestamp)]

/-- With room in the ring the record is submitted and the frame passes. -/
theorem run_xdpProg_of_room (hc : Complete data) (ht : s.clock ≤ inp.now) {e : SlotPtr}
    {ring : RingBuf PacketInfo packetRingbufSlots}
    (hr : s.ring.reserve inp.stale = some (e, ring)) :
    (xdpProg data).run (exec inp) s = some (.pass, { s with
      clock := inp.now
      ring := (ring.write e (packetInfo data inp.now)).submit e
      pipe := s.pipe ++ lines (packetInfo data inp.now) }) := by
  rw [xdpProg_of_complete hc]
  simp [record, ktimeGetNs, printk, ringbufReserve, store, ringbufSubmit, exec, ht, hr, lines]

/-- Without room the frame is dropped. -/
theorem run_xdpProg_of_full (hc : Complete data) (ht : s.clock ≤ inp.now)
    (hr : s.ring.reserve inp.stale = none) :
    (xdpProg data).run (exec inp) s = some (.aborted, { s with
      clock := inp.now
      pipe := s.pipe ++ lines (packetInfo data inp.now) }) := by
  rw [xdpProg_of_complete hc]
  simp [record, ktimeGetNs, printk, ringbufReserve, exec, ht, hr, lines]

end Record

/-- A TCP segment without data, from 127.0.0.1:9999 to 127.0.0.1:12345. -/
def exampleSegment : Frame :=
  [0, 0, 0, 0, 0, 0, 0, 0, 0, 0, 0, 0, 8, 0,
    69, 0, 0, 40, 0, 0, 0, 0, 64, 6, 0, 0, 127, 0, 0, 1, 127, 0, 0, 1,
    39, 15, 48, 57, 0, 0, 0, 0, 0, 0, 0, 0, 80, 16, 0, 0, 0, 0, 0, 0]

theorem complete_exampleSegment : Complete exampleSegment := by decide

def exampleInp (t : UInt64) : Inp := ⟨t, ⟨0, 0, 0, 0, 0⟩⟩

end NetworkAnalyse.Xdp
