import Mathlib.Data.List.Basic
import NetworkAnalyse.Xdp.Monitor
import NetworkAnalyse.Xdp.Parsing

/-!
# What the loader shows of a conversation

`stats_print` and `handle_event` of `xdp/xdp_packet_load.c`.  A record is shown if its
source address reads `127.0.0.1` and one of its ports is 9999.  The test of the address
is made twice, both times on the source; the destination is never looked at.

* `inetNtop_eq_iff`: the only address that reads `127.0.0.1`.
* `mirror`: the frame with both addresses and both ports exchanged.
* `both_shown_iff`: when a frame and its mirror image are both shown or both not, in
  every run of the monitor.
-/

namespace NetworkAnalyse.Xdp

open Lib Lib.Bytes

/-! ### The printer -/

/-- `inet_ntop(AF_INET, …)`: the four bytes in decimal, as they lie in memory. -/
def inetNtop (ip : UInt32) : String :=
  let octet (k : Nat) : String := toString (load8 (bytes32 ip) k).toNat
  octet 0 ++ "." ++ octet 1 ++ "." ++ octet 2 ++ "." ++ octet 3

/-- The line of a record. -/
def PacketInfo.line (p : PacketInfo) : String :=
  "Packet Data - src_ip: " ++ inetNtop p.srcIp ++ ",  src_port: " ++ toString p.srcPort.toNat ++
    ", dst_ip: " ++ inetNtop p.dstIp ++ ",  dst_port: " ++ toString p.dstPort.toNat ++
    ", timestamp(us): " ++ toString p.timestamp.toNat ++ "\n"

def statsPrint (p : PacketInfo) : List String :=
  if inetNtop p.srcIp = "127.0.0.1" then
    if inetNtop p.srcIp = "127.0.0.1" then
      if p.srcPort = 9999 ∨ p.dstPort = 9999 then [p.line] else []
    else []
  else []

def handleEvent (p : PacketInfo) : List String := statsPrint p

/-- What the loader has printed. -/
def Kern.printed (s : Kern) : List String := s.handed.flatMap handleEvent

/-! ### Addresses -/

/-- 127.0.0.1, as it is loaded from a packet. -/
def loopback : UInt32 := 0x0100007f

theorem dot_not_mem_toDigits (n : Nat) : '.' ∉ Nat.toDigits 10 n := by
  intro h
  have hdigit := Nat.isDigit_of_mem_toDigits (by decide) (by decide) h
  exact absurd hdigit (by decide)

theorem toDigits_inj {m n : Nat} (h : Nat.toDigits 10 m = Nat.toDigits 10 n) : m = n := by
  have hread := congrArg (fun ds => Nat.ofDigitChars 10 ds 0) h
  simpa using hread

/-- The text before the first dot, and the text after it. -/
theorem append_dot_inj {x y r t : List Char} (hx : '.' ∉ x) (hy : '.' ∉ y)
    (h : x ++ '.' :: r = y ++ '.' :: t) : x = y ∧ r = t := by
  induction x generalizing y with
  | nil =>
    cases y with
    | nil => exact ⟨rfl, (List.cons.inj h).2⟩
    | cons b y => exact absurd ((List.cons.inj h).1 ▸ List.mem_cons_self) hy
  | cons a x ih =>
    cases y with
    | nil => exact absurd ((List.cons.inj h).1 ▸ List.mem_cons_self) hx
    | cons b y =>
      obtain ⟨rfl, htail⟩ := List.cons.inj h
      obtain ⟨rfl, rfl⟩ := ih (fun hm => hx (List.mem_cons_of_mem _ hm))
        (fun hm => hy (List.mem_cons_of_mem _ hm)) htail
      exact ⟨rfl, rfl⟩

/-- Four numbers with dots between them are read back one by one. -/
theorem dotted_inj {a b c d a' b' c' d' : Nat}
    (h : toString a ++ "." ++ toString b ++ "." ++ toString c ++ "." ++ toString d =
      toString a' ++ "." ++ toString b' ++ "." ++ toString c' ++ "." ++ toString d') :
    a = a' ∧ b = b' ∧ c = c' ∧ d = d' := by
  have hlist := congrArg String.toList h
  simp only [String.toList_append, Nat.toString_eq_repr, Nat.toList_repr,
    List.append_assoc] at hlist
  obtain ⟨ha, hlist⟩ := append_dot_inj (dot_not_mem_toDigits a) (dot_not_mem_toDigits a') hlist
  obtain ⟨hb, hlist⟩ := append_dot_inj (dot_not_mem_toDigits b) (dot_not_mem_toDigits b') hlist
  obtain ⟨hc, hd⟩ := append_dot_inj (dot_not_mem_toDigits c) (dot_not_mem_toDigits c') hlist
  exact ⟨toDigits_inj ha, toDigits_inj hb, toDigits_inj hc, toDigits_inj hd⟩

theorem toNat_eq_bytes32 (x : UInt32) :
    x.toNat = (load8 (bytes32 x) 0).toNat + 256 * (load8 (bytes32 x) 1).toNat +
      65536 * (load8 (bytes32 x) 2).toNat + 16777216 * (load8 (bytes32 x) 3).toNat := by
  have hlt := x.toNat_lt
  simp [load8, bytes32, Nat.shiftRight_eq_div_pow]
  omega

/-- Only one address reads `127.0.0.1`. -/
theorem inetNtop_eq_iff {ip : UInt32} : inetNtop ip = "127.0.0.1" ↔ ip = loopback := by
  constructor
  · intro h
    have htext : "127.0.0.1" = toString 127 ++ "." ++ toString 0 ++ "." ++ toString 0 ++ "." ++
        toString 1 := by
      decide +kernel
    obtain ⟨h₀, h₁, h₂, h₃⟩ := dotted_inj (h.trans htext)
    refine UInt32.toNat_inj.mp ?_
    rw [toNat_eq_bytes32 ip, h₀, h₁, h₂, h₃]
    decide
  · rintro rfl
    decide +kernel

/-- Which records are shown, and how. -/
theorem statsPrint_eq (p : PacketInfo) :
    statsPrint p =
      if p.srcIp = loopback ∧ (p.srcPort = 9999 ∨ p.dstPort = 9999) then [p.line] else [] := by
  simp only [statsPrint, inetNtop_eq_iff]
  by_cases hsrc : p.srcIp = loopback
  · simp [hsrc]
  · simp [hsrc]

/-! ### The mirror image of a frame -/

/-- Where the byte `k` of the mirror image comes from: the Ethernet addresses, the IPv4
addresses and the ports, at the offset `off`, change places. -/
def mirrorIndex (off k : Nat) : Nat :=
  if k < 6 then k + 6
  else if k < 12 then k - 6
  else if 26 ≤ k ∧ k < 30 then k + 4
  else if 30 ≤ k ∧ k < 34 then k - 4
  else if off ≤ k ∧ k < off + 2 then k + 2
  else if off + 2 ≤ k ∧ k < off + 4 then k - 2
  else k

/-- The frame with source and destination exchanged. -/
def mirror (data : Frame) : Frame :=
  (List.range data.length).map fun k => load8 data (mirrorIndex (tcpOffset data) k)

section Mirror

variable {data : Frame}

theorem load8_mirror {k : Nat} (hk : k < data.length) :
    load8 (mirror data) k = load8 data (mirrorIndex (tcpOffset data) k) := by
  rw [load8, mirror, List.getD_eq_getElem?_getD, List.getElem?_map, List.getElem?_range hk]
  rfl

/-- A word whose two bytes move together. -/
theorem load16_mirror {a b : Nat} (ha : a + 1 < data.length)
    (h₀ : mirrorIndex (tcpOffset data) a = b)
    (h₁ : mirrorIndex (tcpOffset data) (a + 1) = b + 1) :
    load16 (mirror data) a = load16 data b := by
  rw [load16, load16, load8_mirror (by omega), load8_mirror ha, h₀, h₁]

/-- The addresses change places. -/
theorem load32_mirror (hlen : 34 ≤ data.length) :
    load32 (mirror data) 26 = load32 data 30 ∧ load32 (mirror data) 30 = load32 data 26 := by
  constructor
  · rw [load32, load32, load16_mirror (b := 30) (by omega) rfl rfl,
      load16_mirror (b := 32) (by omega) rfl rfl]
  · rw [load32, load32, load16_mirror (b := 26) (by omega) rfl rfl,
      load16_mirror (b := 28) (by omega) rfl rfl]

/-- The words that the program takes for the ports change places, or stay where they are
if the IPv4 header has options. -/
theorem ports_mirror (hlen : 38 ≤ data.length) (hoff : 34 ≤ tcpOffset data)
    (halign : tcpOffset data % 4 = 2) :
    (load16 (mirror data) 34 = load16 data 36 ∧ load16 (mirror data) 36 = load16 data 34) ∨
    (load16 (mirror data) 34 = load16 data 34 ∧ load16 (mirror data) 36 = load16 data 36) := by
  by_cases h : tcpOffset data = 34
  · refine Or.inl ⟨load16_mirror (by omega) ?_ ?_, load16_mirror (by omega) ?_ ?_⟩ <;>
      rw [h] <;> rfl
  · have hstay : ∀ k, 34 ≤ k → k < 38 → mirrorIndex (tcpOffset data) k = k := by
      intro k h₁ h₂
      unfold mirrorIndex
      split_ifs <;> omega
    refine Or.inr ⟨load16_mirror (by omega) ?_ ?_, load16_mirror (by omega) ?_ ?_⟩ <;>
      exact hstay _ (by omega) (by omega)

end Mirror

/-! ### Every run -/

/-- One of the two words that are recorded as ports is 9999. -/
def HasPort (data : Frame) : Prop :=
  bswap16 (load16 data 34) = 9999 ∨ bswap16 (load16 data 36) = 9999

instance (data : Frame) : Decidable (HasPort data) :=
  inferInstanceAs (Decidable (_ ∨ _))

/-- The frame is not of the conversation, or both its ends are 127.0.0.1, or neither is. -/
def Alike (data : Frame) : Prop :=
  HasPort data → (load32 data 26 = loopback ↔ load32 data 30 = loopback)

theorem statsPrint_packetInfo (data : Frame) (t : UInt64) :
    statsPrint (packetInfo data t) ≠ [] ↔ load32 data 26 = loopback ∧ HasPort data := by
  rw [statsPrint_eq]
  show (if load32 data 26 = loopback ∧ HasPort data then _ else _) ≠ [] ↔ _
  split_ifs with h
  · simp [h]
  · simp [h]

theorem hasPort_mirror {data : Frame} (hlen : 38 ≤ data.length)
    (hihl : ipHdrLen ≤ ihl data ethHdrLen * 4) : HasPort (mirror data) ↔ HasPort data := by
  simp only [ipHdrLen] at hihl
  have hoff : tcpOffset data = 14 + ihl data ethHdrLen * 4 := rfl
  rcases ports_mirror hlen (by omega) (by omega) with ⟨h₁, h₂⟩ | ⟨h₁, h₂⟩
  · rw [HasPort, h₁, h₂]
    exact Or.comm
  · rw [HasPort, h₁, h₂, HasPort]

section Runs

variable {acts : List (Act Unit Inp Unit Frame)} {c : Config Unit Op Op.Res Kern Frame XdpAction}

/-- The frames whose records `handle_event` has been given. -/
def consumed (c : Config Unit Op Op.Res Kern Frame XdpAction) : List Finished :=
  (c.log.filter (fun i : Finished => i.Recorded)).take c.shared.handed.length

theorem handed_eq_of_run (hrun : monitor.run (monitor.init Kern.boot) acts = some c) :
    c.shared.handed = (consumed c).map Finished.record := by
  obtain ⟨v, hb, hpast, hrecords, -⟩ := balanced_of_run hrun
  rw [hb.records_eq, hpast] at hrecords
  rw [consumed, List.map_take, ← hrecords, List.take_left]

theorem complete_of_mem_consumed {i : Finished} (h : i ∈ consumed c) : Complete i.tag := by
  have hrec : i.Recorded := by
    simpa using (List.mem_filter.mp (List.mem_of_mem_take h)).2
  exact hrec.1

/-- **When both directions of a conversation are shown**, in every run of the monitor.
The lines printed are those of the frames whose records have been consumed, and each
names the fields of its record.  Of a frame and its mirror image both or none are shown
exactly if neither port is 9999, or both addresses are 127.0.0.1, or neither is. -/
theorem both_shown_iff (hrun : monitor.run (monitor.init Kern.boot) acts = some c) :
    c.shared.printed = (consumed c).flatMap (fun i => handleEvent i.record) ∧
    (∀ i ∈ consumed c, ∀ line ∈ handleEvent i.record, line = i.record.line) ∧
    ∀ i ∈ consumed c, ∀ j ∈ consumed c, j.tag = mirror i.tag →
      ipHdrLen ≤ ihl i.tag ethHdrLen * 4 →
      ((handleEvent i.record ≠ [] ↔ handleEvent j.record ≠ []) ↔ Alike i.tag) := by
  refine ⟨?_, fun i _ line hline => ?_, fun i hi j hj htag hihl => ?_⟩
  · rw [Kern.printed, handed_eq_of_run hrun, List.flatMap_map]
  · rw [handleEvent, statsPrint_eq] at hline
    split_ifs at hline
    · exact List.mem_singleton.mp hline
    · cases hline
  · have hlen : 54 ≤ i.tag.length := (complete_of_mem_consumed hi).1
    have hi' := statsPrint_packetInfo i.tag (i.reading.getD 0)
    have hj' := statsPrint_packetInfo j.tag (j.reading.getD 0)
    rw [htag, (load32_mirror (by omega)).1, hasPort_mirror (by omega) hihl] at hj'
    show (statsPrint (packetInfo i.tag (i.reading.getD 0)) ≠ [] ↔
      statsPrint (packetInfo j.tag (j.reading.getD 0)) ≠ []) ↔ _
    rw [hi', htag, hj', Alike]
    exact and_congr_left_iff

end Runs

/-- A segment from `src`:9999 to `dst`:12345. -/
def segment (src dst : List UInt8) : Frame :=
  [0, 0, 0, 0, 0, 0, 0, 0, 0, 0, 0, 0, 8, 0,
    69, 0, 0, 40, 0, 0, 0, 0, 64, 6, 0, 0] ++ src ++ dst ++
    [39, 15, 48, 57, 0, 0, 0, 0, 0, 0, 0, 0, 80, 16, 0, 0, 0, 0, 0, 0]

/-- A frame is recorded, then its mirror image, and both records are consumed. -/
def conversation (data : Frame) : List (Act Unit Inp Unit Frame) :=
  .spawn data :: .step () (exampleInp 5000) :: List.replicate 5 (.step () (exampleInp 0)) ++
    .spawn (mirror data) :: .step () (exampleInp 7000) ::
      List.replicate 5 (.step () (exampleInp 0)) ++
    [.env (), .env ()]

def conversationRun (data : Frame) := monitor.run (monitor.init Kern.boot) (conversation data)

theorem both_shown_iff_example :
    ∃ c, conversationRun exampleSegment = some c ∧ c.shared.printed.length = 2 ∧
      ∃ i ∈ consumed c, ∃ j ∈ consumed c, i.tag = exampleSegment ∧ j.tag = mirror exampleSegment ∧
        ((handleEvent i.record ≠ [] ↔ handleEvent j.record ≠ []) ↔ Alike i.tag) := by
  have h : (conversationRun exampleSegment).map (fun c => ((consumed c).map (·.tag),
      c.shared.printed.length)) = some ([exampleSegment, mirror exampleSegment], 2) := by
    decide +kernel
  obtain ⟨c, hrun, heq⟩ := Option.map_eq_some_iff.mp h
  obtain ⟨htags, hlen⟩ := Prod.mk.inj heq
  have hmem : ∀ data ∈ [exampleSegment, mirror exampleSegment], ∃ i ∈ consumed c, i.tag = data := by
    intro data hdata
    rw [← htags] at hdata
    exact List.mem_map.mp hdata
  obtain ⟨i, hi, hitag⟩ := hmem exampleSegment (by simp)
  obtain ⟨j, hj, hjtag⟩ := hmem (mirror exampleSegment) (by simp)
  refine ⟨c, hrun, hlen, i, hi, j, hj, hitag, hjtag, ?_⟩
  exact (both_shown_iff hrun).2.2 i hi j hj (by rw [hjtag, hitag]) (by rw [hitag]; decide)

/-- **One direction only.**  Of a conversation between 127.0.0.1:9999 and 127.0.0.2 the
frames from 127.0.0.1 are shown, and those to it are not. -/
theorem one_direction_shown :
    ∃ c, conversationRun (segment [127, 0, 0, 1] [127, 0, 0, 2]) = some c ∧
      ∃ p q, c.shared.handed = [p, q] ∧ q.srcIp = p.dstIp ∧ q.dstIp = p.srcIp ∧
        q.srcPort = p.dstPort ∧ q.dstPort = p.srcPort ∧ p.srcPort = 9999 ∧
        handleEvent p = [p.line] ∧ handleEvent q = [] := by
  have h : (conversationRun (segment [127, 0, 0, 1] [127, 0, 0, 2])).map (·.shared.handed) =
      some [⟨0x0100007f, 0x0200007f, 9999, 12345, 5⟩,
        ⟨0x0200007f, 0x0100007f, 12345, 9999, 7⟩] := by
    decide +kernel
  obtain ⟨c, hrun, heq⟩ := Option.map_eq_some_iff.mp h
  refine ⟨c, hrun, _, _, heq, rfl, rfl, rfl, rfl, rfl, ?_, ?_⟩
  · rw [handleEvent, statsPrint_eq]
    decide
  · rw [handleEvent, statsPrint_eq]
    decide

end NetworkAnalyse.Xdp
