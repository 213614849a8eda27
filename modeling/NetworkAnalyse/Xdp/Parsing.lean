import NetworkAnalyse.Xdp.Kern

/-!
# The header parsers

`common/parsing_helpers.h` has a second set of parsers, which go through the
headers with a cursor and take their lengths from the packet.  `xdp_prog` takes
every header to have its least length.

* `helperChain`: `parse_ethhdr`, `parse_iphdr` and `parse_tcphdr`, one after the
  other; `helperChain_of_fit` and `fit_of_helperChain`: on which frames they find a
  TCP header.
* `parsers_agree_iff`: on which frames `xdp_prog` finds the same one.
-/

namespace NetworkAnalyse.Xdp

open Lib Lib.Bytes

/-! ### The helpers -/

/-- What a helper returns, where it leaves the cursor, and the header pointer it
stores, as offsets into the frame.  A helper that fails stores none. -/
structure Parsed where
  ret : Int
  pos : Nat
  hdr : Option Nat
  deriving DecidableEq, Repr

def vlanMaxDepth : Nat := 2
def vlanHdrLen : Nat := 4
def vlanVidMask : UInt16 := 0x0fff
def ethP8021q : UInt16 := 0x8100
def ethP8021ad : UInt16 := 0x88a8

def ProtoIsVlan (hProto : UInt16) : Prop :=
  hProto = bswap16 ethP8021q ∨ hProto = bswap16 ethP8021ad

instance (hProto : UInt16) : Decidable (ProtoIsVlan hProto) := inferInstanceAs (Decidable (_ ∨ _))

/-- The loop of `parse_ethhdr_vlan`, with the VLAN ids it collects. -/
def skipVlans (data : Frame) : Nat → UInt16 → Nat → List UInt16 → UInt16 × Nat × List UInt16
  | 0, hProto, vlh, ids => (hProto, vlh, ids)
  | n + 1, hProto, vlh, ids =>
    if ¬ ProtoIsVlan hProto then (hProto, vlh, ids)
    else if data.length < vlh + vlanHdrLen then (hProto, vlh, ids)
    else skipVlans data n (load16 data (vlh + 2)) (vlh + vlanHdrLen)
      (ids ++ [bswap16 (load16 data vlh) &&& vlanVidMask])

/-- The type is returned in the order of the network. -/
def parseEthhdrVlan (data : Frame) (nh : Nat) : Parsed × List UInt16 :=
  if data.length < nh + ethHdrLen then (⟨-1, nh, none⟩, [])
  else
    let (hProto, vlh, ids) :=
      skipVlans data vlanMaxDepth (load16 data (nh + 12)) (nh + ethHdrLen) []
    (⟨hProto.toNat, vlh, some nh⟩, ids)

def parseEthhdr (data : Frame) (nh : Nat) : Parsed := (parseEthhdrVlan data nh).1

/-- `iph->ihl`. -/
def ihl (data : Frame) (iph : Nat) : Nat := (load8 data iph).toNat % 16

def parseIphdr (data : Frame) (nh : Nat) : Parsed :=
  if data.length < nh + ipHdrLen then ⟨-1, nh, none⟩
  else
    let hdrsize := ihl data nh * 4
    if hdrsize < ipHdrLen then ⟨-1, nh, none⟩
    else if data.length < nh + hdrsize then ⟨-1, nh, none⟩
    else ⟨(load8 data (nh + 9)).toNat, nh + hdrsize, some nh⟩

/-- `h->doff`. -/
def doff (data : Frame) (h : Nat) : Nat := (load8 data (h + 12)).toNat / 16

def parseTcphdr (data : Frame) (nh : Nat) : Parsed :=
  if data.length < nh + tcpHdrLen then ⟨-1, nh, none⟩
  else
    let len := doff data nh * 4
    if len < tcpHdrLen then ⟨-1, nh, none⟩
    else if data.length < nh + len then ⟨-1, nh, none⟩
    else ⟨len, nh + len, some nh⟩

/-- The three helpers in a row: the offsets of the IPv4 and the TCP header, if
`parse_ethhdr` gives `ETH_P_IP`, `parse_iphdr` gives `IPPROTO_TCP` and
`parse_tcphdr` gives no error. -/
def helperChain (data : Frame) : Option (Nat × Nat) :=
  let eth := parseEthhdr data 0
  if eth.ret ≠ (bswap16 ethPIp).toNat then none
  else
    let ip := parseIphdr data eth.pos
    if ip.ret ≠ ipprotoTcp.toNat then none
    else
      let tcp := parseTcphdr data ip.pos
      if tcp.ret < 0 then none
      else ip.hdr.bind fun iph => tcp.hdr.map fun h => (iph, h)

/-! ### What the helpers find -/

/-- The frame has no VLAN tag. -/
def Untagged (data : Frame) : Prop := ethHdrLen ≤ data.length → ¬ ProtoIsVlan (load16 data 12)

/-- Where the TCP header is, by the length of the IPv4 header. -/
def tcpOffset (data : Frame) : Nat := ethHdrLen + ihl data ethHdrLen * 4

/-- Both headers have a legal length and lie in the frame. -/
def HeadersFit (data : Frame) : Prop :=
  ipHdrLen ≤ ihl data ethHdrLen * 4 ∧ tcpHdrLen ≤ doff data (tcpOffset data) * 4 ∧
    tcpOffset data + doff data (tcpOffset data) * 4 ≤ data.length

instance (data : Frame) : Decidable (HeadersFit data) := inferInstanceAs (Decidable (_ ∧ _))

section Helpers

variable {data : Frame}

theorem parseEthhdr_of_untagged (hu : Untagged data) (hlen : ethHdrLen ≤ data.length) :
    parseEthhdr data 0 = ⟨(load16 data 12).toNat, ethHdrLen, some 0⟩ := by
  have hv := hu hlen
  rw [parseEthhdr, parseEthhdrVlan, if_neg (by omega)]
  simp [skipVlans, vlanMaxDepth, hv]

theorem parseIphdr_eq {nh : Nat} :
    parseIphdr data nh =
      if ipHdrLen ≤ ihl data nh * 4 ∧ nh + ihl data nh * 4 ≤ data.length then
        ⟨(load8 data (nh + 9)).toNat, nh + ihl data nh * 4, some nh⟩
      else ⟨-1, nh, none⟩ := by
  rw [parseIphdr]
  dsimp only
  split_ifs <;> first | rfl | omega

theorem parseTcphdr_eq {nh : Nat} :
    parseTcphdr data nh =
      if tcpHdrLen ≤ doff data nh * 4 ∧ nh + doff data nh * 4 ≤ data.length then
        ⟨(doff data nh * 4 : Nat), nh + doff data nh * 4, some nh⟩
      else ⟨-1, nh, none⟩ := by
  rw [parseTcphdr]
  dsimp only
  split_ifs <;> first | rfl | omega

theorem complete_of_headersFit (hip : IsIp data) (htcp : IsTcp data) (h : HeadersFit data) :
    Complete data := by
  refine ⟨?_, hip, htcp⟩
  obtain ⟨hihl, hdoff, hlen⟩ := h
  simp only [tcpOffset, ethHdrLen, ipHdrLen, tcpHdrLen] at *
  omega

theorem isIp_iff_ret :
    ((load16 data 12).toNat : Int) = (bswap16 ethPIp).toNat ↔ IsIp data := by
  rw [Int.natCast_inj, UInt16.toNat_inj, IsIp]

theorem isTcp_iff_ret :
    ((load8 data (ethHdrLen + 9)).toNat : Int) = ipprotoTcp.toNat ↔ IsTcp data := by
  rw [Int.natCast_inj, UInt8.toNat_inj, IsTcp]

/-- A frame in which the helpers get through all three headers. -/
theorem helperChain_of_fit (hu : Untagged data) (hip : IsIp data) (htcp : IsTcp data)
    (hfit : HeadersFit data) : helperChain data = some (ethHdrLen, tcpOffset data) := by
  have hlen : ethHdrLen ≤ data.length := by
    have := (complete_of_headersFit hip htcp hfit).1
    omega
  obtain ⟨hihl, hdoff, hend⟩ := hfit
  have hip' : parseIphdr data ethHdrLen =
      ⟨(load8 data (ethHdrLen + 9)).toNat, tcpOffset data, some ethHdrLen⟩ := by
    rw [parseIphdr_eq, if_pos ⟨hihl, Nat.le_trans (Nat.le_add_right _ _) hend⟩]
    rfl
  have htcp' : parseTcphdr data (tcpOffset data) = ⟨(doff data (tcpOffset data) * 4 : Nat),
      tcpOffset data + doff data (tcpOffset data) * 4, some (tcpOffset data)⟩ := by
    rw [parseTcphdr_eq, if_pos ⟨hdoff, hend⟩]
  simp only [helperChain, parseEthhdr_of_untagged hu hlen, hip', htcp', ne_eq, isIp_iff_ret, hip,
    isTcp_iff_ret, htcp, not_true_eq_false, if_false]
  rw [if_neg (by omega)]
  rfl

/-- What it takes for the helpers to get through. -/
theorem fit_of_helperChain (hu : Untagged data) {p : Nat × Nat} (h : helperChain data = some p) :
    IsIp data ∧ IsTcp data ∧ HeadersFit data := by
  by_cases hlen : ethHdrLen ≤ data.length
  · simp only [helperChain, parseEthhdr_of_untagged hu hlen, ne_eq, isIp_iff_ret,
      Option.ite_none_left_eq_some, not_not] at h
    obtain ⟨hip, hret, hneg, -⟩ := h
    by_cases hihl : ipHdrLen ≤ ihl data ethHdrLen * 4 ∧
      ethHdrLen + ihl data ethHdrLen * 4 ≤ data.length
    · rw [parseIphdr_eq, if_pos hihl] at hret hneg
      by_cases hdoff : tcpHdrLen ≤ doff data (tcpOffset data) * 4 ∧
          tcpOffset data + doff data (tcpOffset data) * 4 ≤ data.length
      · exact ⟨hip, isTcp_iff_ret.mp hret, hihl.1, hdoff⟩
      · have hfail : (parseTcphdr data (tcpOffset data)).ret = -1 := by
          rw [parseTcphdr_eq, if_neg hdoff]
        exact absurd (show (parseTcphdr data (tcpOffset data)).ret < 0 by omega) hneg
    · rw [parseIphdr_eq, if_neg hihl] at hret
      exact absurd hret (by decide)
  · have hfail : (parseEthhdr data 0).ret = -1 := by
      rw [parseEthhdr, parseEthhdrVlan, if_pos (by omega)]
    rw [helperChain, Option.ite_none_left_eq_some, hfail] at h
    exact absurd h.1 (by omega)

end Helpers

/-! ### The two parsers -/

section Agree

variable {data : Frame} {inp : Inp} {s : Kern} {rs : List PacketInfo}

/-- The records after the frame, as the helpers would have it: one more if they get
through, with the addresses and the ports of the headers they find. -/
def Expected (data : Frame) (before after : List PacketInfo) : Prop :=
  match helperChain data with
  | none => after = before
  | some (iph, h) => ∃ p, after = before ++ [p] ∧
      p.srcIp = load32 data (iph + 12) ∧ p.dstIp = load32 data (iph + 16) ∧
      p.srcPort = bswap16 (load16 data h) ∧ p.dstPort = bswap16 (load16 data (h + 2))

/-- `xdp_prog` submits what the helpers would. -/
def Agree (data : Frame) (inp : Inp) (s : Kern) : Prop :=
  ∃ verdict s', (xdpProg data).run (exec inp) s = some (verdict, s') ∧
    Expected data s.ring.records s'.ring.records

/-- If the frame is one that `xdp_prog` records, its headers have legal lengths and
lie in the frame, and the ports are the two words after the first twenty bytes of
the IPv4 header. -/
def SameHeaders (data : Frame) : Prop :=
  Complete data → HeadersFit data ∧
    load16 data (ethHdrLen + ipHdrLen) = load16 data (tcpOffset data) ∧
    load16 data (ethHdrLen + ipHdrLen + 2) = load16 data (tcpOffset data + 2)

instance (data : Frame) : Decidable (SameHeaders data) := inferInstanceAs (Decidable (_ → _))

theorem run_xdpProg_of_not_complete (inp : Inp) (s : Kern) (hc : ¬ Complete data) :
    ∃ verdict, (xdpProg data).run (exec inp) s = some (verdict, s) := by
  by_cases hs : Short data
  · rw [xdpProg_of_short hs]
    exact ⟨_, rfl⟩
  · rw [xdpProg_of_other hc hs]
    exact ⟨_, rfl⟩

theorem records_of_complete (hc : Complete data) (hring : s.ring.Holds rs none)
    (hroom : s.ring.slots.length < packetRingbufSlots) (ht : s.clock ≤ inp.now) :
    ∃ s', (xdpProg data).run (exec inp) s = some (.pass, s') ∧
      s'.ring.records = s.ring.records ++ [packetInfo data inp.now] := by
  obtain ⟨e, ring, hres, -⟩ := RingBuf.exists_reserve_of_lt inp.stale hroom
  refine ⟨_, run_xdpProg_of_room hc ht hres, ?_⟩
  obtain ⟨he, hhead, hholds⟩ := hring.reserve hres
  rw [← hhead] at he
  have hdone := (hholds.write (a := packetInfo data inp.now)).submit
  rw [he, hring.records_eq]
  exact hdone.records_eq

theorem agree_iff_of_run {verdict : XdpAction} {s' : Kern}
    (hrun : (xdpProg data).run (exec inp) s = some (verdict, s')) :
    Agree data inp s ↔ Expected data s.ring.records s'.ring.records := by
  constructor
  · intro ⟨verdict', s'', hrun', h⟩
    rw [hrun] at hrun'
    cases hrun'
    exact h
  · intro h
    exact ⟨verdict, s', hrun, h⟩

/-- What the helpers expect of a complete frame. -/
theorem expected_iff (hu : Untagged data) (hc : Complete data) (before : List PacketInfo)
    (t : UInt64) : Expected data before (before ++ [packetInfo data t]) ↔ SameHeaders data := by
  by_cases hfit : HeadersFit data
  · rw [Expected, helperChain_of_fit hu hc.2.1 hc.2.2 hfit]
    constructor
    · intro h _
      obtain ⟨p, hp, -, -, hsrc, hdst⟩ := h
      obtain rfl := List.singleton_inj.mp (List.append_cancel_left hp)
      exact ⟨hfit, bswap16_inj.mp hsrc, bswap16_inj.mp hdst⟩
    · intro h
      obtain ⟨-, hsrc, hdst⟩ := h hc
      exact ⟨_, rfl, rfl, rfl, bswap16_inj.mpr hsrc, bswap16_inj.mpr hdst⟩
  · have hnone : helperChain data = none := by
      rw [Option.eq_none_iff_forall_ne_some]
      intro p hp
      exact hfit (fit_of_helperChain hu hp).2.2
    rw [Expected, hnone]
    constructor
    · intro h
      simp at h
    · intro h
      exact absurd (h hc).1 hfit

/-- **When the two parsers agree.**  On an untagged frame, between two other frames
and with room in the ring, `xdp_prog` and the helpers agree if and only if the
headers are where `xdp_prog` looks for them, or the frame is none that it records. -/
theorem parsers_agree_iff (hu : Untagged data) (hring : s.ring.Holds rs none)
    (hroom : s.ring.slots.length < packetRingbufSlots) (ht : s.clock ≤ inp.now) :
    Agree data inp s ↔ SameHeaders data := by
  by_cases hc : Complete data
  · obtain ⟨s', hrun, hrec⟩ := records_of_complete hc hring hroom ht
    rw [agree_iff_of_run hrun, hrec, expected_iff hu hc]
  · have hnone : helperChain data = none := by
      rw [Option.eq_none_iff_forall_ne_some]
      intro p hp
      obtain ⟨hip, htcp, hfit⟩ := fit_of_helperChain hu hp
      exact hc (complete_of_headersFit hip htcp hfit)
    obtain ⟨verdict, hrun⟩ := run_xdpProg_of_not_complete inp s hc
    rw [agree_iff_of_run hrun, Expected, hnone]
    constructor
    · intro _ h
      exact absurd h hc
    · intro _
      rfl

end Agree

/-- A TCP segment whose IPv4 header has four bytes of options: the ports are 9999
and 12345, at offset 38. -/
def optionsSegment : Frame :=
  [0, 0, 0, 0, 0, 0, 0, 0, 0, 0, 0, 0, 8, 0,
    70, 0, 0, 44, 0, 0, 0, 0, 64, 6, 0, 0, 127, 0, 0, 1, 127, 0, 0, 1, 148, 4, 0, 0,
    39, 15, 48, 57, 0, 0, 0, 0, 0, 0, 0, 0, 80, 16, 0, 0, 0, 0, 0, 0]

theorem parsers_agree_iff_exampleSegment :
    Untagged exampleSegment ∧ SameHeaders exampleSegment ∧
      (Agree exampleSegment (exampleInp 0) Kern.boot ↔ SameHeaders exampleSegment) := by
  have hu : Untagged exampleSegment := by
    intro _
    decide
  refine ⟨hu, by decide, parsers_agree_iff hu RingBuf.holds_empty ?_ (UInt64.le_refl 0)⟩
  show 0 < packetRingbufSlots
  decide

/-- **The parsers disagree** on a segment with IPv4 options: the record has the
options where the ports should be. -/
theorem parsers_disagree :
    Untagged optionsSegment ∧ helperChain optionsSegment = some (14, 38) ∧
      (∃ verdict s', (xdpProg optionsSegment).run (exec (exampleInp 0)) Kern.boot =
        some (verdict, s') ∧
        s'.ring.records.map (fun r => (r.srcPort, r.dstPort)) = [(37892, 0)]) ∧
      bswap16 (load16 optionsSegment 38) = 9999 ∧
      ¬ Agree optionsSegment (exampleInp 0) Kern.boot := by
  refine ⟨fun _ => by decide, by decide, ⟨_, _, rfl, rfl⟩, by decide, ?_⟩
  intro hagree
  have hexp : Expected optionsSegment [] [packetInfo optionsSegment 0] := by
    obtain ⟨verdict, s', hrun, h⟩ := hagree
    cases hrun
    exact h
  have hhdr := (expected_iff (fun _ => by decide) (by decide) [] 0).mp hexp
  revert hhdr
  decide

end NetworkAnalyse.Xdp
