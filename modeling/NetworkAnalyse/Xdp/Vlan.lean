import NetworkAnalyse.Xdp.Rewrite

/-!
# Parsing and popping VLAN tags

`parse_ethhdr_vlan` walks over the tags of a frame and collects their ids;
`vlan_tag_pop` takes the outermost tag off.  Here a tagged frame is
`ethFrame macs hProto (tagStack payload tags)`, and the two are compared on it.

The parser masks the priority bits of a tag (`VLAN_VID_MASK`), and `vlan_tag_pop`
returns the whole control field.

* `parseEthhdrVlan_tagStack`: what the parser finds in a tagged frame.
* `vlanTagPop_agrees_iff`: when the popped id is the one that the parser has collected.
-/

namespace NetworkAnalyse.Xdp

open Lib Lib.Bytes

/-! ### Tags -/

/-- A tag, as it lies in the frame: the control field, and the type of what is behind. -/
structure Tag where
  tci : UInt16
  hProto : UInt16
  deriving DecidableEq, Repr

/-- The id that the parser collects. -/
def Tag.vid (t : Tag) : UInt16 := bswap16 t.tci &&& vlanVidMask

def tagStack (payload : List UInt8) : List Tag → List UInt8
  | [] => payload
  | t :: tags => vlanTag t.tci t.hProto (tagStack payload tags)

/-- The type of the payload. -/
def lastProto (hProto : UInt16) : List Tag → UInt16
  | [] => hProto
  | t :: tags => lastProto t.hProto tags

/-- The types say where a tag follows and where none does. -/
def Announces (hProto : UInt16) : List Tag → Prop
  | [] => ¬ ProtoIsVlan hProto
  | t :: tags => ProtoIsVlan hProto ∧ Announces t.hProto tags

/-! ### What the parser finds -/

section Parser

variable {macs : List UInt8} {hProto : UInt16} {tags : List Tag}

/-- The loop, by induction on the tags; `pre` is what it has passed. -/
theorem skipVlans_tagStack (payload : List UInt8) (h : Announces hProto tags) (pre : List UInt8)
    {n : Nat} (hn : tags.length ≤ n) (ids : List UInt16) :
    skipVlans (pre ++ tagStack payload tags) n hProto pre.length ids =
      (lastProto hProto tags, pre.length + vlanHdrLen * tags.length, ids ++ tags.map Tag.vid) := by
  induction tags generalizing hProto pre n ids with
  | nil =>
    cases n with
    | zero => simp [skipVlans, lastProto]
    | succ n =>
      have hv : ¬ ProtoIsVlan hProto := h
      simp [skipVlans, hv, lastProto]
  | cons t tags ih =>
    obtain ⟨hv, htags⟩ := h
    obtain ⟨n, rfl⟩ := Nat.exists_eq_succ_of_ne_zero (Nat.ne_zero_of_lt hn)
    have htci : load16 (pre ++ tagStack payload (t :: tags)) pre.length = t.tci := by
      have h0 := load16_append pre (tagStack payload (t :: tags)) 0
      rwa [Nat.add_zero, tagStack, load16_tci] at h0
    have hnext : load16 (pre ++ tagStack payload (t :: tags)) (pre.length + 2) = t.hProto := by
      rw [load16_append, tagStack, load16_encapsulated]
    have hsplit : pre ++ tagStack payload (t :: tags) =
        (pre ++ (bytes16 t.tci ++ bytes16 t.hProto)) ++ tagStack payload tags := by
      simp only [tagStack, vlanTag, List.append_assoc]
    have hpre : pre.length + vlanHdrLen = (pre ++ (bytes16 t.tci ++ bytes16 t.hProto)).length := by
      simp [vlanHdrLen]
    have hlen : ¬ (pre ++ tagStack payload (t :: tags)).length < pre.length + vlanHdrLen := by
      rw [List.length_append, tagStack, length_vlanTag]
      omega
    rw [skipVlans, if_neg (not_not.mpr hv), if_neg hlen, htci, hnext, hpre, hsplit,
      ih htags _ (Nat.le_of_succ_le_succ hn), ← hpre]
    simp only [lastProto, List.length_cons, List.map_cons, Tag.vid, List.append_assoc,
      List.singleton_append, vlanHdrLen]
    refine Prod.ext rfl (Prod.ext ?_ rfl)
    dsimp only
    omega

/-- A tagged frame, as the parser sees it. -/
theorem parseEthhdrVlan_tagStack (payload : List UInt8) (hm : macs.length = 12)
    (h : Announces hProto tags) (hn : tags.length ≤ vlanMaxDepth) :
    parseEthhdrVlan (ethFrame macs hProto (tagStack payload tags)) 0 =
      (⟨(lastProto hProto tags).toNat, ethHdrLen + vlanHdrLen * tags.length, some 0⟩,
        tags.map Tag.vid) := by
  have hskip : skipVlans (ethFrame macs hProto (tagStack payload tags)) vlanMaxDepth hProto
      ethHdrLen [] = (lastProto hProto tags, ethHdrLen + vlanHdrLen * tags.length,
        tags.map Tag.vid) := by
    have h := skipVlans_tagStack payload h (macs ++ bytes16 hProto) hn []
    rwa [length_header hm, List.append_assoc] at h
  rw [parseEthhdrVlan, if_neg (by rw [length_ethFrame hm]; omega), Nat.zero_add, Nat.zero_add,
    load16_proto hm, hskip]

end Parser

/-! ### Popping a tag -/

/-- The frame carries one or two tags, whole ones, and no more. -/
def CarriesTags (data : Frame) : Prop :=
  ethHdrLen + vlanHdrLen ≤ data.length ∧ ProtoIsVlan (load16 data 12) ∧
    (¬ ProtoIsVlan (load16 data (ethHdrLen + 2)) ∨
      ethHdrLen + vlanHdrLen + vlanHdrLen ≤ data.length ∧
        ProtoIsVlan (load16 data (ethHdrLen + 2)) ∧
        ¬ ProtoIsVlan (load16 data (ethHdrLen + vlanHdrLen + 2)))

instance (data : Frame) : Decidable (CarriesTags data) := inferInstanceAs (Decidable (_ ∧ _ ∧ _))

/-- The control field of the outermost tag, in host order. -/
def outerTci (data : Frame) : UInt16 := bswap16 (load16 data ethHdrLen)

theorem exists_tagStack {data : Frame} (h : CarriesTags data) :
    ∃ macs hProto t tags payload, macs.length = 12 ∧
      data = ethFrame macs hProto (tagStack payload (t :: tags)) ∧
      Announces hProto (t :: tags) ∧ (t :: tags).length ≤ vlanMaxDepth := by
  obtain ⟨hlen, hv, hnext⟩ := h
  obtain ⟨macs, hProto, l, hm, rfl⟩ := exists_ethFrame (Nat.le_of_add_right_le hlen)
  rw [length_ethFrame hm] at hlen
  obtain ⟨tci, p, l, rfl⟩ := exists_vlanTag (Nat.le_of_add_le_add_left hlen)
  rw [load16_proto hm] at hv
  rw [load16_ethFrame hm, load16_encapsulated] at hnext
  rcases hnext with hno | ⟨hlen, hv', hno⟩
  · exact ⟨macs, hProto, ⟨tci, p⟩, [], l, hm, rfl, ⟨hv, hno⟩, Nat.le_succ 1⟩
  · rw [length_ethFrame hm, length_vlanTag, Nat.add_assoc] at hlen
    obtain ⟨tci', p', l, rfl⟩ :=
      exists_vlanTag (Nat.le_of_add_le_add_left (Nat.le_of_add_le_add_left hlen))
    rw [Nat.add_assoc, load16_ethFrame hm, load16_vlanTag, load16_encapsulated] at hno
    exact ⟨macs, hProto, ⟨tci, p⟩, [⟨tci', p'⟩], l, hm, rfl, ⟨hv, hv', hno⟩, Nat.le_refl 2⟩

/-- The parser on the popped frame finds the other ids, the same type and the same
payload; the head of the frame has moved in between. -/
structure KeepsRest (ctx ctx' : XdpMd) : Prop where
  ids : (parseEthhdrVlan ctx'.data 0).2 = (parseEthhdrVlan ctx.data 0).2.tail
  proto : (parseEthhdrVlan ctx'.data 0).1.ret = (parseEthhdrVlan ctx.data 0).1.ret
  payload : ctx'.headroom.length + (parseEthhdrVlan ctx'.data 0).1.pos =
    ctx.headroom.length + (parseEthhdrVlan ctx.data 0).1.pos

/-- `vlan_tag_pop` returns the first id that the parser collects, and keeps the rest. -/
def PopAgrees (permits : XdpMd → Int → Bool) (ctx : XdpMd) : Prop :=
  ∃ vlid ctx', vlanTagPop permits ctx 0 = some (vlid, ctx') ∧
    (∃ id ∈ (parseEthhdrVlan ctx.data 0).2.head?, vlid = id.toNat) ∧ KeepsRest ctx ctx'

section Pop

variable {permits : XdpMd → Int → Bool} {ctx : XdpMd}

/-- What a pop of a tagged frame returns, what the parser collects, and what is kept. -/
theorem vlanTagPop_tagged (hp : Roomy permits) (ht : CarriesTags ctx.data) :
    ∃ ctx', vlanTagPop permits ctx 0 = some (((outerTci ctx.data).toNat : Int), ctx') ∧
      (parseEthhdrVlan ctx.data 0).2.head? = some (outerTci ctx.data &&& vlanVidMask) ∧
      KeepsRest ctx ctx' := by
  obtain ⟨headroom, data⟩ := ctx
  obtain ⟨macs, hProto, t, tags, payload, hm, rfl, h, hn⟩ := exists_tagStack ht
  have htci : outerTci (ethFrame macs hProto (tagStack payload (t :: tags))) = bswap16 t.tci := by
    rw [outerTci, tagStack, load16_ethFrame_tci hm]
  have hparse := parseEthhdrVlan_tagStack payload hm h hn
  have hpopped := parseEthhdrVlan_tagStack payload hm h.2 (Nat.le_of_succ_le hn)
  refine ⟨⟨headroom ++ macs.take vlanHdrLen, ethFrame macs t.hProto (tagStack payload tags)⟩,
    ?_, ?_, ?_, ?_, ?_⟩
  · rw [htci]
    exact vlanTagPop_ethFrame hp hm h.1
  · rw [hparse, htci]
    rfl
  · rw [hparse, hpopped]
    rfl
  · rw [hparse, hpopped]
    rfl
  · dsimp only
    rw [hparse, hpopped, List.length_append, length_take_macs hm, List.length_cons, Nat.mul_succ]
    dsimp only
    omega

theorem and_vidMask_eq_iff (x : UInt16) : (x &&& vlanVidMask).toNat = x.toNat ↔ x.toNat < 4096 := by
  have hmod : (x &&& vlanVidMask).toNat = x.toNat % 4096 :=
    Nat.and_two_pow_sub_one_eq_mod x.toNat 12
  rw [hmod]
  omega

/-- **When popping agrees with parsing**, for every frame with one or two tags: the rest
of the frame is always kept, and the id is the collected one if and only if the priority
bits of the outermost tag are zero. -/
theorem vlanTagPop_agrees_iff (hp : Roomy permits) (ht : CarriesTags ctx.data) :
    (∃ vlid ctx', vlanTagPop permits ctx 0 = some (vlid, ctx') ∧ KeepsRest ctx ctx') ∧
      (PopAgrees permits ctx ↔ (outerTci ctx.data).toNat < 4096) := by
  obtain ⟨ctx', hpop, hid, hkeeps⟩ := vlanTagPop_tagged hp ht
  refine ⟨⟨_, ctx', hpop, hkeeps⟩, ?_⟩
  rw [← and_vidMask_eq_iff]
  constructor
  · intro h
    obtain ⟨vlid, ctx'', hpop', ⟨id, hmem, hvlid⟩, -⟩ := h
    rw [hpop] at hpop'
    obtain rfl : id = _ := Option.some.inj (hmem.symm.trans hid)
    have hret := congrArg Prod.fst (Option.some.inj hpop')
    dsimp only at hret
    omega
  · intro h
    exact ⟨_, ctx', hpop, ⟨_, hid, by rw [h]⟩, hkeeps⟩

end Pop

/-- A frame with a tag of id 100 and priority 1, in front of an IPv4 packet. -/
def priorityCtx : XdpMd :=
  ⟨[], ethFrame [1, 2, 3, 4, 5, 6, 7, 8, 9, 10, 11, 12] 129 (vlanTag 25632 8 [69])⟩

/-- The same tag without its priority. -/
def plainCtx : XdpMd :=
  ⟨[], ethFrame [1, 2, 3, 4, 5, 6, 7, 8, 9, 10, 11, 12] 129 (vlanTag 25600 8 [69])⟩

theorem vlanTagPop_agrees_iff_plainCtx :
    CarriesTags plainCtx.data ∧ PopAgrees linuxPermits plainCtx := by
  have ht : CarriesTags plainCtx.data := by decide
  exact ⟨ht, (vlanTagPop_agrees_iff roomy_linuxPermits ht).2.mpr (by decide)⟩

/-- **The priority is in the popped id**: the parser collects 100, and `vlan_tag_pop`
returns 8292. -/
theorem vlanTagPop_keeps_priority :
    CarriesTags priorityCtx.data ∧ (parseEthhdrVlan priorityCtx.data 0).2 = [100] ∧
      (vlanTagPop linuxPermits priorityCtx 0).map Prod.fst = some 8292 ∧
      ¬ PopAgrees linuxPermits priorityCtx := by
  refine ⟨by decide, by decide, by decide, ?_⟩
  intro h
  obtain ⟨vlid, ctx', hpop, ⟨id, hid, hvlid⟩, -⟩ := h
  have hret : (vlanTagPop linuxPermits priorityCtx 0).map Prod.fst = some 8292 := by decide
  have hhead : (parseEthhdrVlan priorityCtx.data 0).2.head? = some 100 := by decide
  rw [hpop] at hret
  obtain rfl : id = 100 := Option.some.inj (hid.symm.trans hhead)
  obtain rfl : vlid = 8292 := Option.some.inj hret
  exact absurd hvlid (by decide)

end NetworkAnalyse.Xdp
