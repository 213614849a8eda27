import NetworkAnalyse.Xdp.Parsing

/-!
# Pushing and popping VLAN tags

`vlan_tag_push` and `vlan_tag_pop` of `common/rewrite_helpers.h`.  Both move the head of
the frame with `bpf_xdp_adjust_head` and then put the Ethernet header back in its place.

A frame of at least fourteen bytes is `ethFrame macs hProto rest`, and a tag is
`vlanTag tci hProto rest`: what `h_proto` says comes before what it is about.  In these
words a push is `ethFrame macs p rest ↦ ethFrame macs 0x8100 (vlanTag tci p rest)`.

* `vlanTagPush_ethFrame`, `vlanTagPop_ethFrame`: what the two do to a frame.
* `eq_of_vlanTagPush`, `eq_of_vlanTagPop`: a failure changes nothing.
* `vlanTag_inverse`: each undoes the other.
-/

namespace NetworkAnalyse.Xdp

open Lib Lib.Bytes

/-! ### The head of the frame -/

/-- The frame, and the bytes before it over which its head can be moved. -/
structure XdpMd where
  headroom : List UInt8
  data : Frame
  deriving DecidableEq, Repr

namespace XdpMd

def moveHead (ctx : XdpMd) (delta : Int) : XdpMd :=
  let start := (ctx.headroom.length + delta).toNat
  ⟨(ctx.headroom ++ ctx.data).take start, (ctx.headroom ++ ctx.data).drop start⟩

/-- `bpf_xdp_adjust_head`.  It moves the head by `delta` bytes or fails without effect.
It does not move the head out of its memory; what else it asks for is left open
(`permits`). -/
def adjustHead (permits : XdpMd → Int → Bool) (ctx : XdpMd) (delta : Int) : Option XdpMd :=
  if -delta ≤ ctx.headroom.length ∧ delta ≤ ctx.data.length ∧ permits ctx delta then
    some (ctx.moveHead delta)
  else none

end XdpMd

/-- The head may be moved where it leaves an Ethernet header. -/
def Roomy (permits : XdpMd → Int → Bool) : Prop :=
  ∀ (ctx : XdpMd) (delta : Int), delta + ethHdrLen ≤ ctx.data.length → permits ctx delta = true

/-- The rule of the Linux kernel. -/
def linuxPermits (ctx : XdpMd) (delta : Int) : Bool := delta + ethHdrLen ≤ ctx.data.length

/-! ### The two functions -/

/-- `eth` is an offset into the frame.  The result is `none` if the header at `eth`, which
is read unchecked, is not in the frame. -/
def vlanTagPop (permits : XdpMd → Int → Bool) (ctx : XdpMd) (eth : Nat) : Option (Int × XdpMd) :=
  if ctx.data.length < eth + ethHdrLen then none
  else if ¬ ProtoIsVlan (load16 ctx.data (eth + 12)) then some (-1, ctx)
  else
    let vlh := eth + ethHdrLen
    if ctx.data.length < vlh + vlanHdrLen then some (-1, ctx)
    else
      let vlid := bswap16 (load16 ctx.data vlh)
      let hProto := load16 ctx.data (vlh + 2)
      let ethCpy := (ctx.data.drop eth).take ethHdrLen
      match ctx.adjustHead permits vlanHdrLen with
      | none => some (-1, ctx)
      | some ctx =>
        if ctx.data.length < ethHdrLen then some (-1, ctx)
        else
          let data := put ctx.data 0 ethCpy
          let data := put data 12 (bytes16 hProto)
          some (vlid.toNat, { ctx with data := data })

def vlanTagPush (permits : XdpMd → Int → Bool) (ctx : XdpMd) (eth : Nat) (vlid : Int) :
    Option (Int × XdpMd) :=
  if ctx.data.length < eth + ethHdrLen then none
  else
    let ethCpy := (ctx.data.drop eth).take ethHdrLen
    match ctx.adjustHead permits (0 - vlanHdrLen) with
    | none => some (-1, ctx)
    | some ctx =>
      if ctx.data.length < ethHdrLen then some (-1, ctx)
      else
        let data := put ctx.data 0 ethCpy
        let vlh := ethHdrLen
        if data.length < vlh + vlanHdrLen then some (-1, { ctx with data := data })
        else
          let data := put data vlh (bytes16 (bswap16 (.ofInt vlid)))
          let data := put data (vlh + 2) (bytes16 (load16 data 12))
          let data := put data 12 (bytes16 (bswap16 ethP8021q))
          some (0, { ctx with data := data })

/-! ### Frames and tags -/

/-- A frame: its addresses, its type and the rest. -/
def ethFrame (macs : List UInt8) (hProto : UInt16) (rest : List UInt8) : Frame :=
  macs ++ (bytes16 hProto ++ rest)

/-- A tag, the type of what is behind it, and the rest. -/
def vlanTag (tci hProto : UInt16) (rest : List UInt8) : List UInt8 :=
  bytes16 tci ++ (bytes16 hProto ++ rest)

section Frames

variable {macs rest l : List UInt8} {hProto tci : UInt16} {f : Frame}

theorem exists_bytes16_append (h : 2 ≤ l.length) : ∃ x rest, l = bytes16 x ++ rest := by
  obtain ⟨a, rest, ha, rfl⟩ := exists_split h
  obtain ⟨x, rfl⟩ := exists_bytes16 ha
  exact ⟨x, rest, rfl⟩

theorem exists_ethFrame (h : ethHdrLen ≤ f.length) :
    ∃ macs hProto rest, macs.length = 12 ∧ f = ethFrame macs hProto rest := by
  obtain ⟨macs, l, hm, rfl⟩ := exists_split (Nat.le_trans (by decide : 12 ≤ ethHdrLen) h)
  rw [List.length_append, hm] at h
  obtain ⟨hProto, rest, rfl⟩ := exists_bytes16_append (Nat.le_of_add_le_add_left h)
  exact ⟨macs, hProto, rest, hm, rfl⟩

theorem exists_vlanTag (h : vlanHdrLen ≤ l.length) :
    ∃ tci hProto rest, l = vlanTag tci hProto rest := by
  obtain ⟨tci, l, rfl⟩ := exists_bytes16_append (Nat.le_trans (by decide : 2 ≤ vlanHdrLen) h)
  rw [List.length_append, length_bytes16] at h
  obtain ⟨hProto, rest, rfl⟩ := exists_bytes16_append (Nat.le_of_add_le_add_left h)
  exact ⟨tci, hProto, rest, rfl⟩

theorem length_ethFrame (hm : macs.length = 12) :
    (ethFrame macs hProto rest).length = ethHdrLen + rest.length := by
  simp [ethFrame, hm, ethHdrLen]
  omega

theorem length_vlanTag : (vlanTag tci hProto rest).length = vlanHdrLen + rest.length := by
  simp [vlanTag, vlanHdrLen]
  omega

theorem load16_proto (hm : macs.length = 12) : load16 (ethFrame macs hProto rest) 12 = hProto := by
  have h := load16_append macs (bytes16 hProto ++ rest) 0
  rwa [hm, load16_bytes16] at h

theorem load16_ethFrame (hm : macs.length = 12) (a : Nat) :
    load16 (ethFrame macs hProto rest) (ethHdrLen + a) = load16 rest a := by
  have h := load16_append (macs ++ bytes16 hProto) rest a
  rwa [List.length_append, hm, List.append_assoc] at h

theorem load16_tci : load16 (vlanTag tci hProto rest) 0 = tci := load16_bytes16 tci _

theorem load16_encapsulated : load16 (vlanTag tci hProto rest) 2 = hProto := by
  have h := load16_append (bytes16 tci) (bytes16 hProto ++ rest) 0
  rwa [load16_bytes16] at h

theorem load16_vlanTag (a : Nat) :
    load16 (vlanTag tci hProto rest) (vlanHdrLen + a) = load16 rest a := by
  have h := load16_append (bytes16 tci ++ bytes16 hProto) rest a
  rwa [List.append_assoc] at h

/-- The control field of the outermost tag. -/
theorem load16_ethFrame_tci (hm : macs.length = 12) (p : UInt16) :
    load16 (ethFrame macs p (vlanTag tci hProto rest)) ethHdrLen = tci := by
  rw [← Nat.add_zero ethHdrLen, load16_ethFrame hm, load16_tci]

/-- The header of fourteen bytes. -/
theorem length_header (hm : macs.length = 12) (p : UInt16) :
    (macs ++ bytes16 p).length = ethHdrLen := by
  rw [List.length_append, hm]
  rfl

theorem take_ethFrame (hm : macs.length = 12) :
    (ethFrame macs hProto rest).take ethHdrLen = macs ++ bytes16 hProto := by
  rw [ethFrame, ← List.append_assoc, ← length_header hm hProto, List.take_left]

theorem length_take_macs (hm : macs.length = 12) : (macs.take vlanHdrLen).length = vlanHdrLen := by
  rw [List.length_take, hm]
  rfl

theorem put_proto (hm : macs.length = 12) (p : UInt16) :
    put (ethFrame macs hProto rest) 12 (bytes16 p) = ethFrame macs p rest := by
  rw [← hm]
  exact put_append macs rest rfl

/-- The header is put back in front of the frame. -/
theorem put_header (hm : macs.length = 12) {old : List UInt8} (ho : old.length = ethHdrLen) :
    put (old ++ rest) 0 (macs ++ bytes16 hProto) = ethFrame macs hProto rest := by
  rw [ethFrame, ← List.append_assoc]
  exact put_append [] rest (ho.trans (length_header hm hProto).symm)

theorem put_tci (hm : macs.length = 12) (p tci' : UInt16) :
    put (ethFrame macs p (vlanTag tci hProto rest)) ethHdrLen (bytes16 tci') =
      ethFrame macs p (vlanTag tci' hProto rest) := by
  rw [ethFrame, ethFrame, ← List.append_assoc, ← List.append_assoc, ← length_header hm p]
  exact put_append (macs ++ bytes16 p) (bytes16 hProto ++ rest) rfl

theorem put_encapsulated (hm : macs.length = 12) (p hProto' : UInt16) :
    put (ethFrame macs p (vlanTag tci hProto rest)) (ethHdrLen + 2) (bytes16 hProto') =
      ethFrame macs p (vlanTag tci hProto' rest) := by
  have hlen : (macs ++ (bytes16 p ++ bytes16 tci)).length = ethHdrLen + 2 := by
    rw [List.length_append, hm]
    rfl
  have happ : ∀ l, ethFrame macs p (bytes16 tci ++ l) =
      macs ++ (bytes16 p ++ bytes16 tci) ++ l := by
    intro l
    simp only [ethFrame, List.append_assoc]
  rw [vlanTag, vlanTag, happ, happ, ← hlen]
  exact put_append _ rest rfl

end Frames

/-! ### What they do to a frame -/

section Rewrite

variable {permits : XdpMd → Int → Bool} {ctx ctx' : XdpMd} {delta : Int}
  {macs rest headroom a : List UInt8} {hProto tci : UInt16}

/-- The move is determined by where the head is afterwards. -/
theorem moveHead_eq (hmem : ctx.headroom ++ ctx.data = ctx'.headroom ++ ctx'.data)
    (hlen : (ctx'.headroom.length : Int) = ctx.headroom.length + delta) :
    ctx.moveHead delta = ctx' := by
  rw [XdpMd.moveHead, ← hlen, Int.toNat_natCast, hmem, List.take_left, List.drop_left]

theorem adjustHead_forth (hp : Roomy permits) (ha : a.length = vlanHdrLen)
    (hlen : ethHdrLen ≤ rest.length) :
    (XdpMd.mk headroom (a ++ rest)).adjustHead permits vlanHdrLen = some ⟨headroom ++ a, rest⟩ := by
  have hdata : (a ++ rest).length = vlanHdrLen + rest.length := by rw [List.length_append, ha]
  rw [XdpMd.adjustHead, if_pos ⟨by dsimp only; omega, by dsimp only; omega,
    hp _ _ (by dsimp only; omega)⟩]
  refine congrArg some (moveHead_eq (List.append_assoc _ _ _).symm ?_)
  dsimp only
  rw [List.length_append, ha, Int.natCast_add]

theorem adjustHead_back (hp : Roomy permits) (ha : a.length = vlanHdrLen)
    (hlen : ethHdrLen ≤ rest.length) :
    (XdpMd.mk (headroom ++ a) rest).adjustHead permits (0 - vlanHdrLen) =
      some ⟨headroom, a ++ rest⟩ := by
  have hhead : (headroom ++ a).length = headroom.length + vlanHdrLen := by
    rw [List.length_append, ha]
  rw [XdpMd.adjustHead, if_pos ⟨by dsimp only; omega, by dsimp only; omega,
    hp _ _ (by dsimp only; omega)⟩]
  refine congrArg some (moveHead_eq (List.append_assoc _ _ _) ?_)
  dsimp only
  omega

/-- Where the tag will be, once the head is four bytes further in front: the last four
bytes of the old header. -/
theorem exists_room (hProto : UInt16) (rest : List UInt8) (hm : macs.length = 12)
    (ha : a.length = vlanHdrLen) : ∃ old tci p, old.length = ethHdrLen ∧
      a ++ ethFrame macs hProto rest = old ++ vlanTag tci p rest := by
  have hlen : (a ++ (macs ++ bytes16 hProto)).length = ethHdrLen + vlanHdrLen := by
    rw [List.length_append, length_header hm, ha, Nat.add_comm]
  obtain ⟨old, c, ho, hold⟩ := exists_split (hlen ▸ Nat.le_add_right _ _ : ethHdrLen ≤ _)
  have hc : c.length = vlanHdrLen := by
    rw [hold, List.length_append, ho] at hlen
    exact Nat.add_left_cancel hlen
  obtain ⟨tci, p, l, rfl⟩ := exists_vlanTag hc.ge
  obtain rfl : l = [] := by
    rw [length_vlanTag] at hc
    exact List.length_eq_zero_iff.mp (Nat.add_left_cancel hc)
  refine ⟨old, tci, p, ho, ?_⟩
  calc a ++ ethFrame macs hProto rest
      = (a ++ (macs ++ bytes16 hProto)) ++ rest := by simp only [ethFrame, List.append_assoc]
    _ = old ++ vlanTag tci p rest := by
        rw [hold]
        simp only [vlanTag, List.append_assoc, List.nil_append]

/-- **A push** puts a tag of type 802.1Q behind the header. -/
theorem vlanTagPush_ethFrame (hp : Roomy permits) (hm : macs.length = 12)
    (ha : a.length = vlanHdrLen) (vlid : Int) :
    vlanTagPush permits ⟨headroom ++ a, ethFrame macs hProto rest⟩ 0 vlid =
      some (0, ⟨headroom,
        ethFrame macs (bswap16 ethP8021q) (vlanTag (bswap16 (.ofInt vlid)) hProto rest)⟩) := by
  have hlen : ethHdrLen ≤ (ethFrame macs hProto rest).length := by
    rw [length_ethFrame hm]
    exact Nat.le_add_right _ _
  obtain ⟨old, tci, p, ho, hold⟩ := exists_room hProto rest hm ha
  have hput : put (old ++ vlanTag tci p rest) 0 (macs ++ bytes16 hProto) =
      ethFrame macs hProto (vlanTag tci p rest) := put_header hm ho
  rw [vlanTagPush, if_neg (by dsimp only; omega)]
  dsimp only
  rw [adjustHead_back hp ha hlen, hold]
  dsimp only
  rw [if_neg (by rw [List.length_append, ho]; omega), List.drop_zero, take_ethFrame hm, hput,
    if_neg (by rw [length_ethFrame hm, length_vlanTag]; omega), put_tci hm, load16_proto hm,
    put_encapsulated hm, put_proto hm]

/-- **A pop** takes the outermost tag off and returns it. -/
theorem vlanTagPop_ethFrame (hp : Roomy permits) (hm : macs.length = 12) {p : UInt16}
    (hv : ProtoIsVlan p) :
    vlanTagPop permits ⟨headroom, ethFrame macs p (vlanTag tci hProto rest)⟩ 0 =
      some (((bswap16 tci).toNat : Int),
        ⟨headroom ++ macs.take vlanHdrLen, ethFrame macs hProto rest⟩) := by
  have hlen : (ethFrame macs p (vlanTag tci hProto rest)).length =
      ethHdrLen + (vlanHdrLen + rest.length) := by
    rw [length_ethFrame hm, length_vlanTag]
  -- the bytes over which the header is written again
  obtain ⟨old, ho, hold⟩ : ∃ old, old.length = ethHdrLen ∧
      ethFrame macs p (vlanTag tci hProto rest) = macs.take vlanHdrLen ++ (old ++ rest) := by
    refine ⟨macs.drop vlanHdrLen ++ (bytes16 p ++ (bytes16 tci ++ bytes16 hProto)), ?_, ?_⟩
    · rw [List.length_append, List.length_drop, hm]
      rfl
    · rw [← List.append_assoc, ← List.append_assoc, List.take_append_drop]
      simp only [ethFrame, vlanTag, List.append_assoc]
  have hadj : (XdpMd.mk headroom (ethFrame macs p (vlanTag tci hProto rest))).adjustHead permits
      vlanHdrLen = some ⟨headroom ++ macs.take vlanHdrLen, old ++ rest⟩ := by
    rw [hold]
    refine adjustHead_forth hp (length_take_macs hm) ?_
    rw [List.length_append, ho]
    exact Nat.le_add_right _ _
  rw [vlanTagPop, if_neg (by dsimp only; omega)]
  dsimp only
  rw [if_neg (by rw [Nat.zero_add, load16_proto hm]; exact not_not.mpr hv),
    if_neg (by omega), hadj]
  dsimp only
  rw [if_neg (by rw [List.length_append, ho]; omega), List.drop_zero, take_ethFrame hm,
    put_header hm ho, put_proto hm, Nat.zero_add, load16_ethFrame_tci hm, load16_ethFrame hm,
    load16_encapsulated]

/-! ### Failures -/

theorem length_of_adjustHead (h : ctx.adjustHead permits delta = some ctx') :
    (ctx'.data.length : Int) = ctx.data.length - delta := by
  rw [XdpMd.adjustHead] at h
  split at h
  · next hfit =>
    obtain rfl := Option.some.inj h
    rw [XdpMd.moveHead, List.length_drop, List.length_append]
    omega
  · cases h

/-- The test after the move cannot fail: the frame was long enough for the tag before. -/
theorem eq_of_vlanTagPop {eth : Nat} (h : vlanTagPop permits ctx eth = some (-1, ctx')) :
    ctx' = ctx := by
  rw [vlanTagPop] at h
  split at h
  · cases h
  split at h
  · exact (congrArg Prod.snd (Option.some.inj h)).symm
  dsimp only at h
  split at h
  · exact (congrArg Prod.snd (Option.some.inj h)).symm
  next hlen =>
  split at h
  · exact (congrArg Prod.snd (Option.some.inj h)).symm
  next ctx₁ hadj =>
  have hmoved := length_of_adjustHead hadj
  rw [if_neg (by omega)] at h
  have hret := congrArg Prod.fst (Option.some.inj h)
  dsimp only at hret
  omega

theorem eq_of_vlanTagPush {eth : Nat} {vlid : Int}
    (h : vlanTagPush permits ctx eth vlid = some (-1, ctx')) : ctx' = ctx := by
  rw [vlanTagPush] at h
  split at h
  · cases h
  next hlen =>
  dsimp only at h
  split at h
  · exact (congrArg Prod.snd (Option.some.inj h)).symm
  next ctx₁ hadj =>
  have hmoved := length_of_adjustHead hadj
  have hput : (put ctx₁.data 0 ((ctx.data.drop eth).take ethHdrLen)).length = ctx₁.data.length := by
    refine length_put ?_
    rw [List.length_take]
    omega
  rw [if_neg (by omega), if_neg (by omega)] at h
  cases congrArg Prod.fst (Option.some.inj h)

end Rewrite

/-! ### Inverses -/

section Inverse

variable {permits : XdpMd → Int → Bool} {ctx : XdpMd}

theorem pop_push (hp : Roomy permits) (hlen : ethHdrLen ≤ ctx.data.length)
    (hroom : vlanHdrLen ≤ ctx.headroom.length) (vlid : UInt16) :
    ∃ ctx₁ ctx₂, vlanTagPush permits ctx 0 vlid.toNat = some (0, ctx₁) ∧
      vlanTagPop permits ctx₁ 0 = some ((vlid.toNat : Int), ctx₂) ∧
      ctx₂.data = ctx.data ∧ ctx₂.headroom.length = ctx.headroom.length := by
  obtain ⟨headroom, data⟩ := ctx
  obtain ⟨macs, hProto, rest, hm, rfl⟩ := exists_ethFrame hlen
  -- the last four bytes of the headroom
  obtain ⟨h, a, hh, rfl⟩ := exists_split (Nat.sub_le headroom.length vlanHdrLen)
  have ha : a.length = vlanHdrLen := by
    dsimp only at hroom
    rw [List.length_append] at hh hroom
    omega
  refine ⟨_, ⟨h ++ macs.take vlanHdrLen, ethFrame macs hProto rest⟩,
    vlanTagPush_ethFrame hp hm ha vlid.toNat, ?_, rfl, ?_⟩
  · rw [vlanTagPop_ethFrame hp hm (.inl rfl), ofInt_toNat, bswap16_bswap16]
  · dsimp only
    rw [List.length_append, List.length_append, length_take_macs hm, ha]

theorem push_pop (hp : Roomy permits) (hlen : ethHdrLen + vlanHdrLen ≤ ctx.data.length)
    (hproto : load16 ctx.data 12 = bswap16 ethP8021q) :
    ∃ (vlid : UInt16) (ctx₁ ctx₂ : XdpMd),
      vlanTagPop permits ctx 0 = some ((vlid.toNat : Int), ctx₁) ∧
      vlanTagPush permits ctx₁ 0 vlid.toNat = some (0, ctx₂) ∧
      ctx₂.data = ctx.data ∧ ctx₂.headroom.length = ctx.headroom.length := by
  obtain ⟨headroom, data⟩ := ctx
  obtain ⟨macs, p, l, hm, rfl⟩ := exists_ethFrame (Nat.le_of_add_right_le hlen)
  obtain ⟨tci, hProto, rest, rfl⟩ := exists_vlanTag (l := l) (by
    dsimp only at hlen
    rw [length_ethFrame hm] at hlen
    exact Nat.le_of_add_le_add_left hlen)
  obtain rfl : p = bswap16 ethP8021q := (load16_proto hm).symm.trans hproto
  refine ⟨bswap16 tci, _, _, vlanTagPop_ethFrame hp hm (.inl rfl),
    vlanTagPush_ethFrame hp hm (length_take_macs hm) _, ?_, rfl⟩
  rw [ofInt_toNat, bswap16_bswap16]

end Inverse

/-- **Push and pop undo each other**, and a failure of either changes nothing.  For the
first part the head may be moved as long as an Ethernet header is left. -/
theorem vlanTag_inverse (permits : XdpMd → Int → Bool) :
    (Roomy permits → ∀ ctx : XdpMd,
      (ethHdrLen ≤ ctx.data.length → vlanHdrLen ≤ ctx.headroom.length → ∀ vlid : UInt16,
        ∃ ctx₁ ctx₂, vlanTagPush permits ctx 0 vlid.toNat = some (0, ctx₁) ∧
          vlanTagPop permits ctx₁ 0 = some ((vlid.toNat : Int), ctx₂) ∧
          ctx₂.data = ctx.data ∧ ctx₂.headroom.length = ctx.headroom.length) ∧
      (ethHdrLen + vlanHdrLen ≤ ctx.data.length → load16 ctx.data 12 = bswap16 ethP8021q →
        ∃ (vlid : UInt16) (ctx₁ ctx₂ : XdpMd),
          vlanTagPop permits ctx 0 = some ((vlid.toNat : Int), ctx₁) ∧
          vlanTagPush permits ctx₁ 0 vlid.toNat = some (0, ctx₂) ∧
          ctx₂.data = ctx.data ∧ ctx₂.headroom.length = ctx.headroom.length)) ∧
    (∀ ctx eth ctx', vlanTagPop permits ctx eth = some (-1, ctx') → ctx' = ctx) ∧
    ∀ ctx eth vlid ctx', vlanTagPush permits ctx eth vlid = some (-1, ctx') → ctx' = ctx :=
  ⟨fun hp _ => ⟨pop_push hp, push_pop hp⟩, fun _ _ _ => eq_of_vlanTagPop,
    fun _ _ _ _ => eq_of_vlanTagPush⟩

theorem roomy_linuxPermits : Roomy linuxPermits := fun _ _ h => decide_eq_true h

/-- A frame of type IPv4 with three bytes behind its header, and four bytes before it. -/
def exampleCtx : XdpMd :=
  ⟨[0, 0, 0, 0], ethFrame [1, 2, 3, 4, 5, 6, 7, 8, 9, 10, 11, 12] 8 [69, 70, 71]⟩

/-- The same frame with a tag, and no room before it. -/
def exampleTagged : XdpMd :=
  ⟨[], ethFrame [1, 2, 3, 4, 5, 6, 7, 8, 9, 10, 11, 12] (bswap16 ethP8021q)
    (vlanTag (bswap16 100) 8 [69, 70, 71])⟩

theorem vlanTag_inverse_exampleCtx :
    (∃ ctx₁ ctx₂, vlanTagPush linuxPermits exampleCtx 0 100 = some (0, ctx₁) ∧
      vlanTagPop linuxPermits ctx₁ 0 = some (100, ctx₂) ∧ ctx₂.data = exampleCtx.data ∧
      ctx₂.headroom.length = 4) ∧
    ∃ (vlid : UInt16) (ctx₁ ctx₂ : XdpMd),
      vlanTagPop linuxPermits exampleTagged 0 = some ((vlid.toNat : Int), ctx₁) ∧
      vlanTagPush linuxPermits ctx₁ 0 vlid.toNat = some (0, ctx₂) ∧
      ctx₂.data = exampleTagged.data ∧ ctx₂.headroom.length = 0 :=
  ⟨((vlanTag_inverse linuxPermits).1 roomy_linuxPermits exampleCtx).1 (by decide) (by decide) 100,
    ((vlanTag_inverse linuxPermits).1 roomy_linuxPermits exampleTagged).2 (by decide) (by decide)⟩

end NetworkAnalyse.Xdp
