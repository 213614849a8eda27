import NetworkAnalyse.Xdp.Parsing

/-!
# The header cursor

The nine helpers of `common/parsing_helpers.h`, called in any order on one
`hdr_cursor`.  Eight of them check first and then move the cursor.  `parse_udphdr`
moves the cursor, stores the header and then looks at the length field: it may fail
after the move.

* `parse_cases`: what a call can do, for all helpers at once.
* `pos_calls_le`: the cursor never leaves the frame.
* `disciplined_iff`: for which sequences of calls every failure leaves the cursor and
  the caller's pointer as they were.
-/

namespace NetworkAnalyse.Xdp

open Lib Lib.Bytes

/-! ### The other helpers -/

def ip6HdrLen : Nat := 40
def icmpHdrLen : Nat := 8
def icmp6HdrLen : Nat := 8
def icmpHdrCommonLen : Nat := 4
def udpHdrLen : Nat := 8

/-- A helper for a header of `size` bytes, which returns its byte `type`. -/
def parseFixed (size type : Nat) (data : Frame) (nh : Nat) : Parsed :=
  if data.length < nh + size then ⟨-1, nh, none⟩
  else ⟨(load8 data (nh + type)).toNat, nh + size, some nh⟩

/-- It returns `nexthdr`. -/
def parseIp6hdr : Frame → Nat → Parsed := parseFixed ip6HdrLen 6

def parseIcmp6hdr : Frame → Nat → Parsed := parseFixed icmp6HdrLen 0

def parseIcmphdr : Frame → Nat → Parsed := parseFixed icmpHdrLen 0

def parseIcmphdrCommon : Frame → Nat → Parsed := parseFixed icmpHdrCommonLen 0

/-- `bpf_ntohs(h->len)`. -/
def udpLen (data : Frame) (h : Nat) : Nat := (bswap16 (load16 data (h + 4))).toNat

def parseUdphdr (data : Frame) (nh : Nat) : Parsed :=
  if data.length < nh + udpHdrLen then ⟨-1, nh, none⟩
  else
    let len : Int := udpLen data nh - udpHdrLen
    -- the cursor has moved and the header is stored
    if len < 0 then ⟨-1, nh + udpHdrLen, some nh⟩
    else ⟨len, nh + udpHdrLen, some nh⟩

inductive Helper
  | ethhdrVlan
  | ethhdr
  | iphdr
  | ip6hdr
  | icmphdr
  | icmp6hdr
  | icmphdrCommon
  | udphdr
  | tcphdr
  deriving DecidableEq, Repr

namespace Helper

def parse : Helper → Frame → Nat → Parsed
  | ethhdrVlan, data, nh => (parseEthhdrVlan data nh).1
  | ethhdr, data, nh => parseEthhdr data nh
  | iphdr, data, nh => parseIphdr data nh
  | ip6hdr, data, nh => parseIp6hdr data nh
  | icmphdr, data, nh => parseIcmphdr data nh
  | icmp6hdr, data, nh => parseIcmp6hdr data nh
  | icmphdrCommon, data, nh => parseIcmphdrCommon data nh
  | udphdr, data, nh => parseUdphdr data nh
  | tcphdr, data, nh => parseTcphdr data nh

/-- The fixed size of the header. -/
def size : Helper → Nat
  | ethhdrVlan => ethHdrLen
  | ethhdr => ethHdrLen
  | iphdr => ipHdrLen
  | ip6hdr => ip6HdrLen
  | icmphdr => icmpHdrLen
  | icmp6hdr => icmp6HdrLen
  | icmphdrCommon => icmpHdrCommonLen
  | udphdr => udpHdrLen
  | tcphdr => tcpHdrLen

end Helper

/-! ### What a helper does -/

/-- There is a UDP header at `nh`, and its length field is less than its own size. -/
def ShortUdp (data : Frame) (nh : Nat) : Prop :=
  nh + udpHdrLen ≤ data.length ∧ udpLen data nh < udpHdrLen

instance (data : Frame) (nh : Nat) : Decidable (ShortUdp data nh) :=
  inferInstanceAs (Decidable (_ ∧ _))

/-- The helper hands out the header of `size` bytes at `nh`, which lies in the frame, and
moves the cursor over it. -/
structure Handed (size : Nat) (data : Frame) (nh : Nat) (p : Parsed) : Prop where
  hdr : p.hdr = some nh
  size : nh + size ≤ p.pos
  inside : p.pos ≤ data.length

/-- The helper fails and does nothing, or it hands out the header and does not fail. -/
def Clean (size : Nat) (data : Frame) (nh : Nat) (p : Parsed) : Prop :=
  p = ⟨-1, nh, none⟩ ∨ Handed size data nh p ∧ p.ret ≠ -1

section Parse

variable {data : Frame} {nh : Nat}

/-- The loop over the tags, by induction on the depth that is left. -/
theorem skipVlans_pos (n : Nat) (hProto : UInt16) (vlh : Nat) (ids : List UInt16)
    (h : vlh ≤ data.length) :
    vlh ≤ (skipVlans data n hProto vlh ids).2.1 ∧
      (skipVlans data n hProto vlh ids).2.1 ≤ data.length := by
  induction n generalizing hProto vlh ids with
  | zero => exact ⟨Nat.le_refl _, h⟩
  | succ n ih =>
    rw [skipVlans]
    split
    · exact ⟨Nat.le_refl _, h⟩
    split
    · exact ⟨Nat.le_refl _, h⟩
    · have hlen : vlh + vlanHdrLen ≤ data.length := by omega
      obtain ⟨hle, hend⟩ := ih (load16 data (vlh + 2)) (vlh + vlanHdrLen)
        (ids ++ [bswap16 (load16 data vlh) &&& vlanVidMask]) hlen
      exact ⟨Nat.le_trans (Nat.le_add_right _ _) hle, hend⟩

theorem clean_parseEthhdr (data : Frame) (nh : Nat) :
    Clean ethHdrLen data nh (parseEthhdr data nh) := by
  by_cases hlen : data.length < nh + ethHdrLen
  · exact .inl (by rw [parseEthhdr, parseEthhdrVlan, if_pos hlen])
  · refine .inr ?_
    rw [parseEthhdr, parseEthhdrVlan, if_neg hlen]
    obtain ⟨hle, hend⟩ := skipVlans_pos vlanMaxDepth (load16 data (nh + 12)) (nh + ethHdrLen) []
      (Nat.le_of_not_lt hlen)
    exact ⟨⟨rfl, hle, hend⟩, by simp⟩

theorem clean_parseFixed (size type : Nat) (data : Frame) (nh : Nat) :
    Clean size data nh (parseFixed size type data nh) := by
  rw [parseFixed]
  split
  · exact .inl rfl
  · next h => exact .inr ⟨⟨rfl, Nat.le_refl _, Nat.le_of_not_lt h⟩, by simp⟩

/-- A header that tells its own length `n`, as those of IPv4 and TCP do. -/
theorem clean_sized (size n : Nat) {ret : Int} (hret : ret ≠ -1) (data : Frame) (nh : Nat) :
    Clean size data nh
      (if size ≤ n ∧ nh + n ≤ data.length then ⟨ret, nh + n, some nh⟩ else ⟨-1, nh, none⟩) := by
  split
  · next h => exact .inr ⟨⟨rfl, Nat.add_le_add_left h.1 nh, h.2⟩, hret⟩
  · exact .inl rfl

theorem clean_parseIphdr (data : Frame) (nh : Nat) :
    Clean ipHdrLen data nh (parseIphdr data nh) := by
  rw [parseIphdr_eq]
  exact clean_sized _ _ (by simp) data nh

theorem clean_parseTcphdr (data : Frame) (nh : Nat) :
    Clean tcpHdrLen data nh (parseTcphdr data nh) := by
  rw [parseTcphdr_eq]
  exact clean_sized _ _ (by omega) data nh

theorem clean_parse {h : Helper} (hne : h ≠ .udphdr) (data : Frame) (nh : Nat) :
    Clean h.size data nh (h.parse data nh) := by
  cases h with
  | ethhdrVlan => exact clean_parseEthhdr data nh
  | ethhdr => exact clean_parseEthhdr data nh
  | iphdr => exact clean_parseIphdr data nh
  | ip6hdr => exact clean_parseFixed _ _ data nh
  | icmphdr => exact clean_parseFixed _ _ data nh
  | icmp6hdr => exact clean_parseFixed _ _ data nh
  | icmphdrCommon => exact clean_parseFixed _ _ data nh
  | udphdr => exact absurd rfl hne
  | tcphdr => exact clean_parseTcphdr data nh

theorem parseUdphdr_of_short (h : ShortUdp data nh) :
    parseUdphdr data nh = ⟨-1, nh + udpHdrLen, some nh⟩ := by
  obtain ⟨hlen, hudp⟩ := h
  rw [parseUdphdr, if_neg (by omega)]
  exact if_pos (by omega)

theorem clean_parseUdphdr (h : ¬ ShortUdp data nh) :
    Clean udpHdrLen data nh (parseUdphdr data nh) := by
  by_cases hlen : data.length < nh + udpHdrLen
  · exact .inl (by rw [parseUdphdr, if_pos hlen])
  · have hudp : udpHdrLen ≤ udpLen data nh := by
      by_contra hlt
      exact h ⟨Nat.le_of_not_lt hlen, Nat.lt_of_not_le hlt⟩
    rw [parseUdphdr, if_neg hlen]
    dsimp only
    rw [if_neg (by omega)]
    refine .inr ⟨⟨rfl, Nat.le_refl _, Nat.le_of_not_lt hlen⟩, ?_⟩
    show (udpLen data nh - udpHdrLen : Int) ≠ -1
    omega

/-- **What a call can do.**  It is clean, or it is a `parse_udphdr` that fails after it
has moved the cursor. -/
theorem parse_cases (h : Helper) (data : Frame) (nh : Nat) :
    Clean h.size data nh (h.parse data nh) ∧ ¬ (h = .udphdr ∧ ShortUdp data nh) ∨
      h = .udphdr ∧ ShortUdp data nh ∧ h.parse data nh = ⟨-1, nh + udpHdrLen, some nh⟩ := by
  by_cases hu : h = .udphdr
  · subst hu
    by_cases hs : ShortUdp data nh
    · exact .inr ⟨rfl, hs, parseUdphdr_of_short hs⟩
    · exact .inl ⟨clean_parseUdphdr hs, fun hboth => hs hboth.2⟩
  · exact .inl ⟨clean_parse hu data nh, fun hboth => hu hboth.1⟩

theorem pos_sized {P : Prop} [Decidable P] {p : Parsed} {h : Nat}
    (hh : (if P then p else ⟨-1, nh, none⟩ : Parsed).hdr = some h) :
    (if P then p else ⟨-1, nh, none⟩ : Parsed).pos = p.pos := by
  by_cases hfit : P
  · rw [if_pos hfit]
  · rw [if_neg hfit] at hh
    cases hh

theorem pos_parseIphdr {iph : Nat} (h : (parseIphdr data nh).hdr = some iph) :
    (parseIphdr data nh).pos = nh + ihl data nh * 4 := by
  rw [parseIphdr_eq] at h ⊢
  exact pos_sized h

theorem pos_parseTcphdr {tcph : Nat} (h : (parseTcphdr data nh).hdr = some tcph) :
    (parseTcphdr data nh).pos = nh + doff data nh * 4 := by
  rw [parseTcphdr_eq] at h ⊢
  exact pos_sized h

end Parse

/-! ### Sequences of calls -/

/-- The cursor, as an offset into the frame, and the caller's header pointers. -/
structure Cursor where
  pos : Nat
  ptrs : Nat → Option Nat

/-- A call: the helper, and which of the caller's pointers it is given. -/
structure ParseCall where
  helper : Helper
  ptr : Nat
  deriving DecidableEq, Repr

namespace Cursor

/-- The cursor at the frame's first byte. -/
def start (ptrs : Nat → Option Nat) : Cursor := ⟨0, ptrs⟩

def ret (data : Frame) (c : Cursor) (k : ParseCall) : Int := (k.helper.parse data c.pos).ret

/-- The header that the call hands out. -/
def hdr (data : Frame) (c : Cursor) (k : ParseCall) : Option Nat := (k.helper.parse data c.pos).hdr

def call (data : Frame) (c : Cursor) (k : ParseCall) : Cursor where
  pos := (k.helper.parse data c.pos).pos
  ptrs := match c.hdr data k with
    | none => c.ptrs
    | some h => Function.update c.ptrs k.ptr (some h)

def calls (data : Frame) (c : Cursor) (ks : List ParseCall) : Cursor := ks.foldl (call data) c

/-- What a call should do. -/
structure CallOk (data : Frame) (c : Cursor) (k : ParseCall) : Prop where
  inside : (c.call data k).pos ≤ data.length
  forward : c.pos ≤ (c.call data k).pos
  handed : ∀ h, c.hdr data k = some h → (c.call data k).ptrs k.ptr = some h ∧
    h + k.helper.size ≤ data.length ∧ c.pos + k.helper.size ≤ (c.call data k).pos
  ihl : k.helper = .iphdr → ∀ h, c.hdr data k = some h →
    (c.call data k).pos = c.pos + ihl data h * 4
  doff : k.helper = .tcphdr → ∀ h, c.hdr data k = some h →
    (c.call data k).pos = c.pos + doff data h * 4
  succeeded : c.ret data k ≠ -1 → c.hdr data k = some c.pos
  failed : c.ret data k = -1 → c.call data k = c

end Cursor

section Calls

open Cursor

variable {data : Frame} {c : Cursor} {k : ParseCall}

/-- A call that hands out no header does nothing. -/
theorem call_of_fail (h : k.helper.parse data c.pos = ⟨-1, c.pos, none⟩) : c.call data k = c := by
  rw [Cursor.call, hdr, h]

theorem ptrs_call {h : Nat} (hh : c.hdr data k = some h) :
    (c.call data k).ptrs k.ptr = some h := by
  rw [Cursor.call, hh]
  exact Function.update_self _ _ _

theorem callOk_of_clean (hpos : c.pos ≤ data.length)
    (h : Clean k.helper.size data c.pos (k.helper.parse data c.pos)) : CallOk data c k := by
  rcases h with hfail | ⟨hh, hret⟩
  · have hc : c.call data k = c := call_of_fail hfail
    have hnone : ∀ h, c.hdr data k ≠ some h := by
      intro h
      rw [hdr, hfail]
      exact (Option.some_ne_none h).symm
    refine ⟨?_, ?_, fun h hsome => absurd hsome (hnone h), fun _ h hsome => absurd hsome (hnone h),
      fun _ h hsome => absurd hsome (hnone h), ?_, fun _ => hc⟩
    · rw [hc]
      exact hpos
    · rw [hc]
    · intro hne
      rw [ret, hfail] at hne
      exact absurd rfl hne
  · have hhdr : c.hdr data k = some c.pos := hh.hdr
    refine ⟨hh.inside, Nat.le_trans (Nat.le_add_right _ _) hh.size, ?_, ?_, ?_, fun _ => hhdr,
      fun hfail => absurd hfail hret⟩
    · intro h hsome
      obtain rfl : c.pos = h := Option.some.inj (hhdr.symm.trans hsome)
      exact ⟨ptrs_call hhdr, Nat.le_trans hh.size hh.inside, hh.size⟩
    · intro hip h hsome
      obtain rfl : c.pos = h := Option.some.inj (hhdr.symm.trans hsome)
      rw [hdr, hip] at hhdr
      rw [Cursor.call, hip]
      exact pos_parseIphdr hhdr
    · intro htcp h hsome
      obtain rfl : c.pos = h := Option.some.inj (hhdr.symm.trans hsome)
      rw [hdr, htcp] at hhdr
      rw [Cursor.call, htcp]
      exact pos_parseTcphdr hhdr

/-- One call, from a cursor in the frame. -/
theorem callOk_iff (hpos : c.pos ≤ data.length) :
    CallOk data c k ↔ ¬ (k.helper = .udphdr ∧ ShortUdp data c.pos) := by
  rcases parse_cases k.helper data c.pos with ⟨hclean, hno⟩ | ⟨hudp, hshort, hparse⟩
  · exact iff_of_true (callOk_of_clean hpos hclean) hno
  · refine iff_of_false (fun hok => ?_) (fun hno => hno ⟨hudp, hshort⟩)
    -- the cursor is behind the header
    have hmoved : (c.call data k).pos = c.pos + udpHdrLen := by rw [Cursor.call, hparse]
    have hsame : c.call data k = c := hok.failed (by rw [ret, hparse])
    rw [hsame, udpHdrLen] at hmoved
    omega

theorem pos_call_le (hpos : c.pos ≤ data.length) : (c.call data k).pos ≤ data.length := by
  rcases parse_cases k.helper data c.pos with ⟨hclean, -⟩ | ⟨-, hshort, hparse⟩
  · exact (callOk_of_clean hpos hclean).inside
  · rw [Cursor.call, hparse]
    exact hshort.1

/-- The cursor stays in the frame, whatever is called. -/
theorem pos_calls_le (ks : List ParseCall) (hpos : c.pos ≤ data.length) :
    (c.calls data ks).pos ≤ data.length := by
  induction ks generalizing c with
  | nil => exact hpos
  | cons k ks ih => exact ih (pos_call_le hpos)

/-- Every call of the sequence does what it should. -/
def Disciplined (data : Frame) (ptrs : Nat → Option Nat) (ks : List ParseCall) : Prop :=
  ∀ pre k post, ks = pre ++ k :: post → CallOk data ((start ptrs).calls data pre) k

/-- No `parse_udphdr` of the sequence meets a length field that is too small. -/
def NoShortUdp (data : Frame) (ptrs : Nat → Option Nat) (ks : List ParseCall) : Prop :=
  ∀ pre k post, ks = pre ++ k :: post →
    ¬ (k.helper = .udphdr ∧ ShortUdp data ((start ptrs).calls data pre).pos)

/-- **Cursor discipline**, for every frame and every sequence of calls: the cursor stays
in the frame, and every call does what it should if and only if no `parse_udphdr` is
called where the length field is less than the size of the UDP header. -/
theorem disciplined_iff (data : Frame) (ptrs : Nat → Option Nat) (ks : List ParseCall) :
    ((start ptrs).calls data ks).pos ≤ data.length ∧
      (Disciplined data ptrs ks ↔ NoShortUdp data ptrs ks) := by
  have hpos : ∀ pre, ((start ptrs).calls data pre).pos ≤ data.length := fun pre =>
    pos_calls_le pre (Nat.zero_le _)
  refine ⟨hpos ks, ?_⟩
  constructor
  · intro h pre k post hks
    exact (callOk_iff (hpos pre)).mp (h pre k post hks)
  · intro h pre k post hks
    exact (callOk_iff (hpos pre)).mpr (h pre k post hks)

end Calls

/-- A UDP datagram over IPv4 with a zero in its length field. -/
def shortDatagram : Frame :=
  [0, 0, 0, 0, 0, 0, 0, 0, 0, 0, 0, 0, 8, 0,
    69, 0, 0, 28, 0, 0, 0, 0, 64, 17, 0, 0, 127, 0, 0, 1, 127, 0, 0, 1,
    39, 15, 48, 57, 0, 0, 0, 0]

/-- **A failure that moves the cursor.**  `parse_udphdr` returns -1 and leaves the cursor
behind the header, and the caller's pointer on it. -/
theorem parseUdphdr_moves_and_fails :
    let c := (Cursor.start fun _ => none).calls shortDatagram [⟨.ethhdr, 0⟩, ⟨.iphdr, 1⟩]
    c.pos = 34 ∧ c.ptrs 2 = none ∧ c.ret shortDatagram ⟨.udphdr, 2⟩ = -1 ∧
      (c.call shortDatagram ⟨.udphdr, 2⟩).pos = 42 ∧
      (c.call shortDatagram ⟨.udphdr, 2⟩).ptrs 2 = some 34 ∧
      ¬ Disciplined shortDatagram (fun _ => none) [⟨.ethhdr, 0⟩, ⟨.iphdr, 1⟩, ⟨.udphdr, 2⟩] := by
  refine ⟨by decide, by decide, by decide, by decide, by decide, ?_⟩
  intro h
  have hok := h [⟨.ethhdr, 0⟩, ⟨.iphdr, 1⟩] ⟨.udphdr, 2⟩ [] rfl
  exact (callOk_iff (by decide)).mp hok ⟨rfl, by decide⟩

end NetworkAnalyse.Xdp
