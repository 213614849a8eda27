import NetworkAnalyse.Ebpf.ConnectTime

/-!
# The threshold `targ_min_us`

A handler of the client that runs before `targ_min_us` returns early: it emits
nothing, but it does not touch the `connect` map and the string constants
either.  This file compares the run of a list of firings under a threshold `m`
with the run of the same firings under none.

* `tick_eq`: one firing that is not dropped, for all hooks at once.
* `Rel`: how the two states are related after the same firings.
* `minUs_selects`: when the threshold only selects events.
-/

namespace NetworkAnalyse.Ebpf.Client

open Lib

/-- A hook that fires, and the clock reading of its handler. -/
structure Tick where
  hook : Hook
  call : Call
  t : UInt64

def tick (P : Image) (s : Kern ClientEvent) (i : Tick) : Option (Kern ClientEvent) :=
  invoke P i.t i.hook i.call s

/-- Firings one after the other.  There is no run if a clock reading is before
the one before it. -/
def ticks (P : Image) (s : Kern ClientEvent) (l : List Tick) : Option (Kern ClientEvent) :=
  l.foldlM (tick P) s

namespace Tick

variable (i : Tick)

def lap : Lap SockPtr UInt64 := i.hook.lap i.call i.t

def SynSent : Prop := i.hook = .tcpRcvStateProcess ∧ i.call.sock.skcState = tcpSynSent

instance : Decidable i.SynSent := inferInstanceAs (Decidable (_ ∧ _))

/-- The `connect` map has room for the note, if the handler writes one. -/
def HasRoom (s : Kern ClientEvent) : Prop :=
  i.hook = .tcpV4Connect → (s.connect.update i.call.sk (connectNote i.call i.t)).isSome = true

instance (s : Kern ClientEvent) : Decidable (i.HasRoom s) := inferInstanceAs (Decidable (_ → _))

/-- The string constants after the handler. -/
def constants (lit : String → Nat) (d : DataSection) : DataSection :=
  match i.hook with
  | .tcpRcvStateProcess => describe lit i.call d
  | _ => d

/-- The note of socket `k` after the handler, if there is room. -/
def note (k : SockPtr) (e : Option Piddata) : Option Piddata :=
  match i.lap with
  | .start j t => if j = k then some (connectNote i.call t) else e
  | .stop j => if j = k then none else e
  | .idle => e

/-- The connect time that the handler reports when the note of its socket is `e`. -/
def time (e : Option Piddata) : UInt64 := if i.SynSent then connectTime i.t e else 0

def event (lit : String → Nat) (d : DataSection) (dt : UInt64) : PerfBuf × ClientEvent :=
  match i.hook with
  | .tcpSendmsg => (.tcpSendmsgEvents, sendmsgEvent lit i.call i.t d)
  | .tcpV4Connect => (.events, connectEvent lit i.call i.t d)
  | .tcpRcvStateProcess => (.events, rcvEvent lit i.call i.t d dt)

end Tick

/-- The map has room for every note of the run. -/
def Roomy (P : Image) (s : Kern ClientEvent) : List Tick → Prop
  | [] => True
  | i :: l => i.HasRoom s ∧ ∀ s', tick P s i = some s' → Roomy P s' l

instance decidableRoomy (P : Image) : ∀ (l : List Tick) (s : Kern ClientEvent),
    Decidable (Roomy P s l)
  | [], _ => isTrue trivial
  | i :: l, s =>
    have : Decidable (∀ s', tick P s i = some s' → Roomy P s' l) :=
      match h : tick P s i with
      | none => isTrue fun s' h' => by cases h'
      | some s₁ =>
        have := decidableRoomy P l s₁
        decidable_of_iff (Roomy P s₁ l) ⟨fun hr s' h' => Option.some.inj h' ▸ hr,
          fun hr => hr s₁ rfl⟩
    inferInstanceAs (Decidable (_ ∧ _))

/-! ### One firing -/

section Tick

variable {P : Image} {s s' : Kern ClientEvent} {i : Tick}

theorem deltaUs_event (lit : String → Nat) (d : DataSection) (dt : UInt64) :
    (i.event lit d dt).2.deltaUs = i.t / 1000 := by
  unfold Tick.event
  split <;> exact deltaUs_fill _ _ _

theorem clock_le_of_tick (h : tick P s i = some s') : s.clock ≤ i.t := clock_le_of_invoke h

theorem tick_of_drops (ht : s.clock ≤ i.t) (hd : P.drops i.t) :
    tick P s i = some { s with clock := i.t } := invoke_of_drops i.hook ht hd

/-- **A firing that is not dropped**, whatever the hook. -/
theorem tick_eq (ht : s.clock ≤ i.t) (hd : ¬ P.drops i.t) :
    ∃ m, tick P s i = some {
        clock := i.t
        rodata := i.constants P.lit s.rodata
        connect := m
        out := s.out ++ [i.event P.lit (i.constants P.lit s.rodata)
          (i.time (s.connect.lookup i.call.sk))] } ∧
      (i.HasRoom s → ∀ k, m.lookup k = i.note k (s.connect.lookup k)) := by
  obtain ⟨h, c, t⟩ := i
  cases h with
  | tcpSendmsg => exact ⟨s.connect, invoke_sendmsg ht hd, fun _ _ => rfl⟩
  | tcpV4Connect =>
    refine ⟨_, invoke_connect ht hd, fun hroom k => ?_⟩
    show _ = if c.sk = k then _ else _
    by_cases hk : c.sk = k
    · subst hk
      rw [BoundedMap.lookup_getD_update_self, if_pos (hroom rfl), if_pos rfl]
    · rw [BoundedMap.lookup_getD_update_of_ne _ _ (Ne.symm hk), if_neg hk]
  | tcpRcvStateProcess =>
    by_cases hs : c.sock.skcState = tcpSynSent
    · refine ⟨s.connect.delete c.sk, ?_, fun _ k => ?_⟩
      · rw [Tick.time, if_pos ⟨rfl, hs⟩]
        exact invoke_rcv_of_synSent ht hd hs
      · rw [Tick.note, Tick.lap, Hook.lap, if_pos hs]
        show _ = if c.sk = k then _ else _
        by_cases hk : c.sk = k
        · subst hk
          rw [BoundedMap.lookup_delete_self, if_pos rfl]
        · rw [BoundedMap.lookup_delete_of_ne _ (Ne.symm hk), if_neg hk]
    · refine ⟨s.connect, ?_, fun _ k => ?_⟩
      · rw [Tick.time, if_neg (fun h => hs h.2)]
        exact invoke_rcv_of_ne ht hd hs
      · rw [Tick.note, Tick.lap, Hook.lap, if_neg hs]

end Tick

/-! ### Notes and stopwatches -/

theorem drops_iff {lit : String → Nat} {m t : UInt64} :
    (⟨lit, m⟩ : Image).drops t ↔ t / 1000 < m := by
  constructor
  · intro h
    exact h.2
  · intro h
    refine ⟨?_, h⟩
    rintro rfl
    exact absurd h (UInt64.not_lt.mpr (UInt64.zero_le))

section Note

variable {i : Tick} {m : UInt64}

theorem lap_cases (i : Tick) :
    i.lap = .start i.call.sk i.t ∨ i.lap = .stop i.call.sk ∨ i.lap = .idle := by
  obtain ⟨h, c, t⟩ := i
  cases h with
  | tcpV4Connect => exact Or.inl rfl
  | tcpSendmsg => exact Or.inr (Or.inr rfl)
  | tcpRcvStateProcess =>
    by_cases hs : c.sock.skcState = tcpSynSent
    · exact Or.inr (Or.inl (if_pos hs))
    · exact Or.inr (Or.inr (if_neg hs))

theorem t_of_lap {k : SockPtr} {t : UInt64} (h : i.lap = .start k t) : i.t = t := by
  rcases lap_cases i with hl | hl | hl
  · rw [hl] at h
    cases h
    rfl
  · rw [hl] at h
    cases h
  · rw [hl] at h
    cases h

theorem note_of_ne {k : SockPtr} (hk : i.call.sk ≠ k) (e : Option Piddata) : i.note k e = e := by
  rcases lap_cases i with h | h | h <;> simp [Tick.note, h, hk]

theorem next_of_ne {k : SockPtr} (hk : i.call.sk ≠ k) (p : Option UInt64) :
    i.lap.next k p = p := by
  rcases lap_cases i with h | h | h <;> simp [Lap.next, h, hk]

/-- The notes go along with the stopwatches. -/
theorem ts_note {k : SockPtr} {e : Option Piddata} {p : Option UInt64}
    (h : e.map (·.ts) = p.map (· / 1000)) :
    (i.note k e).map (·.ts) = (i.lap.next k p).map (· / 1000) := by
  by_cases hk : i.call.sk = k
  · rcases lap_cases i with hl | hl | hl
    · simp [Tick.note, Lap.next, hl, hk, connectNote]
    · simp [Tick.note, Lap.next, hl, hk]
    · simpa [Tick.note, Lap.next, hl] using h
  · rw [note_of_ne hk, next_of_ne hk, h]

/-- A firing at or above the threshold writes a note that is. -/
theorem filter_note_of_le (ht : m ≤ i.t / 1000) (k : SockPtr) (e : Option Piddata) :
    (i.note k e).filter (m ≤ ·.ts) = i.note k (e.filter (m ≤ ·.ts)) := by
  by_cases hk : i.call.sk = k
  · rcases lap_cases i with hl | hl | hl
    · simp [Tick.note, hl, hk, connectNote, ht]
    · simp [Tick.note, hl, hk]
    · simp [Tick.note, hl]
  · rw [note_of_ne hk, note_of_ne hk]

/-- A firing below the threshold only changes notes that are below it too. -/
theorem filter_note_of_lt (ht : i.t / 1000 < m) {k : SockPtr} {e : Option Piddata}
    (he : ∀ pd, e = some pd → pd.ts ≤ i.t / 1000) :
    (i.note k e).filter (m ≤ ·.ts) = e.filter (m ≤ ·.ts) := by
  have hnone : e.filter (m ≤ ·.ts) = none := by
    rw [Option.filter_eq_none_iff]
    intro pd hpd hm
    have hle : m ≤ pd.ts := of_decide_eq_true hm
    exact absurd (UInt64.le_trans hle (he pd hpd)) (UInt64.not_le.mpr ht)
  by_cases hk : i.call.sk = k
  · rcases lap_cases i with hl | hl | hl
    · simp [Tick.note, hl, hk, connectNote, hnone, ht]
    · simp [Tick.note, hl, hk, hnone]
    · simp [Tick.note, hl]
  · rw [note_of_ne hk]

end Note

/-! ### Two runs of the same firings -/

/-- The threshold leaves the time of this firing alone: if the event is kept and
its socket is in `TCP_SYN_SENT`, the connect that it is measured from was not
below the threshold. -/
def Selects (m : UInt64) (pre : List Tick) (i : Tick) : Prop :=
  i.SynSent → m ≤ i.t / 1000 → ∀ t₀, Latest (pre.map Tick.lap) i.call.sk t₀ → m ≤ t₀ / 1000

/-- The threshold leaves the texts of this firing alone: if the event is kept, no
`handle_tcp_rcv_state_process` before it was below the threshold and so did not
append to its constant. -/
def Undisturbed (m : UInt64) (pre : List Tick) (i : Tick) : Prop :=
  m ≤ i.t / 1000 → ∀ j ∈ pre, j.hook = .tcpRcvStateProcess → m ≤ j.t / 1000

/-- The events that the threshold keeps. -/
def kept (m : UInt64) (out : List (PerfBuf × ClientEvent)) : List (PerfBuf × ClientEvent) :=
  out.filter (m ≤ ·.2.deltaUs)

/-- **The two states after the firings `pre`**: `s` under the threshold `m`, `s₀`
under none. -/
structure Rel (m : UInt64) (pre : List Tick) (s s₀ : Kern ClientEvent) : Prop where
  clock : s.clock = s₀.clock
  lookup : ∀ k, s.connect.lookup k = (s₀.connect.lookup k).filter (m ≤ ·.ts)
  noted : ∀ k, (s₀.connect.lookup k).map (·.ts) = (pending (pre.map Tick.lap) k).map (· / 1000)
  past : ∀ k t, pending (pre.map Tick.lap) k = some t → t ≤ s₀.clock
  rodata : (∀ j ∈ pre, j.hook = .tcpRcvStateProcess → m ≤ j.t / 1000) → s.rodata = s₀.rodata
  length : s.out.length = (kept m s₀.out).length
  out : s.out = kept m s₀.out ↔ Lawful (Selects m) pre

theorem rel_boot (m : UInt64) (d : DataSection) : Rel m [] (Kern.boot d) (Kern.boot d) where
  clock := rfl
  lookup k := by
    rw [Kern.boot, BoundedMap.lookup_empty]
    rfl
  noted k := by
    rw [Kern.boot, BoundedMap.lookup_empty]
    rfl
  past k t h := by cases h
  rodata _ := rfl
  length := rfl
  out := by
    constructor
    · intro _
      exact lawful_nil
    · intro _
      rfl

section Rel

variable {lit : String → Nat} {m : UInt64} {pre : List Tick} {s s₀ s₀' : Kern ClientEvent}
  {i : Tick}

/-- The notes are of times that have passed. -/
theorem Rel.ts_le (h : Rel m pre s s₀) (ht : s₀.clock ≤ i.t) {k : SockPtr} {pd : Piddata}
    (hpd : s₀.connect.lookup k = some pd) : pd.ts ≤ i.t / 1000 := by
  have hn := h.noted k
  rw [hpd, Option.map_some, eq_comm, Option.map_eq_some_iff] at hn
  obtain ⟨t₀, hp, hts⟩ := hn
  rw [← hts]
  exact us_le_us (UInt64.le_trans (h.past k t₀ hp) ht)

theorem Rel.past_snoc (h : Rel m pre s s₀) (ht : s₀.clock ≤ i.t) (k : SockPtr) (t : UInt64)
    (hp : pending ((pre ++ [i]).map Tick.lap) k = some t) : t ≤ i.t := by
  rw [List.map_append, List.map_singleton] at hp
  rcases pending_snoc_cases hp with hl | hp
  · rw [t_of_lap hl]
    exact UInt64.le_refl t
  · exact UInt64.le_trans (h.past k t hp) ht

theorem Rel.noted_snoc (h : Rel m pre s s₀) (k : SockPtr) :
    (i.note k (s₀.connect.lookup k)).map (·.ts) =
      (pending ((pre ++ [i]).map Tick.lap) k).map (· / 1000) := by
  rw [List.map_append, List.map_singleton, pending_snoc]
  exact ts_note (h.noted k)

/-- A map with fewer notes has room too. -/
theorem Rel.hasRoom (h : Rel m pre s s₀) (hroom : i.HasRoom s₀) : i.HasRoom s := by
  intro hh
  have h₀ := hroom hh
  rw [Option.isSome_iff_ne_none, ne_eq, BoundedMap.update_eq_none_iff] at h₀
  have hsub : ∀ j ∈ s.connect.keys, j ∈ s₀.connect.keys := by
    intro j hj
    obtain ⟨pd, hpd⟩ := BoundedMap.mem_keys_iff.mp hj
    rw [h.lookup, Option.filter_eq_some_iff] at hpd
    exact BoundedMap.mem_keys_iff.mpr ⟨pd, hpd.1⟩
  refine BoundedMap.isSome_update_of_subset (l := s₀.connect.keys.toFinset.erase i.call.sk) ?_ ?_ _
  · intro j hj hne
    exact Finset.mem_erase.mpr ⟨hne, List.mem_toFinset.mpr (hsub j hj)⟩
  · have hcard := List.toFinset_card_of_nodup s₀.connect.nodup_keys
    have hfits : s₀.connect.keys.length ≤ connectMaxEntries := s₀.connect.fits
    by_cases hk : i.call.sk ∈ s₀.connect.keys
    · have := Finset.card_erase_lt_of_mem (List.mem_toFinset.mpr hk)
      omega
    · have := Finset.card_erase_le (s := s₀.connect.keys.toFinset) (a := i.call.sk)
      have : ¬ connectMaxEntries ≤ s₀.connect.keys.length := fun hle => h₀ ⟨hk, hle⟩
      omega

/-! ### A firing below the threshold -/

theorem kept_snoc_of_lt {out : List (PerfBuf × ClientEvent)} (ht : i.t / 1000 < m)
    (d : DataSection) (dt : UInt64) : kept m (out ++ [i.event lit d dt]) = kept m out := by
  rw [kept, List.filter_append, List.filter_cons_of_neg, List.filter_nil, List.append_nil]
  · rfl
  · rw [deltaUs_event]
    simpa using ht

theorem Rel.step_of_lt (h : Rel m pre s s₀) (ht : i.t / 1000 < m) (hroom : i.HasRoom s₀)
    (htick : tick ⟨lit, 0⟩ s₀ i = some s₀') :
    ∃ s', tick ⟨lit, m⟩ s i = some s' ∧ Rel m (pre ++ [i]) s' s₀' := by
  have hclock := clock_le_of_tick htick
  obtain ⟨map, heq, hmap⟩ := tick_eq hclock (not_drops_zero lit i.t)
  rw [heq] at htick
  obtain rfl := Option.some.inj htick
  have hsel : Selects m pre i := fun _ hle => absurd hle (UInt64.not_le.mpr ht)
  refine ⟨_, tick_of_drops (h.clock ▸ hclock) (drops_iff.mpr ht), ?_⟩
  constructor
  · rfl
  · intro k
    show s.connect.lookup k = (map.lookup k).filter _
    rw [hmap hroom, filter_note_of_lt ht (fun pd => h.ts_le hclock), h.lookup]
  · intro k
    show (map.lookup k).map _ = _
    rw [hmap hroom]
    exact h.noted_snoc k
  · exact h.past_snoc hclock
  · intro hj
    have hrcv : i.hook ≠ .tcpRcvStateProcess := by
      intro hi
      exact absurd (hj i (by simp) hi) (UInt64.not_le.mpr ht)
    have hconst : i.constants lit s₀.rodata = s₀.rodata := by
      unfold Tick.constants
      split
      · contradiction
      · rfl
    show s.rodata = i.constants lit s₀.rodata
    rw [hconst]
    exact h.rodata fun j hmem => hj j (by simp [hmem])
  · show s.out.length = (kept m (s₀.out ++ [_])).length
    rw [kept_snoc_of_lt ht]
    exact h.length
  · show s.out = kept m (s₀.out ++ [_]) ↔ _
    rw [kept_snoc_of_lt ht, lawful_snoc_iff, h.out]
    exact (and_iff_left hsel).symm

/-! ### A firing at or above the threshold -/

theorem kept_snoc_of_le {out : List (PerfBuf × ClientEvent)} (ht : m ≤ i.t / 1000)
    (d : DataSection) (dt : UInt64) :
    kept m (out ++ [i.event lit d dt]) = kept m out ++ [i.event lit d dt] := by
  rw [kept, List.filter_append, List.filter_cons_of_pos, List.filter_nil]
  · rfl
  · rw [deltaUs_event]
    simpa using ht

/-- Two times can only be told apart by an event in `TCP_SYN_SENT`. -/
theorem event_time_inj {d : DataSection} {e e' : Option Piddata} :
    i.event lit d (i.time e) = i.event lit d (i.time e') ↔
      (i.SynSent → connectTime i.t e = connectTime i.t e') := by
  constructor
  · intro h hs
    have htime := congrArg (fun x => x.2.tcpConnectTime) h
    simpa only [Tick.event, hs.1, rcvEvent, Tick.time, if_pos hs] using htime
  · intro h
    by_cases hs : i.SynSent
    · rw [Tick.time, Tick.time, if_pos hs, if_pos hs, h hs]
    · rw [Tick.time, Tick.time, if_neg hs, if_neg hs]

/-- Without the notes below the threshold the time is the same exactly if there
was no such note. -/
theorem connectTime_filter_iff {t : UInt64} {e : Option Piddata} (ht : m ≤ t / 1000)
    (he : ∀ pd, e = some pd → pd.ts ≤ t / 1000) :
    connectTime t (e.filter (m ≤ ·.ts)) = connectTime t e ↔ ∀ pd, e = some pd → m ≤ pd.ts := by
  cases e with
  | none =>
    constructor
    · intro _ pd hpd
      cases hpd
    · intro _
      rfl
  | some pd =>
    rw [Option.filter_some]
    by_cases hm : m ≤ pd.ts
    · simp [hm]
    · have hlt : pd.ts < t / 1000 := UInt64.lt_of_lt_of_le (UInt64.not_le.mp hm) ht
      have hne : t / 1000 - pd.ts ≠ 0 := by
        intro h0
        have hsub := UInt64.toNat_sub_of_le _ _ (he pd rfl)
        rw [h0] at hsub
        have := UInt64.lt_iff_toNat_lt.mp hlt
        have : (0 : UInt64).toNat = 0 := rfl
        omega
      simp [hm, connectTime, Ne.symm hne]

theorem Rel.forall_note_iff (h : Rel m pre s s₀) {k : SockPtr} :
    (∀ pd, s₀.connect.lookup k = some pd → m ≤ pd.ts) ↔
      ∀ t₀, Latest (pre.map Tick.lap) k t₀ → m ≤ t₀ / 1000 := by
  have hn := h.noted k
  constructor
  · intro hall t₀ hl
    rw [pending_eq_some_iff.mpr hl, Option.map_some, Option.map_eq_some_iff] at hn
    obtain ⟨pd, hpd, hts⟩ := hn
    exact hts ▸ hall pd hpd
  · intro hall pd hpd
    rw [hpd, Option.map_some, eq_comm, Option.map_eq_some_iff] at hn
    obtain ⟨t₀, hp, hts⟩ := hn
    exact hts ▸ hall t₀ (pending_eq_some_iff.mp hp)

/-- The event of a firing that is kept is the same in both runs exactly if the
threshold leaves its time alone. -/
theorem Rel.event_eq_iff (h : Rel m pre s s₀) (hclock : s₀.clock ≤ i.t) (ht : m ≤ i.t / 1000)
    (d : DataSection) :
    i.event lit d (i.time (s.connect.lookup i.call.sk)) =
      i.event lit d (i.time (s₀.connect.lookup i.call.sk)) ↔ Selects m pre i := by
  rw [event_time_inj, h.lookup, connectTime_filter_iff ht (fun pd => h.ts_le hclock),
    h.forall_note_iff]
  constructor
  · intro hsel hs _
    exact hsel hs
  · intro hsel hs
    exact hsel hs ht

theorem Rel.step_of_le (h : Rel m pre s s₀) (ht : m ≤ i.t / 1000) (hroom : i.HasRoom s₀)
    (hdist : Undisturbed m pre i) (htick : tick ⟨lit, 0⟩ s₀ i = some s₀') :
    ∃ s', tick ⟨lit, m⟩ s i = some s' ∧ Rel m (pre ++ [i]) s' s₀' := by
  have hclock := clock_le_of_tick htick
  have hkeep : ¬ (⟨lit, m⟩ : Image).drops i.t := fun hd =>
    UInt64.not_le.mpr (drops_iff.mp hd) ht
  have hdata := h.rodata (hdist ht)
  obtain ⟨map₀, heq₀, hmap₀⟩ := tick_eq hclock (not_drops_zero lit i.t)
  obtain ⟨map, heq, hmap⟩ := tick_eq (h.clock ▸ hclock) hkeep
  rw [heq₀] at htick
  obtain rfl := Option.some.inj htick
  refine ⟨_, heq, ?_⟩
  constructor
  · rfl
  · intro k
    show map.lookup k = (map₀.lookup k).filter _
    rw [hmap (h.hasRoom hroom), hmap₀ hroom, filter_note_of_le ht, h.lookup]
  · intro k
    show (map₀.lookup k).map _ = _
    rw [hmap₀ hroom]
    exact h.noted_snoc k
  · exact h.past_snoc hclock
  · intro _
    show i.constants lit s.rodata = i.constants lit s₀.rodata
    rw [hdata]
  · show (s.out ++ [_]).length = (kept m (s₀.out ++ [_])).length
    rw [kept_snoc_of_le ht, List.length_append, List.length_append, h.length, List.length_singleton,
      List.length_singleton]
  · show s.out ++ [_] = kept m (s₀.out ++ [_]) ↔ _
    rw [kept_snoc_of_le ht, lawful_snoc_iff, ← h.out, ← h.event_eq_iff hclock ht, hdata]
    constructor
    · intro heq
      obtain ⟨hout, hev⟩ := List.append_inj heq h.length
      exact ⟨hout, List.singleton_inj.mp hev⟩
    · intro ⟨hout, hev⟩
      rw [hout, hev]

/-! ### Whole runs -/

/-- The two runs stay related. -/
theorem Rel.run {l : List Tick} (h : Rel m pre s s₀) (hroom : Roomy ⟨lit, 0⟩ s₀ l)
    (hdist : Lawful (Undisturbed m) (pre ++ l)) (hrun : ticks ⟨lit, 0⟩ s₀ l = some s₀') :
    ∃ s', ticks ⟨lit, m⟩ s l = some s' ∧ Rel m (pre ++ l) s' s₀' := by
  induction l generalizing pre s s₀ with
  | nil =>
    obtain rfl := Option.some.inj hrun
    rw [List.append_nil]
    exact ⟨s, rfl, h⟩
  | cons i l ih =>
    rw [ticks, List.foldlM_cons] at hrun
    obtain ⟨s₁, htick, hrest⟩ := Option.bind_eq_some_iff.mp hrun
    have hi : Undisturbed m pre i := hdist pre i l rfl
    have hstep : ∃ s', tick ⟨lit, m⟩ s i = some s' ∧ Rel m (pre ++ [i]) s' s₁ := by
      by_cases ht : m ≤ i.t / 1000
      · exact h.step_of_le ht hroom.1 hi htick
      · exact h.step_of_lt (UInt64.not_le.mp ht) hroom.1 htick
    obtain ⟨s', hs', hrel⟩ := hstep
    have hassoc : pre ++ [i] ++ l = pre ++ i :: l := by
      rw [List.append_assoc, List.singleton_append]
    obtain ⟨s'', hs'', hrel'⟩ := ih hrel (hroom.2 s₁ htick) (hassoc ▸ hdist) hrest
    refine ⟨s'', ?_, hassoc ▸ hrel'⟩
    rw [ticks, List.foldlM_cons]
    exact Option.bind_eq_some_iff.mpr ⟨s', hs', hs''⟩

end Rel

/-- **When the threshold only selects events.**  For firings with nondecreasing
clock readings, and a map with room for every note: as long as no firing of
`handle_tcp_rcv_state_process` below the threshold precedes a firing that is
kept, the run under the threshold emits exactly the events that are kept from the
run without it, if and only if no time that is kept is measured from a connect
below the threshold. -/
theorem minUs_selects {lit : String → Nat} {d : DataSection} {m : UInt64} {l : List Tick}
    {s₀ : Kern ClientEvent} (hrun : ticks ⟨lit, 0⟩ (Kern.boot d) l = some s₀)
    (hroom : Roomy ⟨lit, 0⟩ (Kern.boot d) l) (hdist : Lawful (Undisturbed m) l) :
    ∃ s, ticks ⟨lit, m⟩ (Kern.boot d) l = some s ∧
      (s.out = s₀.out.filter (m ≤ ·.2.deltaUs) ↔ Lawful (Selects m) l) := by
  obtain ⟨s, hs, hrel⟩ := (rel_boot m d).run hroom hdist hrun
  exact ⟨s, hs, hrel.out⟩

theorem lawful_undisturbed {m : UInt64} {l : List Tick}
    (h : ∀ j ∈ l, j.hook = .tcpRcvStateProcess → m ≤ j.t / 1000) : Lawful (Undisturbed m) l := by
  intro pre i post e _ j hj
  exact h j (by simp [e, hj])

/-- Data is sent at 1 ms; a socket connects at 2 ms and gets its answer at 3 ms. -/
def exampleTicks : List Tick :=
  [⟨.tcpSendmsg, exampleCall 2 1, 1000000⟩, ⟨.tcpV4Connect, exampleCall 1 7, 2000000⟩,
    ⟨.tcpRcvStateProcess, exampleCall 1 2, 3000000⟩]

theorem minUs_selects_example :
    ∃ s₀ s, ticks ⟨fun _ => 0, 0⟩ (Kern.boot ⟨[]⟩) exampleTicks = some s₀ ∧
      ticks ⟨fun _ => 0, 1500⟩ (Kern.boot ⟨[]⟩) exampleTicks = some s ∧
      s₀.out.map (·.2.tcpConnectTime) = [0, 0, 1000] ∧
      s.out.map (·.2.tcpConnectTime) = [0, 1000] ∧
      (s.out = s₀.out.filter (1500 ≤ ·.2.deltaUs) ↔ Lawful (Selects 1500) exampleTicks) := by
  have h₀ : (ticks ⟨fun _ => 0, 0⟩ (Kern.boot ⟨[]⟩) exampleTicks).map
      (fun s => s.out.map (·.2.tcpConnectTime)) = some [0, 0, 1000] := by rfl
  have h₁ : (ticks ⟨fun _ => 0, 1500⟩ (Kern.boot ⟨[]⟩) exampleTicks).map
      (fun s => s.out.map (·.2.tcpConnectTime)) = some [0, 1000] := by rfl
  obtain ⟨s₀, hs₀, he₀⟩ := Option.map_eq_some_iff.mp h₀
  have hroom : Roomy ⟨fun _ => 0, 0⟩ (Kern.boot ⟨[]⟩) exampleTicks := by decide
  obtain ⟨s, hs, hiff⟩ := minUs_selects (m := 1500) hs₀ hroom
    (lawful_undisturbed (by decide))
  rw [hs] at h₁
  exact ⟨s₀, s, hs₀, hs, he₀, Option.some.inj h₁, hiff⟩

/-- A connect at 1 ms, and its answer at 2 ms. -/
def straddling : List Tick :=
  [⟨.tcpV4Connect, exampleCall 1 7, 1000000⟩, ⟨.tcpRcvStateProcess, exampleCall 1 2, 2000000⟩]

/-- Two segments of an established connection, at 1 ms and at 2 ms. -/
def twoSegments : List Tick :=
  [⟨.tcpRcvStateProcess, exampleCall 1 1, 1000000⟩, ⟨.tcpRcvStateProcess, exampleCall 1 1, 2000000⟩]

/-- `"transfer into new state"`, with zeros up to `"TCP_ESTABLISHED"` at 100. -/
def exampleConstants : DataSection :=
  ⟨[116, 114, 97, 110, 115, 102, 101, 114, 32, 105, 110, 116, 111, 32, 110, 101, 119, 32, 115, 116,
    97, 116, 101] ++ List.replicate 77 0 ++
    [84, 67, 80, 95, 69, 83, 84, 65, 66, 76, 73, 83, 72, 69, 68, 0]⟩

def exampleLit (s : String) : Nat := if s = "TCP_ESTABLISHED" then 100 else 0

/-- Two runs whose kept events differ in what `f` says of them. -/
theorem exists_out_ne {β : Type} {lit : String → Nat} {d : DataSection} {m : UInt64} {l : List Tick}
    (f : ClientEvent → β) {x y : List β}
    (h₀ : (ticks ⟨lit, 0⟩ (Kern.boot d) l).map
      (fun s => (s.out.filter (m ≤ ·.2.deltaUs)).map (fun e => f e.2)) = some x)
    (h₁ : (ticks ⟨lit, m⟩ (Kern.boot d) l).map (fun s => s.out.map (fun e => f e.2)) = some y)
    (hne : y ≠ x) :
    ∃ s₀ s, ticks ⟨lit, 0⟩ (Kern.boot d) l = some s₀ ∧ ticks ⟨lit, m⟩ (Kern.boot d) l = some s ∧
      (s₀.out.filter (m ≤ ·.2.deltaUs)).map (fun e => f e.2) = x ∧
      s.out.map (fun e => f e.2) = y ∧ s.out ≠ s₀.out.filter (m ≤ ·.2.deltaUs) := by
  obtain ⟨s₀, hs₀, hx⟩ := Option.map_eq_some_iff.mp h₀
  obtain ⟨s, hs, hy⟩ := Option.map_eq_some_iff.mp h₁
  refine ⟨s₀, s, hs₀, hs, hx, hy, fun heq => hne ?_⟩
  rw [← hx, ← hy, heq]

/-- **The threshold changes events.**  With `targ_min_us = 1500` the answer at 2 ms
to a connect at 1 ms carries `0` instead of 1000 µs.  And of two segments of an
established connection the second one is described with the state appended once
instead of twice: byte 38 of its description is the end of the string instead of a
`T`. -/
theorem minUs_changes_events :
    (Roomy ⟨exampleLit, 0⟩ (Kern.boot exampleConstants) straddling ∧
      ∃ s₀ s, ticks ⟨exampleLit, 0⟩ (Kern.boot exampleConstants) straddling = some s₀ ∧
        ticks ⟨exampleLit, 1500⟩ (Kern.boot exampleConstants) straddling = some s ∧
        (s₀.out.filter (1500 ≤ ·.2.deltaUs)).map (·.2.tcpConnectTime) = [1000] ∧
        s.out.map (·.2.tcpConnectTime) = [0] ∧ s.out ≠ s₀.out.filter (1500 ≤ ·.2.deltaUs)) ∧
    (Roomy ⟨exampleLit, 0⟩ (Kern.boot exampleConstants) twoSegments ∧
      ∃ s₀ s, ticks ⟨exampleLit, 0⟩ (Kern.boot exampleConstants) twoSegments = some s₀ ∧
        ticks ⟨exampleLit, 1500⟩ (Kern.boot exampleConstants) twoSegments = some s ∧
        (s₀.out.filter (1500 ≤ ·.2.deltaUs)).map (·.2.tcpDescription.toList.getD 38 0) = [84] ∧
        s.out.map (·.2.tcpDescription.toList.getD 38 0) = [0] ∧
        s.out ≠ s₀.out.filter (1500 ≤ ·.2.deltaUs)) := by
  constructor
  · refine ⟨by decide, exists_out_ne (fun e => e.tcpConnectTime) ?_ ?_ (by decide)⟩
    · decide +kernel
    · decide +kernel
  · refine ⟨by decide, exists_out_ne (fun e => e.tcpDescription.toList.getD 38 0) ?_ ?_ (by decide)⟩
    · decide +kernel
    · decide +kernel

end NetworkAnalyse.Ebpf.Client
