import NetworkAnalyse.Ebpf.ConnectTime

/-!
# Connection attempts

The client's handlers see socket addresses and states.  What the user of the
tool wants to know about is connection attempts, so this file puts the handlers
into a model of the kernel that has them (`Kernel.step`):

* sockets are allocated and freed, and an address can be used again;
* an attempt starts through `tcp_v4_connect`, which has a hook, or through
  `tcp_v6_connect`, which has none;
* in `TCP_SYN_SENT` the kernel processes segments, each through the hook of
  `tcp_rcv_state_process`; a segment completes the attempt, refuses it, or
  leaves it where it is;
* an attempt can end without any segment (a timeout, a close, an error of
  `connect`), and then no hook fires.

A firing of a hook runs its handler from start to end (`fire`).  Below `targ_min_us` the
handler returns at once.  The clock never goes back, so all such firings come before all
others, and no note is there when the first handler does not return at once.

* `Kernel.Does`: what a step can do; `Tied`: what is known of one socket.
* `connectTime_attribution`: which event gets a time, and from when.
* `connect_keys_open`: which sockets the map holds a note for.
-/

namespace NetworkAnalyse.Ebpf.Client

open Lib

/-- How an attempt was started: for `tcp_v4_connect` with the clock reading of
its hook, and whether the note was written: the hook did not return at once, and the
`connect` map had room. -/
inductive Via
  | tcpV4Connect (t : UInt64) (noted : Bool)
  | tcpV6Connect
  deriving DecidableEq

structure Attempt where
  via : Via
  /-- the segments processed in `TCP_SYN_SENT` so far -/
  segments : Nat
  deriving DecidableEq

/-- What a segment processed in `TCP_SYN_SENT` does to the attempt. -/
inductive Outcome
  | stays
  | completes
  | refuses
  deriving DecidableEq

/-- A firing of a hook with the event it emitted. -/
structure Firing where
  hook : Hook
  call : Call
  t : UInt64
  /-- for a segment in `TCP_SYN_SENT`, its attempt as it was before the segment -/
  seg : Option (Attempt × Outcome)
  /-- the map had room for a note on this socket -/
  room : Bool
  event : ClientEvent

structure Kernel where
  kern : Kern ClientEvent
  /-- the addresses of the socket objects in use -/
  socks : List SockPtr
  /-- the outstanding attempts -/
  attempts : AList (fun _ : SockPtr => Attempt)
  /-- sockets whose attempt through `tcp_v4_connect` ended without a segment,
  and that have seen neither a connect hook nor a segment in `TCP_SYN_SENT` since -/
  abandoned : List SockPtr
  firings : List Firing

/-- The kernel when the program is loaded. -/
def Kernel.boot (d : DataSection) : Kernel := ⟨Kern.boot d, [], ∅, [], []⟩

inductive KernelStep
  | alloc (sk : SockPtr)
  | free (sk : SockPtr)
  | startV4 (c : Call) (t : UInt64)
  | startV6 (sk : SockPtr)
  | segment (c : Call) (t : UInt64) (o : Outcome)
  | other (h : Hook) (c : Call) (t : UInt64)
  | abandon (sk : SockPtr)

/-- The `connect` map has room for the note of the call. -/
def Kernel.hasRoom (w : Kernel) (c : Call) (t : UInt64) : Bool :=
  (w.kern.connect.update c.sk (connectNote c t)).isSome

/-- A hook fires: its handler runs, and the event that it emits, if any, is noted. -/
def Kernel.fire (P : Image) (w : Kernel) (h : Hook) (c : Call) (t : UInt64)
    (seg : Option (Attempt × Outcome)) : Option Kernel :=
  (invoke P t h c w.kern).map fun k =>
    { w with
      kern := k
      firings := w.firings ++
        (k.out.drop w.kern.out.length).map fun e => ⟨h, c, t, seg, w.hasRoom c t, e.2⟩ }

def Kernel.step (P : Image) (w : Kernel) : KernelStep → Option Kernel
  | .alloc sk => if sk ∈ w.socks then none else some { w with socks := sk :: w.socks }
  | .free sk =>
    if sk ∈ w.socks ∧ sk ∉ w.attempts then some { w with socks := w.socks.erase sk } else none
  | .startV4 c t =>
    if c.sk ∈ w.socks ∧ c.sk ∉ w.attempts then
      (w.fire P .tcpV4Connect c t none).map fun w' =>
        { w' with
          attempts := w.attempts.insert c.sk
            ⟨.tcpV4Connect t (!decide (P.drops t) && w.hasRoom c t), 0⟩
          abandoned := w.abandoned.filter (· ≠ c.sk) }
    else none
  | .startV6 sk =>
    if sk ∈ w.socks ∧ sk ∉ w.attempts then
      some { w with attempts := w.attempts.insert sk ⟨.tcpV6Connect, 0⟩ }
    else none
  | .segment c t o =>
    match w.attempts.lookup c.sk with
    | some a =>
      if c.sock.skcState = tcpSynSent then
        (w.fire P .tcpRcvStateProcess c t (some (a, o))).map fun w' =>
          { w' with
            attempts :=
              if o = .stays then w.attempts.insert c.sk { a with segments := a.segments + 1 }
              else w.attempts.erase c.sk
            abandoned := w.abandoned.filter (· ≠ c.sk) }
      else none
    | none => none
  | .other h c t =>
    -- data being sent, or a segment processed in another state
    if h = .tcpSendmsg ∨ (h = .tcpRcvStateProcess ∧ c.sock.skcState ≠ tcpSynSent) then
      w.fire P h c t none
    else none
  | .abandon sk =>
    match w.attempts.lookup sk with
    | some a =>
      some { w with
        attempts := w.attempts.erase sk
        abandoned :=
          if a.via ≠ .tcpV6Connect ∧ a.segments = 0 then sk :: w.abandoned else w.abandoned }
    | none => none

def Kernel.run (P : Image) (w : Kernel) (steps : List KernelStep) : Option Kernel :=
  steps.foldlM (Kernel.step P) w

/-! ### What a firing does -/

/-- What a firing does to the stopwatch of its socket. -/
def Firing.lap (f : Firing) : Lap SockPtr UInt64 := f.hook.lap f.call f.t

section Fire

variable {P : Image} {w w' : Kernel} {c : Call} {t : UInt64} {h : Hook}
  {seg : Option (Attempt × Outcome)}

theorem clock_le_of_fire (hf : w.fire P h c t seg = some w') : w.kern.clock ≤ t := by
  rw [Kernel.fire, Option.map_eq_some_iff] at hf
  obtain ⟨k, hk, -⟩ := hf
  exact clock_le_of_invoke hk

/-- Below the threshold only the clock is read. -/
theorem fire_of_drops (hd : P.drops t) (hf : w.fire P h c t seg = some w') :
    w' = { w with kern := { w.kern with clock := t } } := by
  rw [Kernel.fire, invoke_of_drops h (clock_le_of_fire hf) hd, Option.map_some,
    List.drop_length, List.map_nil, List.append_nil] at hf
  exact (Option.some.inj hf).symm

/-- A handler that emits an event is accounted for with this event. -/
theorem fire_of_invoke {k : Kern ClientEvent} {buf : PerfBuf} {event : ClientEvent}
    (hi : invoke P t h c w.kern = some k) (hout : k.out = w.kern.out ++ [(buf, event)]) :
    w.fire P h c t seg = some { w with
      kern := k
      firings := w.firings ++ [⟨h, c, t, seg, w.hasRoom c t, event⟩] } := by
  rw [Kernel.fire, hi, Option.map_some, hout, List.drop_left]
  rfl

/-- A connect hook writes the note, if there is room for it, and reports no time. -/
theorem fire_connect (hd : ¬ P.drops t) (hf : w.fire P .tcpV4Connect c t seg = some w') :
    ∃ event, event.tcpConnectTime = 0 ∧ w' = { w with
      kern := { w.kern with
        clock := t
        connect := (w.kern.connect.update c.sk (connectNote c t)).getD w.kern.connect
        out := w.kern.out ++ [(.events, event)] }
      firings := w.firings ++ [⟨.tcpV4Connect, c, t, seg, w.hasRoom c t, event⟩] } := by
  have hi := invoke_connect (c := c) (clock_le_of_fire hf) hd
  rw [fire_of_invoke hi rfl] at hf
  exact ⟨_, rfl, (Option.some.inj hf).symm⟩

/-- In `TCP_SYN_SENT` the hook reports the time of the note, and removes it. -/
theorem fire_synSent (hd : ¬ P.drops t) (hs : c.sock.skcState = tcpSynSent)
    (hf : w.fire P .tcpRcvStateProcess c t seg = some w') :
    ∃ d event, event.tcpConnectTime = connectTime t (w.kern.connect.lookup c.sk) ∧ w' = { w with
      kern := {
        clock := t
        rodata := d
        connect := w.kern.connect.delete c.sk
        out := w.kern.out ++ [(.events, event)] }
      firings := w.firings ++ [⟨.tcpRcvStateProcess, c, t, seg, w.hasRoom c t, event⟩] } := by
  have hi := invoke_rcv_of_synSent (clock_le_of_fire hf) hd hs
  rw [fire_of_invoke hi rfl] at hf
  exact ⟨_, _, rfl, (Option.some.inj hf).symm⟩

/-- Any other firing leaves the map alone and reports no time. -/
theorem fire_other (hd : ¬ P.drops t)
    (hh : h = .tcpSendmsg ∨ (h = .tcpRcvStateProcess ∧ c.sock.skcState ≠ tcpSynSent))
    (hf : w.fire P h c t seg = some w') :
    ∃ d out event, event.tcpConnectTime = 0 ∧ w' = { w with
      kern := { clock := t, rodata := d, connect := w.kern.connect, out := out }
      firings := w.firings ++ [⟨h, c, t, seg, w.hasRoom c t, event⟩] } := by
  have ht := clock_le_of_fire hf
  rcases hh with rfl | ⟨rfl, hs⟩
  · have hi := invoke_sendmsg (c := c) ht hd
    rw [fire_of_invoke hi rfl] at hf
    exact ⟨_, _, _, rfl, (Option.some.inj hf).symm⟩
  · have hi := invoke_rcv_of_ne ht hd hs
    rw [fire_of_invoke hi rfl] at hf
    exact ⟨_, _, _, rfl, (Option.some.inj hf).symm⟩

end Fire

/-! ### What a step does -/

/-- The stopwatch of a socket after the firings so far. -/
def Kernel.watch (w : Kernel) (sk : SockPtr) : Option UInt64 :=
  pending (w.firings.map Firing.lap) sk

/-- **What the kernel can do**, as far as the map, the attempts and the firings
are concerned. -/
inductive Kernel.Does (P : Image) (w w' : Kernel) : Prop
  | socks (h : w' = { w with socks := w'.socks })
  | startV4 {c : Call} {t : UInt64} {event : ClientEvent} (ht : w.kern.clock ≤ t)
      (hd : ¬ P.drops t) (htime : event.tcpConnectTime = 0) (hclock : w'.kern.clock = t)
      (hmap : w'.kern.connect =
        (w.kern.connect.update c.sk (connectNote c t)).getD w.kern.connect)
      (hatt : w'.attempts = w.attempts.insert c.sk ⟨.tcpV4Connect t (w.hasRoom c t), 0⟩)
      (hab : w'.abandoned = w.abandoned.filter (· ≠ c.sk))
      (hfir : w'.firings = w.firings ++ [⟨.tcpV4Connect, c, t, none, w.hasRoom c t, event⟩])
  | startV6 {sk : SockPtr} (hnew : sk ∉ w.attempts)
      (h : w' = { w with attempts := w.attempts.insert sk ⟨.tcpV6Connect, 0⟩ })
  | segment {c : Call} {t : UInt64} {o : Outcome} {a : Attempt} {event : ClientEvent}
      (ht : w.kern.clock ≤ t) (ha : w.attempts.lookup c.sk = some a)
      (hs : c.sock.skcState = tcpSynSent)
      (htime : event.tcpConnectTime = connectTime t (w.kern.connect.lookup c.sk))
      (hclock : w'.kern.clock = t) (hmap : w'.kern.connect = w.kern.connect.delete c.sk)
      (hatt : w'.attempts = w.attempts.insert c.sk { a with segments := a.segments + 1 } ∨
        w'.attempts = w.attempts.erase c.sk)
      (hab : w'.abandoned = w.abandoned.filter (· ≠ c.sk))
      (hfir : w'.firings =
        w.firings ++ [⟨.tcpRcvStateProcess, c, t, some (a, o), w.hasRoom c t, event⟩])
  | other {h : Hook} {c : Call} {t : UInt64} {event : ClientEvent} (ht : w.kern.clock ≤ t)
      (htime : event.tcpConnectTime = 0) (hclock : w'.kern.clock = t)
      (hmap : w'.kern.connect = w.kern.connect) (hatt : w'.attempts = w.attempts)
      (hab : w'.abandoned = w.abandoned)
      (hidle : h = .tcpSendmsg ∨ (h = .tcpRcvStateProcess ∧ c.sock.skcState ≠ tcpSynSent))
      (hfir : w'.firings = w.firings ++ [⟨h, c, t, none, w.hasRoom c t, event⟩])
  | dropped {t : UInt64} (ht : w.kern.clock ≤ t) (hd : P.drops t) (hclock : w'.kern.clock = t)
      (hmap : w'.kern.connect = w.kern.connect) (hfir : w'.firings = w.firings)
      (hatt : ∀ sk t n, w'.attempts.lookup sk = some ⟨.tcpV4Connect t n, 0⟩ →
        w.attempts.lookup sk = some ⟨.tcpV4Connect t n, 0⟩ ∨ n = false)
  | abandon {sk : SockPtr} {a : Attempt} (ha : w.attempts.lookup sk = some a)
      (h : w' = { w with
        attempts := w.attempts.erase sk
        abandoned :=
          if a.via ≠ .tcpV6Connect ∧ a.segments = 0 then sk :: w.abandoned else w.abandoned })

theorem Kernel.step_does {P : Image} {w w' : Kernel} {a : KernelStep}
    (h : w.step P a = some w') : w.Does P w' := by
  cases a with
  | alloc sk =>
    rw [step, Option.ite_none_left_eq_some] at h
    rw [← Option.some.inj h.2]
    exact .socks rfl
  | free sk =>
    rw [step, Option.ite_none_right_eq_some] at h
    rw [← Option.some.inj h.2]
    exact .socks rfl
  | startV4 c t =>
    rw [step, Option.ite_none_right_eq_some, Option.map_eq_some_iff] at h
    obtain ⟨hnew, w₁, hf, rfl⟩ := h
    have ht := clock_le_of_fire hf
    by_cases hd : P.drops t
    · obtain rfl := fire_of_drops hd hf
      refine .dropped ht hd rfl rfl rfl fun sk t' n ha => ?_
      by_cases hk : sk = c.sk
      · subst hk
        rw [AList.lookup_insert] at ha
        cases ha
        exact Or.inr (by simp [hd])
      · rw [AList.lookup_insert_ne hk] at ha
        exact Or.inl ha
    · obtain ⟨event, htime, rfl⟩ := fire_connect hd hf
      exact .startV4 ht hd htime rfl rfl (by simp [hd]) rfl rfl
  | startV6 sk =>
    rw [step, Option.ite_none_right_eq_some] at h
    exact .startV6 h.1.2 (Option.some.inj h.2).symm
  | segment c t o =>
    rw [step] at h
    split at h
    · rename_i a ha
      rw [Option.ite_none_right_eq_some, Option.map_eq_some_iff] at h
      obtain ⟨hs, w₁, hf, rfl⟩ := h
      have ht := clock_le_of_fire hf
      by_cases hd : P.drops t
      · obtain rfl := fire_of_drops hd hf
        refine .dropped ht hd rfl rfl rfl fun sk t' n ha' => Or.inl ?_
        by_cases hk : sk = c.sk
        · subst hk
          split at ha'
          · rw [AList.lookup_insert] at ha'
            simp at ha'
          · rw [AList.lookup_erase] at ha'
            cases ha'
        · split at ha'
          · rwa [AList.lookup_insert_ne hk] at ha'
          · rwa [AList.lookup_erase_ne hk] at ha'
      · obtain ⟨d, event, htime, rfl⟩ := fire_synSent hd hs hf
        refine .segment ht ha hs htime rfl rfl ?_ rfl rfl
        by_cases ho : o = .stays
        · exact Or.inl (if_pos ho)
        · exact Or.inr (if_neg ho)
    · cases h
  | other h' c t =>
    rw [step, Option.ite_none_right_eq_some] at h
    obtain ⟨hidle, hf⟩ := h
    have ht := clock_le_of_fire hf
    by_cases hd : P.drops t
    · obtain rfl := fire_of_drops hd hf
      exact .dropped ht hd rfl rfl rfl fun sk t' n ha => Or.inl ha
    · obtain ⟨d, out, event, htime, rfl⟩ := fire_other hd hidle hf
      exact .other ht htime rfl rfl rfl rfl hidle rfl
  | abandon sk =>
    rw [step] at h
    split at h
    · exact .abandon ‹_› (Option.some.inj h).symm
    · cases h

/-! ### What is known of one socket -/

/-- What comes before a firing that is dropped is dropped as well. -/
theorem drops_of_le {P : Image} {t t' : UInt64} (h : P.drops t) (hle : t' ≤ t) : P.drops t' :=
  ⟨h.1, UInt64.lt_of_le_of_lt (us_le_us hle) h.2⟩

/-- **The invariant**, for the map entry, the stopwatch and the attempt of one
socket. -/
structure Tied (P : Image) (clock : UInt64) (entry : Option Piddata) (watch : Option UInt64)
    (attempt : Option Attempt) (abandoned : Prop) : Prop where
  past : ∀ t, watch = some t → t ≤ clock ∧ ¬ P.drops t
  noted : ∀ pd, entry = some pd → ∃ t, watch = some t ∧ pd.ts = t / 1000
  started : ∀ t n, attempt = some ⟨.tcpV4Connect t n, 0⟩ →
    (watch = some t ∧ (n = true → ∃ pd, entry = some pd)) ∨ (watch = none ∧ n = false)
  used : ∀ a, attempt = some a → a.segments ≠ 0 → watch = none
  going : ∀ t, watch = some t → (∃ n, attempt = some ⟨.tcpV4Connect t n, 0⟩) ∨ abandoned

namespace Tied

variable {P : Image} {clock t : UInt64} {entry : Option Piddata} {watch : Option UInt64}
  {attempt attempt' : Option Attempt} {abandoned abandoned' : Prop}

theorem later (h : Tied P clock entry watch attempt abandoned) (ht : clock ≤ t) :
    Tied P t entry watch attempt abandoned :=
  { h with past := fun t' ht' => ⟨UInt64.le_trans (h.past t' ht').1 ht, (h.past t' ht').2⟩ }

/-- Nothing is noted and no watch is going. -/
theorem stopped (h : ∀ t n, attempt = some ⟨.tcpV4Connect t n, 0⟩ → n = false) :
    Tied P clock none none attempt abandoned where
  past t ht := by cases ht
  noted pd hpd := by cases hpd
  started t n ha := Or.inr ⟨rfl, h t n ha⟩
  used a _ _ := rfl
  going t ht := by cases ht

/-- While a watch is going, no firing is dropped. -/
theorem not_drops (h : Tied P clock entry watch attempt abandoned) (ht : clock ≤ t)
    {t₀ : UInt64} (hw : watch = some t₀) : ¬ P.drops t := by
  intro hd
  obtain ⟨hle, hkeep⟩ := h.past t₀ hw
  exact hkeep (drops_of_le hd (UInt64.le_trans hle ht))

/-- A firing is dropped: nothing was noted before it. -/
theorem drop (h : Tied P clock entry watch attempt abandoned) (ht : clock ≤ t)
    (hd : P.drops t) (hatt : ∀ t n, attempt' = some ⟨.tcpV4Connect t n, 0⟩ →
      attempt = some ⟨.tcpV4Connect t n, 0⟩ ∨ n = false) :
    Tied P t entry watch attempt' abandoned' := by
  obtain rfl : watch = none :=
    Option.eq_none_iff_forall_ne_some.mpr fun t₀ hw => h.not_drops ht hw hd
  obtain rfl : entry = none := Option.eq_none_iff_forall_ne_some.mpr fun pd hpd => by
    obtain ⟨t₀, hw, -⟩ := h.noted pd hpd
    cases hw
  refine stopped fun t' n ha => ?_
  rcases hatt t' n ha with ha | hn
  · rcases h.started t' n ha with ⟨hw, -⟩ | ⟨-, hn⟩
    · cases hw
    · exact hn
  · exact hn

/-- A connect hook has just fired. -/
theorem start (hd : ¬ P.drops t) (hn : ∀ pd, entry = some pd → pd.ts = t / 1000) :
    Tied P t entry (some t) (some ⟨.tcpV4Connect t entry.isSome, 0⟩) abandoned where
  past t' ht' := by
    rw [← Option.some.inj ht']
    exact ⟨UInt64.le_refl t, hd⟩
  noted pd hpd := ⟨t, rfl, hn pd hpd⟩
  started t' n ha := by
    cases ha
    exact Or.inl ⟨rfl, fun hs => Option.isSome_iff_exists.mp hs⟩
  used a ha hs := by
    cases ha
    exact absurd rfl hs
  going t' ht' := by
    rw [Option.some.inj ht']
    exact Or.inl ⟨_, rfl⟩

/-- An attempt begins that no hook sees: a watch that is going was abandoned. -/
theorem unseen (h : Tied P clock entry watch none abandoned) :
    Tied P clock entry watch (some ⟨.tcpV6Connect, 0⟩) abandoned where
  past := h.past
  noted := h.noted
  started t n ha := by cases ha
  used a ha hs := by
    cases ha
    exact absurd rfl hs
  going t ht := by
    rcases h.going t ht with ⟨n, ha⟩ | hab
    · cases ha
    · exact Or.inr hab

/-- An attempt ends that no hook sees. -/
theorem abandon {a : Attempt} (h : Tied P clock entry watch (some a) abandoned)
    (hold : abandoned → abandoned')
    (hnew : a.via ≠ .tcpV6Connect → a.segments = 0 → abandoned') :
    Tied P clock entry watch none abandoned' where
  past := h.past
  noted := h.noted
  started t n ha := by cases ha
  used b hb := by cases hb
  going t ht := by
    refine Or.inr ?_
    rcases h.going t ht with ⟨n, ha⟩ | hab
    · cases ha
      exact hnew (by simp) rfl
    · exact hold hab

end Tied

/-! ### The invariant of the kernel -/

def Kernel.Inv (P : Image) (w : Kernel) : Prop :=
  ∀ sk, Tied P w.kern.clock (w.kern.connect.lookup sk) (w.watch sk) (w.attempts.lookup sk)
    (sk ∈ w.abandoned)

theorem inv_boot (P : Image) (d : DataSection) : (Kernel.boot d).Inv P := by
  intro sk
  have hm : (Kernel.boot d).kern.connect.lookup sk = none := BoundedMap.lookup_empty sk
  have ha : (Kernel.boot d).attempts.lookup sk = none := AList.lookup_empty sk
  rw [hm, ha]
  exact Tied.stopped (by simp)

theorem watch_of_snoc {w w' : Kernel} {f : Firing} (h : w'.firings = w.firings ++ [f])
    (sk : SockPtr) : w'.watch sk = f.lap.next sk (w.watch sk) := by
  rw [Kernel.watch, h, List.map_append, List.map_singleton, pending_snoc]
  rfl

theorem lap_of_idle {f : Firing} (h : f.hook = .tcpSendmsg ∨
    (f.hook = .tcpRcvStateProcess ∧ f.call.sock.skcState ≠ tcpSynSent)) : f.lap = .idle := by
  rcases h with h | ⟨h, hs⟩
  · rw [Firing.lap, h, Hook.lap]
  · rw [Firing.lap, h, Hook.lap, if_neg hs]

theorem mem_filter_ne {sk k : SockPtr} {l : List SockPtr} (h : k ≠ sk) :
    (k ∈ l.filter (· ≠ sk)) = (k ∈ l) := by
  simp [h]

theorem inv_of_does {P : Image} {w w' : Kernel} (hi : w.Inv P) (h : w.Does P w') :
    w'.Inv P := by
  intro sk
  cases h with
  | socks h =>
    rw [h]
    exact hi sk
  | @startV4 c t event ht hd htime hclock hmap hatt hab hfir =>
    rw [watch_of_snoc hfir, hclock, hmap, hatt, hab]
    by_cases hk : sk = c.sk
    · subst hk
      have hroom : w.hasRoom c t = (((w.kern.connect.update c.sk (connectNote c t)).getD
          w.kern.connect).lookup c.sk).isSome := by
        rw [BoundedMap.lookup_getD_update_self, Kernel.hasRoom]
        split <;> simp_all
      rw [AList.lookup_insert, Firing.lap, Hook.lap, Lap.next, if_pos rfl, hroom]
      refine Tied.start hd fun pd hpd => ?_
      rw [BoundedMap.lookup_getD_update_self, Option.ite_none_right_eq_some] at hpd
      rw [← Option.some.inj hpd.2]
      rfl
    · rw [AList.lookup_insert_ne hk, BoundedMap.lookup_getD_update_of_ne _ _ hk, Firing.lap,
        Hook.lap, Lap.next, if_neg (Ne.symm hk), mem_filter_ne hk]
      exact (hi sk).later ht
  | @startV6 sk' hnew h =>
    rw [h]
    show Tied _ _ _ (w.watch sk) ((w.attempts.insert sk' _).lookup sk) _
    by_cases hk : sk = sk'
    · subst hk
      have := hi sk
      rw [AList.lookup_eq_none.mpr hnew] at this
      rw [AList.lookup_insert]
      exact this.unseen
    · rw [AList.lookup_insert_ne hk]
      exact hi sk
  | @segment c t o a event ht ha hs htime hclock hmap hatt hab hfir =>
    rw [watch_of_snoc hfir, hclock, hmap, hab, Firing.lap, Hook.lap, if_pos hs]
    by_cases hk : sk = c.sk
    · subst hk
      rw [BoundedMap.lookup_delete_self, Lap.next, if_pos rfl]
      refine Tied.stopped fun t' n ha' => ?_
      rcases hatt with hatt | hatt
      · rw [hatt, AList.lookup_insert] at ha'
        simp at ha'
      · rw [hatt, AList.lookup_erase] at ha'
        cases ha'
    · have hatt' : w'.attempts.lookup sk = w.attempts.lookup sk := by
        rcases hatt with hatt | hatt
        · rw [hatt, AList.lookup_insert_ne hk]
        · rw [hatt, AList.lookup_erase_ne hk]
      rw [hatt', BoundedMap.lookup_delete_of_ne _ hk, Lap.next, if_neg (Ne.symm hk),
        mem_filter_ne hk]
      exact (hi sk).later ht
  | @other h c t event ht htime hclock hmap hatt hab hidle hfir =>
    rw [watch_of_snoc hfir, hclock, hmap, hatt, hab, lap_of_idle hidle, Lap.next]
    exact (hi sk).later ht
  | dropped ht hd hclock hmap hfir hatt =>
    rw [Kernel.watch, hfir, hclock, hmap]
    exact (hi sk).drop ht hd (hatt sk)
  | @abandon sk' a ha h =>
    rw [h]
    show Tied _ _ _ (w.watch sk) ((w.attempts.erase sk').lookup sk) _
    by_cases hk : sk = sk'
    · subst hk
      have := hi sk
      rw [ha] at this
      rw [AList.lookup_erase]
      refine this.abandon (fun hab => ?_) (fun hv hseg => ?_)
      · split
        · exact List.mem_cons_of_mem _ hab
        · exact hab
      · rw [if_pos ⟨hv, hseg⟩]
        exact List.mem_cons_self
    · rw [AList.lookup_erase_ne hk]
      have hab : (sk ∈ if a.via ≠ .tcpV6Connect ∧ a.segments = 0 then sk' :: w.abandoned
          else w.abandoned) = (sk ∈ w.abandoned) := by
        split <;> simp [hk]
      rw [hab]
      exact hi sk

/-! ### What the events carry -/

/-- **What a firing reports.**  A time only for the first segment that the
attempt sees in `TCP_SYN_SENT`, measured from the latest connect hook on that
address that no segment has used up; for an attempt whose note is in the map,
that is its own start. -/
structure Firing.Accounted (pre : List Firing) (f : Firing) : Prop where
  source : f.event.tcpConnectTime ≠ 0 → ∃ a o t₀, f.seg = some (a, o) ∧ a.segments = 0 ∧
    Latest (pre.map Firing.lap) f.call.sk t₀ ∧ Due f.t f.event.tcpConnectTime t₀ ∧
    ∀ t n, a.via = .tcpV4Connect t n → t₀ = t
  timed : ∀ t o, f.seg = some (⟨.tcpV4Connect t true, 0⟩, o) → Due f.t f.event.tcpConnectTime t

theorem accounted_of_none {pre : List Firing} {f : Firing} (hseg : f.seg = none)
    (htime : f.event.tcpConnectTime = 0) : f.Accounted pre where
  source h := absurd htime h
  timed t o h := by
    rw [hseg] at h
    cases h

section Accounted

variable {P : Image} {clock t : UInt64} {entry : Option Piddata} {watch : Option UInt64}
  {a : Attempt} {abandoned : Prop}

/-- A note in the map gives the time since the watch was started, and the attempt
has not seen a segment before. -/
theorem Tied.time_of_note (h : Tied P clock entry watch (some a) abandoned) (ht : clock ≤ t)
    {pd : Piddata} (hpd : entry = some pd) :
    ∃ t₀, watch = some t₀ ∧ a.segments = 0 ∧ Due t (connectTime t entry) t₀ := by
  obtain ⟨t₀, hw, hts⟩ := h.noted pd hpd
  have hle := UInt64.le_trans (h.past t₀ hw).1 ht
  refine ⟨t₀, hw, ?_, ?_⟩
  · by_contra hs
    rw [h.used a rfl hs] at hw
    cases hw
  · rw [hpd, connectTime, hts]
    exact due_of_le hle

/-- An attempt whose note was written has its watch and its note until a segment comes. -/
theorem Tied.noted_of_started {t₀ : UInt64}
    (h : Tied P clock entry watch (some ⟨.tcpV4Connect t₀ true, 0⟩) abandoned) :
    watch = some t₀ ∧ ∃ pd, entry = some pd := by
  rcases h.started t₀ true rfl with ⟨hw, hnote⟩ | ⟨-, hn⟩
  · exact ⟨hw, hnote rfl⟩
  · cases hn

end Accounted

theorem accounted_segment {P : Image} {w : Kernel} {c : Call} {t : UInt64} {o : Outcome}
    {a : Attempt} {h : Hook} {room : Bool} {event : ClientEvent} (hi : w.Inv P)
    (ht : w.kern.clock ≤ t) (ha : w.attempts.lookup c.sk = some a)
    (htime : event.tcpConnectTime = connectTime t (w.kern.connect.lookup c.sk)) :
    Firing.Accounted w.firings ⟨h, c, t, some (a, o), room, event⟩ := by
  have htied := hi c.sk
  rw [ha] at htied
  constructor
  · intro hne
    obtain ⟨pd, hpd⟩ : ∃ pd, w.kern.connect.lookup c.sk = some pd := by
      rw [← Option.ne_none_iff_exists']
      intro hnone
      rw [hnone] at htime
      exact hne htime
    obtain ⟨t₀, hw, hseg, hdue⟩ := htied.time_of_note ht hpd
    refine ⟨a, o, t₀, rfl, hseg, pending_eq_some_iff.mp hw, htime ▸ hdue, fun t' n hvia => ?_⟩
    have hatt : some a = some ⟨.tcpV4Connect t' n, 0⟩ := by
      rw [← hvia, ← hseg]
    rcases htied.started t' n hatt with ⟨hw', -⟩ | ⟨hw', -⟩
    · exact Option.some.inj (hw.symm.trans hw')
    · cases hw.symm.trans hw'
  · intro t' o' hseg
    cases hseg
    obtain ⟨hw, pd, hpd⟩ := htied.noted_of_started
    obtain ⟨t₀, hw', -, hdue⟩ := htied.time_of_note ht hpd
    rw [hw] at hw'
    rw [htime, Option.some.inj hw']
    exact hdue

theorem accounted_of_does {P : Image} {w w' : Kernel} (hi : w.Inv P)
    (hl : Lawful Firing.Accounted w.firings) (h : w.Does P w') :
    Lawful Firing.Accounted w'.firings := by
  cases h with
  | socks h =>
    rw [h]
    exact hl
  | startV4 ht hd htime hclock hmap hatt hab hfir =>
    rw [hfir]
    exact hl.snoc (accounted_of_none rfl htime)
  | startV6 hnew h =>
    rw [h]
    exact hl
  | segment ht ha hs htime hclock hmap hatt hab hfir =>
    rw [hfir]
    exact hl.snoc (accounted_segment hi ht ha htime)
  | other ht htime hclock hmap hatt hab hidle hfir =>
    rw [hfir]
    exact hl.snoc (accounted_of_none rfl htime)
  | dropped ht hd hclock hmap hfir hatt =>
    rw [hfir]
    exact hl
  | abandon ha h =>
    rw [h]
    exact hl

section Runs

variable {P : Image} {d : DataSection} {steps : List KernelStep} {w : Kernel}

/-- The invariant and the account of the firings, in every state of every run. -/
theorem Kernel.inv_of_boot (hrun : (Kernel.boot d).run P steps = some w) :
    w.Inv P ∧ Lawful Firing.Accounted w.firings := by
  refine foldlM_induction (P := fun w => w.Inv P ∧ Lawful Firing.Accounted w.firings)
    (fun {w a w'} hw hstep => ?_) steps ⟨inv_boot P d, lawful_nil⟩ hrun
  have hdoes := step_does hstep
  exact ⟨inv_of_does hw.1 hdoes, accounted_of_does hw.1 hw.2 hdoes⟩

/-! ### Attribution -/

/-- The time of the event, if it has one, is that of the attempt that its segment
completes or refuses, measured from the start of this attempt through
`tcp_v4_connect`. -/
def Firing.Attributed (f : Firing) : Prop :=
  f.event.tcpConnectTime ≠ 0 → ∃ a o t n, f.seg = some (a, o) ∧ o ≠ .stays ∧
    a.via = .tcpV4Connect t n ∧ Due f.t f.event.tcpConnectTime t

/-- **Attribution, as the code has it.**  In every run, for any `targ_min_us`, an event
with a time is that of the first segment its attempt sees in `TCP_SYN_SENT`, and the time is
measured from the latest connect hook on that address not used up before: from
the start of this very attempt, if it was started through `tcp_v4_connect`. -/
theorem connectTime_attribution (hrun : (Kernel.boot d).run P steps = some w)
    {pre post : List Firing} {f : Firing} (hf : w.firings = pre ++ f :: post)
    (hne : f.event.tcpConnectTime ≠ 0) :
    ∃ a o t₀, f.seg = some (a, o) ∧ a.segments = 0 ∧ Latest (pre.map Firing.lap) f.call.sk t₀ ∧
      Due f.t f.event.tcpConnectTime t₀ ∧ ∀ t n, a.via = .tcpV4Connect t n → t₀ = t := by
  have hl := (Kernel.inv_of_boot hrun).2
  exact (hl pre f post hf).source hne

end Runs

/-- A connect, and its answer 1 ms later. -/
def answeredAttempt : List KernelStep :=
  [.alloc 1, .startV4 (exampleCall 1 7) 1000000, .segment (exampleCall 1 2) 2000000 .completes]

/-- A connect, and a segment 1 ms later that does not complete the handshake. -/
def straySegment : List KernelStep :=
  [.alloc 1, .startV4 (exampleCall 1 7) 1000000, .segment (exampleCall 1 2) 2000000 .stays]

/-- A connect times out, the socket is freed, and a socket at the same address
connects through `tcp_v6_connect`. -/
def reusedAddress : List KernelStep :=
  [.alloc 1, .startV4 (exampleCall 1 7) 1000000, .abandon 1, .free 1, .alloc 1, .startV6 1,
    .segment (exampleCall 1 2) 5000000 .completes]

def exampleKernel (steps : List KernelStep) : Option Kernel :=
  (Kernel.boot ⟨[]⟩).run ⟨fun _ => 0, 0⟩ steps

/-- A firing, as far as the times are concerned. -/
def Firing.times (f : Firing) : Bool × Option (Attempt × Outcome) × UInt64 :=
  (f.room, f.seg, f.event.tcpConnectTime)

/-- How an example is evaluated: if its firings have the given times, and the map
had room, there is a firing for each of them. -/
theorem exists_firing {steps : List KernelStep}
    {l : List (Bool × Option (Attempt × Outcome) × UInt64)}
    {seg : Option (Attempt × Outcome)} {time : UInt64}
    (h : (exampleKernel steps).map (fun w => w.firings.map Firing.times) = some l)
    (hroom : ∀ x ∈ l, x.1 = true) (hx : (true, seg, time) ∈ l) :
    ∃ w f, exampleKernel steps = some w ∧ (∀ g ∈ w.firings, g.room = true) ∧ f ∈ w.firings ∧
      f.event.tcpConnectTime = time ∧ f.seg = seg := by
  obtain ⟨w, hw, rfl⟩ := Option.map_eq_some_iff.mp h
  obtain ⟨f, hf, he⟩ := List.mem_map.mp hx
  have hrooms : ∀ g ∈ w.firings, g.room = true := by
    intro g hg
    exact hroom g.times (List.mem_map_of_mem hg)
  simp only [Firing.times, Prod.mk.injEq] at he
  exact ⟨w, f, hw, hrooms, hf, he.2.2, he.2.1⟩

theorem connectTime_attribution_answered :
    ∃ w pre f post, exampleKernel answeredAttempt = some w ∧ w.firings = pre ++ f :: post ∧
      f.event.tcpConnectTime = 1000 ∧
      ∃ a o t₀, f.seg = some (a, o) ∧ a.segments = 0 ∧
        Latest (pre.map Firing.lap) f.call.sk t₀ ∧ Due f.t f.event.tcpConnectTime t₀ ∧
        ∀ t n, a.via = .tcpV4Connect t n → t₀ = t := by
  have h : (exampleKernel answeredAttempt).map (fun w => w.firings.map Firing.times) =
      some [(true, none, 0), (true, some (⟨.tcpV4Connect 1000000 true, 0⟩, .completes), 1000)] := by
    rfl
  obtain ⟨w, f, hw, -, hf, htime, -⟩ :=
    exists_firing h (by simp) (List.Mem.tail _ (List.Mem.head _))
  obtain ⟨pre, post, hsplit⟩ := List.append_of_mem hf
  refine ⟨w, pre, f, post, hw, hsplit, htime, connectTime_attribution hw hsplit ?_⟩
  rw [htime]
  decide

/-- **Times that are not attributed.**  A segment that leaves the attempt in
`TCP_SYN_SENT` gets a time; so does the answer to an attempt that never went
through `tcp_v4_connect`, measured from an earlier owner of the address. -/
theorem connectTime_misattributed :
    (∃ w f, exampleKernel straySegment = some w ∧ (∀ g ∈ w.firings, g.room = true) ∧
      f ∈ w.firings ∧ f.event.tcpConnectTime = 1000 ∧
      f.seg = some (⟨.tcpV4Connect 1000000 true, 0⟩, .stays) ∧ ¬ f.Attributed) ∧
    ∃ w f, exampleKernel reusedAddress = some w ∧ (∀ g ∈ w.firings, g.room = true) ∧
      f ∈ w.firings ∧ f.event.tcpConnectTime = 4000 ∧
      f.seg = some (⟨.tcpV6Connect, 0⟩, .completes) ∧ ¬ f.Attributed := by
  constructor
  · have h : (exampleKernel straySegment).map (fun w => w.firings.map Firing.times) =
        some [(true, none, 0), (true, some (⟨.tcpV4Connect 1000000 true, 0⟩, .stays), 1000)] := by
      rfl
    obtain ⟨w, f, hw, hroom, hf, htime, hseg⟩ :=
      exists_firing h (by simp) (List.Mem.tail _ (List.Mem.head _))
    refine ⟨w, f, hw, hroom, hf, htime, hseg, fun hatt => ?_⟩
    obtain ⟨a, o, t, n, ha, ho, -⟩ := hatt (by rw [htime]; decide)
    rw [hseg] at ha
    cases ha
    exact ho rfl
  · have h : (exampleKernel reusedAddress).map (fun w => w.firings.map Firing.times) =
        some [(true, none, 0), (true, some (⟨.tcpV6Connect, 0⟩, .completes), 4000)] := by
      rfl
    obtain ⟨w, f, hw, hroom, hf, htime, hseg⟩ :=
      exists_firing h (by simp) (List.Mem.tail _ (List.Mem.head _))
    refine ⟨w, f, hw, hroom, hf, htime, hseg, fun hatt => ?_⟩
    obtain ⟨a, o, t, n, ha, -, hvia, -⟩ := hatt (by rw [htime]; decide)
    rw [hseg] at ha
    cases ha
    cases hvia

/-! ### What stays in the map -/

/-- The sockets that can have a note: their attempt is outstanding, or it ended
without a segment. -/
def Kernel.openSocks (w : Kernel) : Finset SockPtr := (w.attempts.keys ++ w.abandoned).toFinset

section Leaks

variable {P : Image} {d : DataSection} {steps : List KernelStep} {w : Kernel}

theorem mem_openSocks_of_lookup (hi : w.Inv P) {sk : SockPtr} {pd : Piddata}
    (h : w.kern.connect.lookup sk = some pd) : sk ∈ w.attempts ∨ sk ∈ w.abandoned := by
  obtain ⟨t, hw, -⟩ := (hi sk).noted pd h
  rcases (hi sk).going t hw with ⟨n, ha⟩ | hab
  · exact Or.inl (AList.lookup_isSome.mp (by rw [ha]; rfl))
  · exact Or.inr hab

theorem mem_openSocks {sk : SockPtr} : sk ∈ w.openSocks ↔ sk ∈ w.attempts ∨ sk ∈ w.abandoned := by
  rw [Kernel.openSocks, List.mem_toFinset, List.mem_append, AList.mem_keys]

theorem hasRoom_of_card (hi : w.Inv P) {c : Call} (t : UInt64)
    (hcard : (w.openSocks.erase c.sk).card < connectMaxEntries) : w.hasRoom c t = true := by
  refine BoundedMap.isSome_update_of_subset (fun sk hsk hne => ?_) hcard _
  obtain ⟨pd, hpd⟩ := BoundedMap.mem_keys_iff.mp hsk
  exact Finset.mem_erase.mpr ⟨hne, mem_openSocks.mpr (mem_openSocks_of_lookup hi hpd)⟩

/-- The first segment of an attempt whose note was written is reported. -/
theorem exists_firing_segment (hi : w.Inv P) {c : Call} {t t₀ : UInt64} {o : Outcome}
    {w' : Kernel} (ha : w.attempts.lookup c.sk = some ⟨.tcpV4Connect t₀ true, 0⟩)
    (hstep : w.step P (.segment c t o) = some w') :
    ∃ f, w'.firings = w.firings ++ [f] ∧ f.seg = some (⟨.tcpV4Connect t₀ true, 0⟩, o) ∧
      f.t = t ∧ f.Accounted w.firings := by
  rw [Kernel.step, ha] at hstep
  simp only [Option.ite_none_right_eq_some, Option.map_eq_some_iff] at hstep
  obtain ⟨hs, w₁, hf, rfl⟩ := hstep
  have ht := clock_le_of_fire hf
  have htied := hi c.sk
  rw [ha] at htied
  have hd := htied.not_drops ht htied.noted_of_started.1
  obtain ⟨d, event, htime, rfl⟩ := fire_synSent hd hs hf
  exact ⟨_, rfl, rfl, rfl, accounted_segment hi ht ha htime⟩

/-- **What the map holds.**  In every state of every run each key is a socket
whose attempt is outstanding, or was abandoned and not taken up since.  So the
update does not fail while fewer than 4096 other sockets are of these two kinds.  And
every attempt started then is timed by its first segment, unless its connect hook
returns at once for `targ_min_us`. -/
theorem connect_keys_open (hrun : (Kernel.boot d).run P steps = some w) :
    (∀ sk ∈ w.kern.connect.keys, sk ∈ w.attempts ∨ sk ∈ w.abandoned) ∧
      (∀ c t, (w.openSocks.erase c.sk).card < connectMaxEntries → w.hasRoom c t = true) ∧
      (∀ c t w', ¬ P.drops t → (w.openSocks.erase c.sk).card < connectMaxEntries →
        w.step P (.startV4 c t) = some w' →
          w'.attempts.lookup c.sk = some ⟨.tcpV4Connect t true, 0⟩) ∧
      (∀ c t t₀ o w', w.attempts.lookup c.sk = some ⟨.tcpV4Connect t₀ true, 0⟩ →
        w.step P (.segment c t o) = some w' →
          ∃ f, w'.firings = w.firings ++ [f] ∧ Due t f.event.tcpConnectTime t₀) ∧
      ∀ f ∈ w.firings, ∀ t o, f.seg = some (⟨.tcpV4Connect t true, 0⟩, o) →
        Due f.t f.event.tcpConnectTime t := by
  obtain ⟨hi, hl⟩ := Kernel.inv_of_boot hrun
  refine ⟨fun sk hsk => ?_, fun c t => hasRoom_of_card hi t, fun c t w' hd hcard hstep => ?_,
    fun c t t₀ o w' ha hstep => ?_, fun f hf t o hseg => ?_⟩
  · obtain ⟨pd, hpd⟩ := BoundedMap.mem_keys_iff.mp hsk
    exact mem_openSocks_of_lookup hi hpd
  · rw [Kernel.step, Option.ite_none_right_eq_some, Option.map_eq_some_iff] at hstep
    obtain ⟨-, w₁, -, rfl⟩ := hstep
    rw [hasRoom_of_card hi t hcard, decide_eq_false hd]
    exact AList.lookup_insert _
  · obtain ⟨f, hf, hseg, rfl, hacc⟩ := exists_firing_segment hi ha hstep
    exact ⟨f, hf, hacc.timed t₀ o hseg⟩
  · obtain ⟨pre, post, hsplit⟩ := List.append_of_mem hf
    exact (hl pre f post hsplit).timed t o hseg

end Leaks

/-- A connect that gets no answer. -/
def unanswered : List KernelStep :=
  [.alloc 1, .startV4 (exampleCall 1 7) 1000000, .abandon 1]

/-- `targ_min_us = 1500`. -/
def lateImage : Image := ⟨fun _ => 0, 1500⟩

/-- The note of a connect without an answer is one of an abandoned attempt; and a connect
after `targ_min_us` is timed by its answer. -/
theorem connect_keys_open_unanswered :
    (∃ w, exampleKernel unanswered = some w ∧ w.kern.connect.keys = [1] ∧
      ∀ sk ∈ w.kern.connect.keys, sk ∈ w.attempts ∨ sk ∈ w.abandoned) ∧
    ∃ w w' f, (Kernel.boot ⟨[]⟩).run lateImage
        [.alloc 1, .startV4 (exampleCall 1 7) 2000000] = some w ∧
      w.step lateImage (.segment (exampleCall 1 2) 3000000 .completes) = some w' ∧
      w'.firings = w.firings ++ [f] ∧ Due 3000000 f.event.tcpConnectTime 2000000 := by
  constructor
  · have h : (exampleKernel unanswered).map (fun w => w.kern.connect.keys) = some [1] := by
      rfl
    obtain ⟨w, hw, hkeys⟩ := Option.map_eq_some_iff.mp h
    exact ⟨w, hw, hkeys, (connect_keys_open hw).1⟩
  · have h : ((Kernel.boot ⟨[]⟩).run lateImage
        [.alloc 1, .startV4 (exampleCall 1 7) 2000000]).map (fun w => (w.attempts.lookup 1,
          (w.step lateImage (.segment (exampleCall 1 2) 3000000 .completes)).isSome)) =
        some (some ⟨.tcpV4Connect 2000000 true, 0⟩, true) := by
      rfl
    obtain ⟨w, hw, he⟩ := Option.map_eq_some_iff.mp h
    obtain ⟨hatt, hsome⟩ := Prod.mk.inj he
    obtain ⟨w', hstep⟩ := Option.isSome_iff_exists.mp hsome
    obtain ⟨f, hf, hdue⟩ :=
      (connect_keys_open hw).2.2.2.1 (exampleCall 1 2) 3000000 2000000 .completes w' hatt hstep
    exact ⟨w, w', f, hw, hstep, hf, hdue⟩

/-- **A leaked note**: the attempt is over, and its socket is still a key. -/
theorem connect_key_leaked :
    ∃ w sk, exampleKernel unanswered = some w ∧ sk ∈ w.kern.connect.keys ∧
      w.attempts.lookup sk = none := by
  have h : (exampleKernel unanswered).map
      (fun w => (w.kern.connect.keys, w.attempts.lookup 1)) = some ([1], none) := by
    rfl
  obtain ⟨w, hw, he⟩ := Option.map_eq_some_iff.mp h
  obtain ⟨hkeys, hatt⟩ := Prod.mk.inj he
  exact ⟨w, 1, hw, by simp [hkeys], hatt⟩

end NetworkAnalyse.Ebpf.Client
