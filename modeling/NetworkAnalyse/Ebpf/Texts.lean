import NetworkAnalyse.Ebpf.MinUs
import NetworkAnalyse.Ebpf.Service
import NetworkAnalyse.Lib.CharArray

/-!
# The texts of an event

An event has three texts: `func`, `tcp_state` and `tcp_description`.  Each is a copy
of a fixed number of bytes from the place of a string constant, and so takes in the
bytes after the constant as well.  The client's `handle_tcp_rcv_state_process`
moreover appends to the constant that it copies.

* `copy_eq_iff`: which bytes the texts depend on.
* `load_describe`: the constants after an append.
* `texts_eq_iff`: when two runs give the same texts to the same firing.
* `texts_depend_on_memory`: two pairs of runs that do not.
-/

namespace NetworkAnalyse.Ebpf

open Lib
open CharArray (text)

structure Texts where
  func : Vector UInt8 taskFuncLen
  tcpState : Vector UInt8 tcpStateLen
  tcpDescription : Vector UInt8 tcpDescriptionLen
  deriving DecidableEq

def Event.texts (e : Event) : Texts := ⟨e.func, e.tcpState, e.tcpDescription⟩

@[simp] theorem texts_fill (c : Call) (t : UInt64) (e : Event) : (e.fill c t).texts = e.texts := by
  unfold Event.fill Event.fillAddr
  split <;> rfl

/-- The names that an event is described with. -/
structure Names where
  func : String
  tcpState : String
  tcpDescription : String

namespace Names

variable (N : Names)

/-- The texts as they are copied from the constants `d`. -/
def copy (lit : String → Nat) (d : DataSection) : Texts :=
  ⟨d.memcpy (lit N.func) _, d.memcpy (lit N.tcpState) _, d.memcpy (lit N.tcpDescription) _⟩

/-- The addresses that are read for the copies. -/
def Copied (lit : String → Nat) (a : Nat) : Prop :=
  (lit N.func ≤ a ∧ a < lit N.func + taskFuncLen) ∨
  (lit N.tcpState ≤ a ∧ a < lit N.tcpState + tcpStateLen) ∨
  (lit N.tcpDescription ≤ a ∧ a < lit N.tcpDescription + tcpDescriptionLen)

end Names

theorem memcpy_eq_iff_forall {d d' : DataSection} {src n : Nat} :
    d.memcpy src n = d'.memcpy src n ↔ ∀ a, src ≤ a ∧ a < src + n → d.load a = d'.load a := by
  rw [DataSection.memcpy_eq_iff]
  constructor
  · intro h a ha
    have hi := h (a - src) (by omega)
    rwa [Nat.add_sub_cancel' ha.1] at hi
  · intro h i hi
    exact h (src + i) (by omega)

/-- The texts depend on all bytes copied, those after the constants included. -/
theorem copy_eq_iff {N : Names} {lit : String → Nat} {d d' : DataSection} :
    N.copy lit d = N.copy lit d' ↔ ∀ a, N.Copied lit a → d.load a = d'.load a := by
  rw [Names.copy, Names.copy, Texts.mk.injEq, memcpy_eq_iff_forall, memcpy_eq_iff_forall,
    memcpy_eq_iff_forall]
  constructor
  · rintro ⟨hf, hs, hd⟩ a (ha | ha | ha)
    · exact hf a ha
    · exact hs a ha
    · exact hd a ha
  · intro h
    exact ⟨fun a ha => h a (Or.inl ha), fun a ha => h a (Or.inr (Or.inl ha)),
      fun a ha => h a (Or.inr (Or.inr ha))⟩

/-- The names of `get_tcp_state`. -/
def stateNames : List String :=
  ["TCP_ESTABLISHED", "TCP_SYN_SENT", "TCP_SYN_RECV", "TCP_FIN_WAIT1", "TCP_FIN_WAIT2",
    "TCP_TIME_WAIT", "TCP_CLOSE", "TCP_CLOSE_WAIT", "TCP_LAST_ACK", "TCP_LISTEN", "TCP_CLOSING",
    "TCP_NEW_SYN_RECV", "UNKNOWN_STATE"]

theorem getTcpState_mem (state : UInt8) : getTcpState state ∈ stateNames := by
  unfold getTcpState
  split <;> decide

/-- The section holds the constants of a program, each at its own offset, and
extends beyond the bytes that are copied from there. -/
def Laid (constants : List String) (lit : String → Nat) (d : DataSection) : Prop :=
  ∀ c ∈ constants, d.StringAt (lit c) (cstr c) ∧ lit c + tcpDescriptionLen ≤ d.bytes.length

instance (constants : List String) (lit : String → Nat) (d : DataSection) :
    Decidable (Laid constants lit d) := inferInstanceAs (Decidable (∀ c ∈ constants, _ ∧ _))

/-- The firing `i` emits the event `e` in the state `s`. -/
def Emits {ε τ : Type} (tick : Kern ε → τ → Option (Kern ε)) (s : Kern ε) (i : τ) (e : ε) : Prop :=
  ∃ s' buf, tick s i = some s' ∧ s'.out = s.out ++ [(buf, e)]

/-! ### The service -/

namespace Service

def constants : List String :=
  ["tcp_rcv_state_process", "tcp_v4_do_rcv", "tcp_recvmsg", "tcp_v4_rcv", "server state change",
    "rcv ack", "server receive message", "server receive SYN packet"] ++ stateNames

def Tick.names (i : Tick) : Names :=
  ⟨i.hook.func, getTcpState i.call.sock.skcState, i.hook.description⟩

variable {P : Image} {s s' : Kern Event} {i : Tick} {e : Event}

theorem rodata_of_tick (h : tick P s i = some s') : s'.rodata = s.rodata := by
  have ht := clock_le_of_tick h
  by_cases hd : P.drops i.t
  · rw [tick_of_drops ht hd] at h
    cases h
    rfl
  · obtain ⟨buf, heq⟩ := tick_eq ht hd
    rw [heq] at h
    cases h
    rfl

theorem rodata_of_ticks {l : List Tick} (h : ticks P s l = some s') : s'.rodata = s.rodata := by
  refine foldlM_induction (P := fun s' => s'.rodata = s.rodata) ?_ l rfl h
  intro s₁ j s₂ ih hj
  rw [rodata_of_tick hj, ih]

theorem texts_of_emits (h : Emits (tick P) s i e) : e.texts = i.names.copy P.lit s.rodata := by
  obtain ⟨s', buf, htick, hout⟩ := h
  have ht := clock_le_of_tick htick
  by_cases hd : P.drops i.t
  · rw [tick_of_drops ht hd] at htick
    cases htick
    exact absurd hout (by simp)
  · obtain ⟨buf', heq⟩ := tick_eq ht hd
    rw [heq] at htick
    cases htick
    obtain ⟨-, rfl⟩ : buf' = buf ∧ i.event P.lit s.rodata = e := by simpa using hout
    rw [Tick.event, texts_fill]
    rfl

end Service

/-! ### The client -/

namespace Client

def constants : List String :=
  ["tcp_rcv_state_process", "tcp_v4_connect", "tcp_sendmsg", "transfer into new state",
    "client send SYN packet", "client send message"] ++ stateNames

namespace Hook

def func : Hook → String
  | tcpRcvStateProcess => "tcp_rcv_state_process"
  | tcpV4Connect => "tcp_v4_connect"
  | tcpSendmsg => "tcp_sendmsg"

def description : Hook → String
  | tcpRcvStateProcess => "transfer into new state"
  | tcpV4Connect => "client send SYN packet"
  | tcpSendmsg => "client send message"

end Hook

def Tick.names (i : Tick) : Names :=
  ⟨i.hook.func, getTcpState i.call.sock.skcState, i.hook.description⟩

/-- No `handle_tcp_rcv_state_process` came past the threshold. -/
def Quiet (m : UInt64) (l : List Tick) : Prop :=
  ∀ j ∈ l, j.hook = .tcpRcvStateProcess → j.t / 1000 < m

/-- The firing itself writes at `a`: the end of its description and the name of the
state after it. -/
def Tick.Appends (i : Tick) (lit : String → Nat) (a : Nat) : Prop :=
  i.hook = .tcpRcvStateProcess ∧
    lit "transfer into new state" + (cstr "transfer into new state").length ≤ a ∧
    a ≤ lit "transfer into new state" + (cstr "transfer into new state").length +
      (cstr (getTcpState i.call.sock.skcState)).length

section Append

variable {lit : String → Nat} {d : DataSection}

theorem not_suffix_description : ∀ n ∈ stateNames,
    ¬ cstr n <:+ cstr "transfer into new state" ∧ ¬ cstr "transfer into new state" <:+ cstr n := by
  decide +kernel

theorem length_stateNames : ∀ n ∈ stateNames, (cstr n).length ≤ 16 := by decide +kernel

theorem length_description : (cstr "transfer into new state").length = 23 := by decide +kernel

theorem state_mem_constants (state : UInt8) : getTcpState state ∈ constants :=
  List.mem_append_right _ (getTcpState_mem state)

theorem description_mem_constants : "transfer into new state" ∈ constants := by decide

/-- The append writes the name of the state behind the description. -/
theorem describe_eq (hd : Laid constants lit d) (c : Call) :
    describe lit c d = d.write
      (lit "transfer into new state" + (cstr "transfer into new state").length)
      (cstr (getTcpState c.sock.skcState) ++ [0]) := by
  have hdst := (hd _ description_mem_constants).1
  have hsrc := (hd _ (state_mem_constants c.sock.skcState)).1
  obtain ⟨hst, hts⟩ := not_suffix_description _ (getTcpState_mem c.sock.skcState)
  refine DataSection.strcat_eq hdst hsrc ?_
  rcases hdst.disjoint hsrc hts hst with h | h <;> omega

theorem load_describe_of_not (hd : Laid constants lit d) {i : Tick}
    (hi : i.hook = .tcpRcvStateProcess) {a : Nat} (ha : ¬ i.Appends lit a) :
    (describe lit i.call d).load a = d.load a := by
  rw [describe_eq hd]
  by_cases hlt : a < lit "transfer into new state" + (cstr "transfer into new state").length
  · exact DataSection.load_write_of_lt _ hlt
  · refine DataSection.load_write_of_le ?_
    rw [List.length_append, List.length_singleton]
    by_contra hle
    exact ha ⟨hi, by omega, by omega⟩

/-- What the append writes does not depend on the bytes that were there. -/
theorem load_describe (hd : Laid constants lit d) {i : Tick} {a : Nat} (ha : i.Appends lit a) :
    (describe lit i.call d).load a = (cstr (getTcpState i.call.sock.skcState) ++ [0]).getD
      (a - (lit "transfer into new state" + (cstr "transfer into new state").length)) 0 := by
  obtain ⟨-, hle, hge⟩ := ha
  have hfits := (hd _ description_mem_constants).2
  have hname := length_stateNames _ (getTcpState_mem i.call.sock.skcState)
  have hdesc := length_description
  rw [describe_eq hd]
  have hlen : tcpDescriptionLen = 128 := rfl
  refine (congrArg _ (Nat.add_sub_cancel' hle).symm).trans (DataSection.load_write ?_ ?_)
  · rw [List.length_append, List.length_singleton]
    omega
  · omega

/-- After one append to the constant as it was loaded, the description is its text and
the name of the state. -/
theorem text_describe (hd : Laid constants lit d) (c : Call) :
    text ((describe lit c d).memcpy (lit "transfer into new state") tcpDescriptionLen) =
      cstr "transfer into new state" ++ cstr (getTcpState c.sock.skcState) := by
  obtain ⟨hdst, hfits⟩ := hd _ description_mem_constants
  have hsrc := (hd _ (state_mem_constants c.sock.skcState)).1
  have hname := length_stateNames _ (getTcpState_mem c.sock.skcState)
  have hdesc := length_description
  have hlen : tcpDescriptionLen = 128 := rfl
  rw [describe_eq hd]
  refine DataSection.StringAt.takeWhile_memcpy (hdst.append hsrc.not_mem_zero (by omega)) ?_
  rw [List.length_append]
  omega

end Append

section Run

variable {P : Image} {s s' : Kern ClientEvent} {i : Tick} {e : ClientEvent}

theorem ticks_singleton : ticks P s [i] = tick P s i := by
  rw [ticks, List.foldlM_cons]
  exact bind_pure _

theorem rodata_of_tick (hi : i.hook = .tcpRcvStateProcess → P.drops i.t)
    (h : tick P s i = some s') : s'.rodata = s.rodata := by
  have ht := clock_le_of_tick h
  by_cases hd : P.drops i.t
  · rw [tick_of_drops ht hd] at h
    cases h
    rfl
  · obtain ⟨m, heq, -⟩ := tick_eq ht hd
    rw [heq] at h
    cases h
    show i.constants P.lit s.rodata = s.rodata
    unfold Tick.constants
    split
    · exact absurd (hi ‹_›) hd
    · rfl

/-- Without an append the constants stay as they were loaded. -/
theorem rodata_of_ticks {lit : String → Nat} {m : UInt64} {l : List Tick} (hq : Quiet m l)
    (h : ticks ⟨lit, m⟩ s l = some s') : s'.rodata = s.rodata := by
  induction l generalizing s with
  | nil =>
    cases h
    rfl
  | cons j l ih =>
    rw [ticks, List.foldlM_cons, Option.bind_eq_bind, Option.bind_eq_some_iff] at h
    obtain ⟨s₁, hs₁, h⟩ := h
    have hj := rodata_of_tick (fun hj => drops_iff.mpr (hq j List.mem_cons_self hj)) hs₁
    rw [ih (fun k hk => hq k (List.mem_cons_of_mem j hk)) h, hj]

/-- Firings in the order of their times are a run. -/
theorem exists_ticks (lit : String → Nat) {l : List Tick} (hl : l.Pairwise (·.t ≤ ·.t))
    (hs : ∀ j ∈ l, s.clock ≤ j.t) :
    ∃ s', ticks ⟨lit, 0⟩ s l = some s' ∧
      ∀ t, s.clock ≤ t → (∀ j ∈ l, j.t ≤ t) → s'.clock ≤ t := by
  induction l generalizing s with
  | nil => exact ⟨s, rfl, fun t ht _ => ht⟩
  | cons j l ih =>
    obtain ⟨hj, hl⟩ := List.pairwise_cons.mp hl
    obtain ⟨m, heq, -⟩ := tick_eq (P := ⟨lit, 0⟩) (hs j List.mem_cons_self)
      (not_drops_zero lit j.t)
    obtain ⟨s', hrun, hclock⟩ := ih hl (s := { s with
      clock := j.t
      rodata := j.constants lit s.rodata
      connect := m
      out := s.out ++ [j.event lit (j.constants lit s.rodata)
        (j.time (s.connect.lookup j.call.sk))] }) hj
    refine ⟨s', ?_, fun t _ ht => ?_⟩
    · rw [ticks, List.foldlM_cons, heq]
      exact hrun
    · obtain ⟨htj, htl⟩ := List.forall_mem_cons.mp ht
      exact hclock t htj htl

/-- One segment after the program is loaded. -/
theorem exists_ticks_rcv (lit : String → Nat) (d : DataSection)
    (hi : i.hook = .tcpRcvStateProcess) (hs : i.call.sock.skcState ≠ tcpSynSent) :
    ∃ s, ticks ⟨lit, 0⟩ (Kern.boot d) [i] = some s ∧ s.clock = i.t ∧
      s.rodata = describe lit i.call d ∧
      ∀ k, s.connect.lookup k = (Kern.boot d : Kern ClientEvent).connect.lookup k := by
  obtain ⟨h, c, t⟩ := i
  cases hi
  exact ⟨_, ticks_singleton.trans
    (invoke_rcv_of_ne UInt64.zero_le (not_drops_zero lit t) hs), rfl, rfl, fun _ => rfl⟩

theorem texts_event (lit : String → Nat) (d : DataSection) (dt : UInt64) :
    (i.event lit d dt).2.texts = i.names.copy lit d := by
  obtain ⟨h, c, t⟩ := i
  cases h <;> exact texts_fill _ _ _

theorem texts_of_emits (h : Emits (tick P) s i e) :
    e.texts = i.names.copy P.lit (i.constants P.lit s.rodata) := by
  obtain ⟨s', buf, htick, hout⟩ := h
  have ht := clock_le_of_tick htick
  by_cases hd : P.drops i.t
  · rw [tick_of_drops ht hd] at htick
    cases htick
    exact absurd hout (by simp)
  · obtain ⟨m, heq, -⟩ := tick_eq ht hd
    rw [heq] at htick
    cases htick
    have hlast := List.append_cancel_left hout
    rw [← texts_event, List.cons.inj hlast |>.1]

end Run

/-- The bytes that the firing copies without having written them are the same. -/
def Tick.SameBytes (i : Tick) (lit : String → Nat) (d₁ d₂ : DataSection) : Prop :=
  ∀ a, i.names.Copied lit a → ¬ i.Appends lit a → d₁.load a = d₂.load a

theorem copy_constants_eq_iff {lit : String → Nat} {d₁ d₂ : DataSection} {i : Tick}
    (h₁ : Laid constants lit d₁) (h₂ : Laid constants lit d₂) :
    i.names.copy lit (i.constants lit d₁) = i.names.copy lit (i.constants lit d₂) ↔
      i.SameBytes lit d₁ d₂ := by
  rw [copy_eq_iff]
  by_cases hi : i.hook = .tcpRcvStateProcess
  · have hc : ∀ d, i.constants lit d = describe lit i.call d := by
      intro d
      rw [Tick.constants, hi]
    rw [hc, hc]
    constructor
    · intro h a ha hna
      rw [← load_describe_of_not h₁ hi hna, h a ha, load_describe_of_not h₂ hi hna]
    · intro h a ha
      by_cases happ : i.Appends lit a
      · rw [load_describe h₁ happ, load_describe h₂ happ]
      · rw [load_describe_of_not h₁ hi happ, h a ha happ, load_describe_of_not h₂ hi happ]
  · have hc : ∀ d, i.constants lit d = d := by
      intro d
      unfold Tick.constants
      split
      · contradiction
      · rfl
    rw [hc, hc]
    constructor
    · intro h a ha _
      exact h a ha
    · intro h a ha
      exact h a ha fun happ => hi happ.1

end Client

theorem Service.emits (lit : String → Nat) (d : DataSection) (i : Service.Tick) :
    ∃ e, Emits (Service.tick ⟨lit, 0⟩) (Kern.boot d) i e := by
  obtain ⟨buf, heq⟩ := Service.tick_eq (P := ⟨lit, 0⟩) (s := Kern.boot d) (i := i)
    UInt64.zero_le (Client.not_drops_zero lit i.t)
  exact ⟨_, _, buf, heq, rfl⟩

theorem Client.emits (lit : String → Nat) {s : Kern ClientEvent} {i : Client.Tick}
    (ht : s.clock ≤ i.t) : ∃ e, Emits (Client.tick ⟨lit, 0⟩) s i e := by
  obtain ⟨m, heq, -⟩ := Client.tick_eq (P := ⟨lit, 0⟩) ht (not_drops_zero lit i.t)
  exact ⟨_, _, _, heq, rfl⟩

/-! ### Two runs -/

/-- **When two runs give the same texts to the same firing**, whatever fired before and
whatever the thresholds are.  The client's constants have to be as they were loaded in
both runs; then the texts are the same exactly if the sections agree on the bytes
copied, and a description is the text of its constant and the name of the state. -/
theorem texts_eq_iff (lit : String → Nat) (m₁ m₂ : UInt64) (d₁ d₂ : DataSection) :
    (∀ {l₁ l₂ : List Client.Tick} {s₁ s₂ : Kern ClientEvent} {i : Client.Tick}
        {e₁ e₂ : ClientEvent},
      Laid Client.constants lit d₁ → Laid Client.constants lit d₂ →
      Client.ticks ⟨lit, m₁⟩ (Kern.boot d₁) l₁ = some s₁ →
      Client.ticks ⟨lit, m₂⟩ (Kern.boot d₂) l₂ = some s₂ →
      Client.Quiet m₁ l₁ → Client.Quiet m₂ l₂ →
      Emits (Client.tick ⟨lit, m₁⟩) s₁ i e₁ → Emits (Client.tick ⟨lit, m₂⟩) s₂ i e₂ →
      (e₁.texts = e₂.texts ↔ i.SameBytes lit d₁ d₂) ∧
        (i.hook = .tcpRcvStateProcess → text e₁.tcpDescription =
          cstr "transfer into new state" ++ cstr (getTcpState i.call.sock.skcState))) ∧
    (∀ {l₁ l₂ : List Service.Tick} {s₁ s₂ : Kern Event} {i : Service.Tick} {e₁ e₂ : Event},
      Service.ticks ⟨lit, m₁⟩ (Kern.boot d₁) l₁ = some s₁ →
      Service.ticks ⟨lit, m₂⟩ (Kern.boot d₂) l₂ = some s₂ →
      Emits (Service.tick ⟨lit, m₁⟩) s₁ i e₁ → Emits (Service.tick ⟨lit, m₂⟩) s₂ i e₂ →
      (e₁.texts = e₂.texts ↔ ∀ a, i.names.Copied lit a → d₁.load a = d₂.load a)) := by
  constructor
  · intro l₁ l₂ s₁ s₂ i e₁ e₂ hd₁ hd₂ h₁ h₂ hq₁ hq₂ he₁ he₂
    have hs₁ : s₁.rodata = d₁ := Client.rodata_of_ticks hq₁ h₁
    have hs₂ : s₂.rodata = d₂ := Client.rodata_of_ticks hq₂ h₂
    have ht₁ := Client.texts_of_emits he₁
    have ht₂ := Client.texts_of_emits he₂
    rw [hs₁] at ht₁
    rw [hs₂] at ht₂
    constructor
    · rw [ht₁, ht₂]
      exact Client.copy_constants_eq_iff hd₁ hd₂
    · intro hi
      have hdesc : e₁.tcpDescription = _ := congrArg Texts.tcpDescription ht₁
      rw [hdesc, ← Client.text_describe hd₁ i.call]
      simp only [Names.copy, Client.Tick.names, Client.Tick.constants, hi, Client.Hook.description]
  · intro l₁ l₂ s₁ s₂ i e₁ e₂ h₁ h₂ he₁ he₂
    have hs₁ : s₁.rodata = d₁ := Service.rodata_of_ticks h₁
    have hs₂ : s₂.rodata = d₂ := Service.rodata_of_ticks h₂
    rw [Service.texts_of_emits he₁, Service.texts_of_emits he₂, hs₁, hs₂]
    exact copy_eq_iff

/-- The constants one after the other, 48 bytes apart, with `fill` after each. -/
def layOut (constants : List String) (fill : UInt8) : DataSection :=
  ⟨constants.flatMap (fun c => cstr c ++ 0 :: List.replicate (47 - (cstr c).length) fill) ++
    List.replicate 80 fill⟩

def offset (constants : List String) (c : String) : Nat := 48 * constants.idxOf c

theorem laid_layOut {constants : List String}
    (h : ∀ c ∈ constants, (0 : UInt8) ∉ cstr c ∧ (cstr c).length ≤ 47) (fill : UInt8) :
    Laid constants (offset constants) (layOut constants fill) := by
  induction constants with
  | nil => exact fun c hc => absurd hc List.not_mem_nil
  | cons x l ih =>
    obtain ⟨hx, hl⟩ := List.forall_mem_cons.mp h
    obtain ⟨cell, hdef⟩ : ∃ cell,
        cell = cstr x ++ 0 :: List.replicate (47 - (cstr x).length) fill := ⟨_, rfl⟩
    have hcell : cell.length = 48 := by
      rw [hdef, List.length_append, List.length_cons, List.length_replicate]
      omega
    have hbytes : (layOut (x :: l) fill).bytes = cell ++ (layOut l fill).bytes := by
      rw [layOut, layOut, List.flatMap_cons, List.append_assoc, hdef]
    intro c hc
    by_cases hcx : x = c
    · subst hcx
      rw [offset, List.idxOf_cons_self, Nat.mul_zero]
      constructor
      · rw [layOut, List.flatMap_cons, List.append_assoc, List.append_assoc, List.cons_append]
        exact DataSection.stringAt_zero hx.1 _
      · have htail : 80 ≤ (layOut l fill).bytes.length := by
          rw [layOut, List.length_append, List.length_replicate]
          omega
        have hlen : tcpDescriptionLen = 128 := rfl
        rw [hbytes, List.length_append]
        omega
    · obtain ⟨hs, hin⟩ := ih hl c (List.mem_of_ne_of_mem (Ne.symm hcx) hc)
      have hoff : offset (x :: l) c = cell.length + offset l c := by
        rw [offset, offset, List.idxOf_cons_ne _ hcx, hcell]
        omega
      have heq : layOut (x :: l) fill = ⟨cell ++ (layOut l fill).bytes⟩ :=
        congrArg DataSection.mk hbytes
      rw [hoff, heq]
      refine ⟨hs.shift cell, ?_⟩
      show _ ≤ (cell ++ (layOut l fill).bytes).length
      rw [List.length_append, Nat.add_assoc]
      exact Nat.add_le_add_left hin _

theorem laid_client (fill : UInt8) :
    Laid Client.constants (offset Client.constants) (layOut Client.constants fill) :=
  laid_layOut (by decide +kernel) fill

theorem laid_service (fill : UInt8) :
    Laid Service.constants (offset Service.constants) (layOut Service.constants fill) :=
  laid_layOut (by decide +kernel) fill

/-- A segment of an established connection. -/
def exampleRcv (t : UInt64) : Client.Tick := ⟨.tcpRcvStateProcess, Client.exampleCall 1 1, t⟩

def exampleDoRcv : Service.Tick := ⟨.tcpV4DoRcv, Client.exampleCall 1 1, 1000000⟩

/-- The connect and a send on the connection, before the segment. -/
def exampleBefore : List Client.Tick :=
  [⟨.tcpV4Connect, Client.exampleCall 1 7, 400000⟩, ⟨.tcpSendmsg, Client.exampleCall 1 1, 600000⟩]

theorem texts_eq_iff_example :
    ∃ s e₁ e₂, Client.ticks ⟨offset Client.constants, 0⟩
        (Kern.boot (layOut Client.constants 0)) exampleBefore = some s ∧
      Emits (Client.tick ⟨offset Client.constants, 0⟩) s (exampleRcv 1000000) e₁ ∧
      Emits (Client.tick ⟨offset Client.constants, 0⟩)
        (Kern.boot (layOut Client.constants 88)) (exampleRcv 1000000) e₂ ∧
      (e₁.texts = e₂.texts ↔ (exampleRcv 1000000).SameBytes (offset Client.constants)
        (layOut Client.constants 0) (layOut Client.constants 88)) ∧
      text e₁.tcpDescription = cstr "transfer into new stateTCP_ESTABLISHED" := by
  obtain ⟨s, hs, hclock⟩ := Client.exists_ticks (offset Client.constants)
    (s := Kern.boot (layOut Client.constants 0)) (l := exampleBefore) (by decide)
    (fun j _ => UInt64.zero_le)
  obtain ⟨e₁, he₁⟩ := Client.emits (offset Client.constants) (s := s)
    (i := exampleRcv 1000000) (hclock 1000000 UInt64.zero_le (by decide))
  obtain ⟨e₂, he₂⟩ := Client.emits (offset Client.constants)
    (s := Kern.boot (layOut Client.constants 88)) (i := exampleRcv 1000000) UInt64.zero_le
  have hq₁ : Client.Quiet 0 exampleBefore := by
    intro j hj hrcv
    simp only [exampleBefore, List.mem_cons, List.not_mem_nil, or_false] at hj
    rcases hj with rfl | rfl
    · cases hrcv
    · cases hrcv
  have hq₂ : Client.Quiet 0 [] := fun j hj => absurd hj List.not_mem_nil
  obtain ⟨hiff, htext⟩ := (texts_eq_iff (offset Client.constants) 0 0 (layOut Client.constants 0)
    (layOut Client.constants 88)).1 (laid_client 0) (laid_client 88) hs rfl hq₁ hq₂ he₁ he₂
  exact ⟨s, e₁, e₂, hs, he₁, he₂, hiff, (htext rfl).trans (by decide +kernel)⟩

/-- **The texts depend on more than what they describe.**  After an earlier segment the
same segment is described with the state appended twice, although its `connect` entry
is the same.  And two sections that differ only in the bytes after the constants give
the same firing of the service different texts. -/
theorem texts_depend_on_memory :
    (∃ s e₁ e₂, Client.ticks ⟨offset Client.constants, 0⟩ (Kern.boot (layOut Client.constants 0))
        [exampleRcv 1000000] = some s ∧
      s.connect.lookup 1 =
        (Kern.boot (layOut Client.constants 0) : Kern ClientEvent).connect.lookup 1 ∧
      Emits (Client.tick ⟨offset Client.constants, 0⟩) (Kern.boot (layOut Client.constants 0))
        (exampleRcv 2000000) e₁ ∧
      Emits (Client.tick ⟨offset Client.constants, 0⟩) s (exampleRcv 2000000) e₂ ∧
      text e₁.tcpDescription = cstr "transfer into new stateTCP_ESTABLISHED" ∧
      text e₂.tcpDescription = cstr "transfer into new stateTCP_ESTABLISHEDTCP_ESTABLISHED" ∧
      e₁.texts ≠ e₂.texts) ∧
    (∃ e₁ e₂, Emits (Service.tick ⟨offset Service.constants, 0⟩)
        (Kern.boot (layOut Service.constants 0)) exampleDoRcv e₁ ∧
      Emits (Service.tick ⟨offset Service.constants, 0⟩)
        (Kern.boot (layOut Service.constants 88)) exampleDoRcv e₂ ∧
      Laid Service.constants (offset Service.constants) (layOut Service.constants 0) ∧
      Laid Service.constants (offset Service.constants) (layOut Service.constants 88) ∧
      e₁.texts ≠ e₂.texts) := by
  constructor
  · obtain ⟨s, hs, hclock, hrodata, hlookup⟩ := Client.exists_ticks_rcv (i := exampleRcv 1000000)
      (offset Client.constants) (layOut Client.constants 0) rfl (by decide)
    obtain ⟨e₁, he₁⟩ := Client.emits (offset Client.constants)
      (s := Kern.boot (layOut Client.constants 0)) (i := exampleRcv 2000000) UInt64.zero_le
    obtain ⟨e₂, he₂⟩ := Client.emits (offset Client.constants) (s := s)
      (i := exampleRcv 2000000) (hclock ▸ by decide)
    have ht₁ := Client.texts_of_emits he₁
    have ht₂ := Client.texts_of_emits he₂
    have hx₁ : text e₁.texts.tcpDescription = cstr "transfer into new stateTCP_ESTABLISHED" := by
      rw [ht₁]
      exact (Client.text_describe (laid_client 0) (exampleRcv 2000000).call).trans
        (by decide +kernel)
    have hx₂ : text e₂.texts.tcpDescription =
        cstr "transfer into new stateTCP_ESTABLISHEDTCP_ESTABLISHED" := by
      rw [ht₂, hrodata]
      decide +kernel
    refine ⟨s, e₁, e₂, hs, hlookup 1, he₁, he₂, hx₁, hx₂, ?_⟩
    intro heq
    rw [heq, hx₂] at hx₁
    exact absurd hx₁ (by decide +kernel)
  · obtain ⟨e₁, he₁⟩ := Service.emits (offset Service.constants) (layOut Service.constants 0)
      exampleDoRcv
    obtain ⟨e₂, he₂⟩ := Service.emits (offset Service.constants) (layOut Service.constants 88)
      exampleDoRcv
    refine ⟨e₁, e₂, he₁, he₂, laid_service 0, laid_service 88, ?_⟩
    rw [Service.texts_of_emits he₁, Service.texts_of_emits he₂]
    decide +kernel

end NetworkAnalyse.Ebpf
