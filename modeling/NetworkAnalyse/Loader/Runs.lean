import NetworkAnalyse.Lib.Interleave
import NetworkAnalyse.Lib.Stopwatch
import NetworkAnalyse.Loader.Main

/-!
# What the loader leaves behind

* `cleansUp_iff`: when the program that a run has attached is gone at its end, for
  every outcome of the library calls.
* `loader`: the runs of `main` that monitor, while others attach and detach
  programs; `spares_iff`: when such a run leaves the programs of others alone.
-/

namespace NetworkAnalyse.Loader

open Lib

/-! ### The parts of `main`, in one go -/

section Parts

variable {cfg : Config} {o : Outcomes} {w w' : World} {e : Exit} {n : Nat}

theorem run_call (op : Op) : (call op).run (exec o) w = exec o op w := Prog.run_perform _ _ _

/-- The loop with a ring buffer only counts its polls. -/
theorem run_pollLoop (n : Nat) (w : World) :
    ∃ k, (pollLoop true n).run (exec o) w = some (.ok (), { w with polls := k }) := by
  induction n generalizing w with
  | zero => exact ⟨w.polls, rfl⟩
  | succ n ih =>
    obtain ⟨k, hk⟩ := ih { w with polls := w.polls + 1 }
    rw [pollLoop, Prog.run_bind, run_call, exec, if_pos rfl, Option.bind_some]
    dsimp only
    split
    · exact ⟨w.polls + 1, rfl⟩
    · split
      · exact ⟨w.polls + 1, rfl⟩
      · exact ⟨k, hk⟩

/-- Without a ring buffer the first poll faults. -/
theorem run_pollLoop_null (n : Nat) (w : World) :
    (pollLoop false (n + 1)).run (exec o) w =
      some (.error .segfault, { w with nullPoll := true }) := by
  rw [pollLoop, Prog.run_bind, run_call, exec]
  rfl

theorem run_doUnload_of_get (hget : o.get ≠ 0) :
    (doUnload cfg).run (exec o) w = some (exitFailure, w) := by
  rw [doUnload, Prog.run_bind, run_call, exec]
  by_cases hneg : o.get < 0
  · rw [if_pos hneg]
    rfl
  · rw [if_neg hneg, if_pos (by omega)]
    rfl

/-- `do_unload` with `unload_all`, if it finds a program. -/
theorem run_doUnload_all (hall : cfg.unloadAll = true) (hget : o.get = 0)
    (hne : w.iface.attached ≠ []) :
    (doUnload cfg).run (exec o) w =
      some (if (o.multiprogDetach w.iface w.iface).err ≠ 0 then exitFailure else exitOk,
        w.lose (o.multiprogDetach w.iface w.iface)) := by
  simp [doUnload, call, exec, hall, hget, hne]

theorem attached_mainDetach {mp : Multiprog} {i : Iface} (hprogs : i.progs = mp.progs)
    (hhw : i.hw = none) (h : (o.mainDetach mp i).err = 0) :
    (o.mainDetach mp i).iface.attached = [] := by
  rw [Outcomes.mainDetach] at h ⊢
  by_cases hnil : mp.progs = []
  · simp [Iface.attached, hprogs, hnil, hhw]
  by_cases hfail : o.detachMain = 0
  · simp [Iface.attached, hnil, hfail, hhw]
  · rw [if_neg hnil, if_pos hfail] at h
    exact absurd h hfail

/-- A detach that succeeds leaves nothing of what it was called for. -/
theorem attached_multiprogDetach {i : Iface} (h : (o.multiprogDetach i i).err = 0) :
    (o.multiprogDetach i i).iface.attached = [] := by
  rw [Outcomes.multiprogDetach] at h ⊢
  split_ifs at h ⊢ with hnone hfail
  · exact attached_mainDetach rfl hnone h
  · exact absurd h hfail
  · exact attached_mainDetach (i := { i with hw := none }) rfl rfl h

/-- `main` up to the attach, when that succeeds. -/
theorem run_main_of_attach (hcfg : cfg.Monitoring) (hsig : o.signal = true) (hcreate : o.create = 0)
    (hattach : o.attach = 0) (hrun : (main cfg n).run (exec o) w = some (e, w')) :
    ∃ i, w.iface.attach cfg.attachMode o.progId = some i ∧
      let w₁ := { w with iface := i, owned := w.owned ++ [o.progId] }
      if o.fd < 0 then e = .exit exitFailBpf ∧ w' = w₁
      else (monitorPackets cfg n).run (exec o) w₁ = some (e, w') := by
  obtain ⟨hif, hun, hall⟩ := hcfg
  by_cases hin : o.progId ∈ w.iface.attached
  · simp [main, loadBpfAndXdpAttach, call, exec, hsig, hcreate, hattach, hif, hun, hall,
      hin] at hrun
  cases hi : w.iface.attach cfg.attachMode o.progId with
  | none =>
    simp [main, loadBpfAndXdpAttach, call, exec, hsig, hcreate, hattach, hif, hun, hall, hin,
      hi] at hrun
  | some i =>
    refine ⟨i, rfl, ?_⟩
    by_cases hfd : o.fd < 0
    · rw [if_pos hfd]
      simp [main, loadBpfAndXdpAttach, call, exec, hsig, hcreate, hattach, hif, hun, hall, hin, hi,
        hfd] at hrun
      exact ⟨hrun.1.symm, hrun.2.symm⟩
    · rw [if_neg hfd]
      simpa [main, loadBpfAndXdpAttach, call, exec, hsig, hcreate, hattach, hif, hun, hall, hin, hi,
        hfd] using hrun

theorem run_monitorPackets_of_map (hmap : o.mapFd < 0) :
    (monitorPackets cfg n).run (exec o) w = some (.exit exitFailBpf, w) := by
  simp [monitorPackets, call, exec, hmap]

theorem run_monitorPackets_of_loop (hmap : ¬ o.mapFd < 0)
    (hloop : (pollLoop o.ringBuffer n).run (exec o) w = some (.ok (), w')) :
    (monitorPackets cfg n).run (exec o) w = (finish cfg o.ringBuffer).run (exec o) w' := by
  simp only [monitorPackets, call, Prog.perform_bind, Prog.run_call, exec, Option.bind_some,
    if_neg hmap]
  rw [Prog.run_bind, hloop, Option.bind_some]

theorem run_monitorPackets_of_fault (hmap : ¬ o.mapFd < 0)
    (hloop : (pollLoop o.ringBuffer n).run (exec o) w = some (.error e, w')) :
    (monitorPackets cfg n).run (exec o) w = some (e, w') := by
  simp only [monitorPackets, call, Prog.perform_bind, Prog.run_call, exec, Option.bind_some,
    if_neg hmap]
  rw [Prog.run_bind, hloop, Option.bind_some]
  rfl

theorem run_finish (rb : Bool) {err : Int}
    (hunload : (doUnload { cfg with unloadAll := true }).run (exec o) w = some (err, w')) :
    (finish cfg rb).run (exec o) w = some (.exit (if err < 0 then -err else exitOk), w') := by
  simp only [finish, call, Prog.perform_bind, Prog.run_call, exec, Option.bind_some]
  rw [Prog.run_bind, hunload, Option.bind_some]
  rfl

end Parts

theorem mem_attached_of_attach {i i' : Iface} {mode : AttachMode} {p : ProgId}
    (h : i.attach mode p = some i') : p ∈ i'.attached := by
  rw [Iface.attach] at h
  split at h
  · split at h
    · rw [← Option.some.inj h]
      simp [Iface.attached]
    · cases h
  · split at h
    · cases h
    · rw [← Option.some.inj h]
      simp [Iface.attached]

/-! ### Cleaning up -/

section CleansUp

variable {cfg : Config} {o : Outcomes} {w w' : World} {e : Exit} {n : Nat}

/-- What the calls after the attach have to give for the loader to clean up: the
program has a file descriptor, the map is found, there is a ring buffer unless the
signal comes before the first poll, and the programs of the interface are found. -/
def Outcomes.Clean (o : Outcomes) (sigint : Nat) : Prop :=
  0 ≤ o.fd ∧ 0 ≤ o.mapFd ∧ (o.ringBuffer = true ∨ sigint = 0) ∧ o.get = 0

/-- The last part of `main`, on an interface that has the program. -/
theorem run_finish_iff (rb : Bool) (hdetach : (o.multiprogDetach w.iface w.iface).err = 0)
    {p : ProgId} (hp : p ∈ w.iface.attached)
    (hrun : (finish cfg rb).run (exec o) w = some (e, w')) :
    w'.nullPoll = w.nullPoll ∧ (p ∉ w'.iface.attached ↔ o.get = 0) := by
  by_cases hget : o.get = 0
  · have hne : w.iface.attached ≠ [] := List.ne_nil_of_mem hp
    rw [run_finish rb (run_doUnload_all rfl hget hne)] at hrun
    cases hrun
    refine ⟨rfl, iff_of_true ?_ hget⟩
    show p ∉ (o.multiprogDetach w.iface w.iface).iface.attached
    rw [attached_multiprogDetach hdetach]
    exact List.not_mem_nil
  · rw [run_finish rb (run_doUnload_of_get hget)] at hrun
    cases hrun
    refine ⟨rfl, ?_⟩
    simp [hget, hp]

theorem run_monitorPackets_iff (hdetach : (o.multiprogDetach w.iface w.iface).err = 0)
    {p : ProgId} (hp : p ∈ w.iface.attached)
    (hnull : w.nullPoll = false)
    (hrun : (monitorPackets cfg n).run (exec o) w = some (e, w')) :
    (p ∉ w'.iface.attached ∧ w'.nullPoll = false) ↔
      0 ≤ o.mapFd ∧ (o.ringBuffer = true ∨ n = 0) ∧ o.get = 0 := by
  by_cases hmap : o.mapFd < 0
  · rw [run_monitorPackets_of_map hmap] at hrun
    cases hrun
    constructor
    · intro h
      exact absurd hp h.1
    · intro h
      omega
  · have hmap' : 0 ≤ o.mapFd := by omega
    by_cases hrb : o.ringBuffer = true ∨ n = 0
    · -- the loop ends without a fault, so the end of `main` is reached
      obtain ⟨k, hk⟩ : ∃ k, (pollLoop o.ringBuffer n).run (exec o) w =
          some (.ok (), { w with polls := k }) := by
        rcases hrb with hrb | hn
        · rw [hrb]
          exact run_pollLoop n w
        · rw [hn]
          exact ⟨w.polls, rfl⟩
      rw [run_monitorPackets_of_loop hmap hk] at hrun
      obtain ⟨hnull', hiff⟩ := run_finish_iff (w := { w with polls := k }) _ hdetach hp hrun
      have hnull'' : w'.nullPoll = false := hnull'.trans hnull
      simp [hiff, hnull'', hmap', hrb]
    · have hfalse : o.ringBuffer = false := by
        simpa using fun h => hrb (Or.inl h)
      obtain ⟨m, rfl⟩ : ∃ m, n = m + 1 := Nat.exists_eq_succ_of_ne_zero fun h => hrb (Or.inr h)
      have hloop : (pollLoop o.ringBuffer (m + 1)).run (exec o) w =
          some (.error .segfault, { w with nullPoll := true }) := by
        rw [hfalse]
        exact run_pollLoop_null m w
      rw [run_monitorPackets_of_fault hmap hloop] at hrun
      cases hrun
      constructor
      · intro h
        exact absurd h.2 (by simp)
      · intro h
        exact absurd h.2.1 hrb

/-- **When the loader cleans up after itself.**  In every run that monitors, with an
attach that succeeds, and a detach that succeeds on the interface with the program if
it is reached: at the end the program is gone and no poll was made without a ring
buffer, if and only if the calls between the attach and the detach turn out well. -/
theorem cleansUp_iff {iface : Iface} (hcfg : cfg.Monitoring) (hsig : o.signal = true)
    (hcreate : o.create = 0) (hattach : o.attach = 0)
    (hdetach : ∀ i, iface.attach cfg.attachMode o.progId = some i →
      (o.multiprogDetach i i).err = 0)
    (hrun : (main cfg n).run (exec o) (World.boot iface) = some (e, w')) :
    (o.progId ∉ w'.iface.attached ∧ w'.nullPoll = false) ↔ o.Clean n := by
  obtain ⟨i, hi, hrest⟩ := run_main_of_attach hcfg hsig hcreate hattach hrun
  have hp := mem_attached_of_attach hi
  by_cases hfd : o.fd < 0
  · rw [if_pos hfd] at hrest
    obtain ⟨-, rfl⟩ := hrest
    constructor
    · intro h
      exact absurd hp h.1
    · intro h
      have := h.1
      omega
  · rw [if_neg hfd] at hrest
    rw [run_monitorPackets_iff (hdetach i hi) hp rfl hrest]
    have hfd' : 0 ≤ o.fd := by omega
    simp [Outcomes.Clean, hfd']

end CleansUp

/-- Everything turns out well. -/
def exampleOutcomes : Outcomes where
  signal := true
  create := 0
  attach := 0
  progId := 42
  fd := 5
  mapFd := 6
  ringBuffer := true
  poll _ := 0
  get := 0
  detachHw := 0
  detachMain := 0
  unpin := 0

def exampleConfig : Config := ⟨.skb, 1, false, 0, false⟩

theorem monitoring_exampleConfig : exampleConfig.Monitoring := ⟨by decide, rfl, rfl⟩

/-- The end of an example: the status, the programs attached, and whether a poll was
made without a ring buffer. -/
def exampleEnd (o : Outcomes) (sigint : Nat) (iface : Iface) : Option (Exit × List ProgId × Bool) :=
  ((main exampleConfig sigint).run (exec o) (World.boot iface)).map fun p =>
    (p.1, p.2.iface.attached, p.2.nullPoll)

theorem cleansUp_iff_example :
    ∃ e w', (main exampleConfig 3).run (exec exampleOutcomes) (World.boot .empty) = some (e, w') ∧
      ((exampleOutcomes.progId ∉ w'.iface.attached ∧ w'.nullPoll = false) ↔
        exampleOutcomes.Clean 3) := by
  obtain ⟨⟨e, w'⟩, hrun⟩ : ∃ p, (main exampleConfig 3).run (exec exampleOutcomes)
      (World.boot .empty) = some p := ⟨_, rfl⟩
  have hdetach : ∀ i, Iface.empty.attach .skb 42 = some i →
      (exampleOutcomes.multiprogDetach i i).err = 0 := by
    rintro i ⟨⟩
    rfl
  exact ⟨e, w', hrun, cleansUp_iff monitoring_exampleConfig rfl rfl rfl hdetach hrun⟩

/-- **The loader leaves its program behind** when `xdp_program__fd` fails, and when
the map is not found; and without a ring buffer it polls `NULL`, which ends the
process before the detach. -/
theorem loader_leaves_program :
    exampleEnd { exampleOutcomes with fd := -1 } 3 .empty = some (.exit 40, [42], false) ∧
      exampleEnd { exampleOutcomes with mapFd := -1 } 3 .empty = some (.exit 40, [42], false) ∧
      exampleEnd { exampleOutcomes with ringBuffer := false } 3 .empty =
        some (.segfault, [42], true) := ⟨rfl, rfl, rfl⟩

/-! ### The programs of others -/

/-- What others do on the interface. -/
inductive Others
  | attach (mode : AttachMode) (p : ProgId)
  | detach (p : ProgId)

def others : Others → World → Option World
  | .attach mode p, w =>
    if p ∈ w.iface.attached then none
    else (w.iface.attach mode p).map fun i => { w with iface := i }
  | .detach p, w =>
    if p ∈ w.iface.attached then
      some { w with iface := w.iface.detach p, byOthers := w.byOthers ++ [p] }
    else none

/-- A start of `main` that monitors. -/
structure Start where
  cfg : Config
  monitoring : cfg.Monitoring
  sigint : Nat

/-- The loader, with others in between its library calls. -/
def loader : System Unit Op Op.Res Outcomes Others World Start Exit where
  key _ := ()
  body st := main st.cfg st.sigint
  exec := exec
  env := others

/-- Every program of `start` is still attached, and not the loader's, unless others
or the loader have detached it. -/
def Kept (start : List ProgId) (w : World) : Prop :=
  ∀ p ∈ start, p ∈ w.byOthers ∨ p ∈ w.foreign ∨ (p ∈ w.iface.attached ∧ p ∉ w.owned)

section Kept

variable {start : List ProgId} {o : Outcomes} {w w' : World}

theorem mem_attach_iff {i i' : Iface} {mode : AttachMode} {p q : ProgId}
    (h : i.attach mode p = some i') : q ∈ i'.attached ↔ q ∈ i.attached ∨ q = p := by
  rw [Iface.attach] at h
  split at h
  · split at h
    · rename_i hhw
      rw [← Option.some.inj h]
      simp [Iface.attached, hhw]
    · cases h
  · split at h
    · cases h
    · rw [← Option.some.inj h]
      simp only [Iface.attached, List.mem_append, List.mem_singleton]
      exact or_right_comm

theorem mem_detach_iff {i : Iface} {p q : ProgId} :
    q ∈ (i.detach p).attached ↔ q ∈ i.attached ∧ q ≠ p := by
  simp only [Iface.attached, Iface.detach, List.mem_append, List.mem_filter, Option.mem_toList,
    Option.filter_eq_some_iff, decide_eq_true_eq]
  exact or_and_right.symm

/-- Every program of the interface is still attached or among those taken off. -/
def Detached.Accounts (d : Detached) (i : Iface) : Prop :=
  ∀ q ∈ i.attached, q ∈ d.iface.attached ∨ q ∈ d.taken

theorem accounts_mainDetach (o : Outcomes) (mp : Multiprog) (i : Iface) :
    (o.mainDetach mp i).Accounts i := by
  intro q hq
  rw [Outcomes.mainDetach]
  split
  · exact Or.inl hq
  split
  · exact Or.inl hq
  rcases List.mem_append.mp hq with h | h
  · exact Or.inr h
  · exact Or.inl h

theorem accounts_multiprogDetach (o : Outcomes) (mp : Multiprog) (i : Iface) :
    (o.multiprogDetach mp i).Accounts i := by
  intro q hq
  rw [Outcomes.multiprogDetach]
  split_ifs
  · exact accounts_mainDetach o mp i q hq
  · exact Or.inl hq
  · rcases List.mem_append.mp hq with h | h
    · have hq' : q ∈ ({ i with hw := none } : Iface).attached := List.mem_append_left _ h
      rcases accounts_mainDetach o mp _ q hq' with h' | h'
      · exact Or.inl h'
      · exact Or.inr (List.mem_append_right _ h')
    · exact Or.inr (List.mem_append_left _ h)

theorem accounts_programDetach (o : Outcomes) (i : Iface) (p : ProgId) (mode : AttachMode) :
    (o.programDetach i p mode).Accounts i := by
  intro q hq
  have htaken : q ∈ (i.detach p).attached ∨ q ∈ [p] := by
    by_cases hqp : q = p
    · exact Or.inr (List.mem_singleton.mpr hqp)
    · exact Or.inl (mem_detach_iff.mpr ⟨hq, hqp⟩)
  rw [Outcomes.programDetach]
  split_ifs <;> first | exact Or.inl hq | exact htaken

theorem kept_lose {d : Detached} (h : Kept start w) (hd : d.Accounts w.iface) :
    Kept start (w.lose d) := by
  intro p hp
  rcases h p hp with h | h | ⟨hatt, hown⟩
  · exact Or.inl h
  · exact Or.inr (Or.inl (List.mem_append_left _ h))
  · rcases hd p hatt with h | h
    · exact Or.inr (Or.inr ⟨h, hown⟩)
    · refine Or.inr (Or.inl (List.mem_append_right _ ?_))
      exact List.mem_filter.mpr ⟨h, by simpa using hown⟩

theorem kept_of_eq (h : Kept start w) (hi : w'.iface = w.iface) (ho : w'.owned = w.owned)
    (hf : w'.foreign = w.foreign) (hb : w'.byOthers = w.byOthers) : Kept start w' := by
  intro p hp
  rw [hi, ho, hf, hb]
  exact h p hp

/-- **What a library call can do**: attach the program, detach programs, or nothing to
the programs. -/
inductive ExecDoes (o : Outcomes) (op : Op) (w w' : World) : Prop
  | attach {mode : AttachMode} {i : Iface} (hop : op = .xdpProgramAttach mode)
      (hnew : o.progId ∉ w.iface.attached) (hi : w.iface.attach mode o.progId = some i)
      (h : w' = { w with iface := i, owned := w.owned ++ [o.progId] })
  | detachAll {mp : Multiprog} (hop : op = .multiprogDetach mp)
      (h : w' = w.lose (o.multiprogDetach mp w.iface))
  | detachOne {p : ProgId} {mode : AttachMode} (hop : op = .programDetach (some p) mode)
      (h : w' = w.lose (o.programDetach w.iface p mode))
  | nothing (hop : ∀ mp, op ≠ .multiprogDetach mp) (hi : w'.iface = w.iface)
      (ho : w'.owned = w.owned) (hf : w'.foreign = w.foreign) (hb : w'.byOthers = w.byOthers)

theorem exec_does {op : Op} {r : op.Res} (he : exec o op w = some (r, w')) :
    ExecDoes o op w w' := by
  cases op with
  | xdpProgramAttach mode =>
    rw [exec] at he
    split at he
    · rw [Option.ite_none_left_eq_some, Option.map_eq_some_iff] at he
      obtain ⟨hnew, i, hi, he⟩ := he
      cases he
      exact .attach rfl hnew hi rfl
    · cases he
      exact .nothing (by simp) rfl rfl rfl rfl
  | multiprogDetach mp =>
    cases he
    exact .detachAll rfl rfl
  | programDetach prog mode =>
    cases prog with
    | none =>
      cases he
      exact .nothing (by simp) rfl rfl rfl rfl
    | some p =>
      cases he
      exact .detachOne rfl rfl
  | ringBufferPoll rb =>
    cases rb <;> cases he <;> exact .nothing (by simp) rfl rfl rfl rfl
  | multiprogGetFromIfindex =>
    have hw : w' = w := by
      rw [exec] at he
      split at he
      · exact (Prod.mk.inj (Option.some.inj he)).2.symm
      · split at he
        · exact (Prod.mk.inj (Option.some.inj he)).2.symm
        · split at he
          · exact (Prod.mk.inj (Option.some.inj he)).2.symm
          · exact (Prod.mk.inj (Option.some.inj he)).2.symm
    rw [hw]
    exact .nothing (by simp) rfl rfl rfl rfl
  | _ =>
    cases he
    exact .nothing (by simp) rfl rfl rfl rfl

theorem kept_exec {op : Op} {r : op.Res} (h : Kept start w) (he : exec o op w = some (r, w')) :
    Kept start w' := by
  cases exec_does he with
  | attach hop hnew hi hw =>
    rw [hw]
    intro p hp
    rcases h p hp with h | h | ⟨hatt, hown⟩
    · exact Or.inl h
    · exact Or.inr (Or.inl h)
    · refine Or.inr (Or.inr ⟨(mem_attach_iff hi).mpr (Or.inl hatt), fun hmem => ?_⟩)
      rcases List.mem_append.mp hmem with hmem | hmem
      · exact hown hmem
      · rw [List.mem_singleton.mp hmem] at hatt
        exact hnew hatt
  | detachAll hop hw =>
    rw [hw]
    exact kept_lose h (accounts_multiprogDetach _ _ _)
  | detachOne hop hw =>
    rw [hw]
    exact kept_lose h (accounts_programDetach _ _ _ _)
  | nothing hop hi ho hf hb => exact kept_of_eq h hi ho hf hb

theorem kept_others {a : Others} (h : Kept start w) (he : others a w = some w') :
    Kept start w' := by
  cases a with
  | attach mode p =>
    rw [others, Option.ite_none_left_eq_some, Option.map_eq_some_iff] at he
    obtain ⟨-, i, hi, rfl⟩ := he
    intro q hq
    rcases h q hq with h | h | ⟨hatt, hown⟩
    · exact Or.inl h
    · exact Or.inr (Or.inl h)
    · exact Or.inr (Or.inr ⟨(mem_attach_iff hi).mpr (Or.inl hatt), hown⟩)
  | detach p =>
    rw [others, Option.ite_none_right_eq_some] at he
    obtain ⟨-, he⟩ := he
    cases he
    intro q hq
    rcases h q hq with h | h | ⟨hatt, hown⟩
    · exact Or.inl (List.mem_append_left _ h)
    · exact Or.inr (Or.inl h)
    · by_cases hqp : q = p
      · exact Or.inl (List.mem_append_right _ (List.mem_singleton.mpr hqp))
      · exact Or.inr (Or.inr ⟨mem_detach_iff.mpr ⟨hatt, hqp⟩, hown⟩)

end Kept

/-! ### No program is detached by its id -/

/-- The call is not `xdp_program__detach`. -/
def NoDetachById : Op → Prop
  | .programDetach _ _ => False
  | _ => True

section DetachById

open Prog

theorem calls_doUnload {cfg : Config} (hall : cfg.unloadAll = true) :
    (doUnload cfg).Calls NoDetachById := by
  refine (calls_perform trivial).bind fun mp => ?_
  rcases mp with err | mp | mp
  · exact (calls_perform trivial).bind fun _ => calls_ret _
  · exact (calls_perform trivial).bind fun _ => calls_ret _
  · dsimp only
    rw [if_pos hall]
    refine (calls_perform trivial).bind fun err => ?_
    exact (calls_perform trivial).bind fun _ => calls_ret _

theorem calls_pollLoop (rb : Bool) (n : Nat) : (pollLoop rb n).Calls NoDetachById := by
  induction n with
  | zero => exact calls_ret _
  | succ n ih =>
    refine (calls_perform trivial).bind fun r => ?_
    cases r with
    | none => exact calls_ret _
    | some err =>
      dsimp only
      split
      · exact calls_ret _
      · split
        · exact calls_ret _
        · exact ih

theorem calls_loadBpfAndXdpAttach (cfg : Config) :
    (loadBpfAndXdpAttach cfg).Calls NoDetachById := by
  refine (calls_perform trivial).bind fun err => ?_
  split
  · exact calls_ret _
  refine (calls_perform trivial).bind fun err => ?_
  split
  · exact calls_ret _
  refine (calls_perform trivial).bind fun fd => ?_
  split <;> exact calls_ret _

theorem calls_monitorPackets (cfg : Config) (n : Nat) :
    (monitorPackets cfg n).Calls NoDetachById := by
  refine (calls_perform trivial).bind fun fd => ?_
  split
  · exact calls_ret _
  refine (calls_perform trivial).bind fun rb => ?_
  refine (calls_pollLoop rb n).bind fun r => ?_
  cases r with
  | error e => exact calls_ret _
  | ok _ =>
    refine (calls_perform trivial).bind fun _ => ?_
    exact (calls_doUnload rfl).bind fun _ => calls_ret _

/-- A run that monitors unloads with `unload_all`, so it detaches no program by its id. -/
theorem calls_main {cfg : Config} (h : cfg.Monitoring) (n : Nat) :
    (main cfg n).Calls NoDetachById := by
  refine (calls_perform trivial).bind fun ok => ?_
  split
  · exact calls_ret _
  rw [if_neg h.ifindex, h.doUnload, h.unloadAll]
  refine (calls_loadBpfAndXdpAttach cfg).bind fun r => ?_
  cases r with
  | error e => exact calls_ret _
  | ok _ => exact calls_monitorPackets cfg n

end DetachById

/-! ### When others are spared -/

section Spares

variable {iface : Iface} {acts : List (Act Unit Outcomes Others Start)}
  {c c' : Lib.Config Unit Op Op.Res World Start Exit} {a : Act Unit Outcomes Others Start}

/-- The programs that `xdp_multiprog__detach` takes off are among those of `owned`: the
one in hardware if the call comes to that, and the others if it comes to them.  How the
call ends does not matter. -/
def Outcomes.Spares (o : Outcomes) (mp : Multiprog) (i : Iface) (owned : List ProgId) : Prop :=
  (mp.hw ≠ none → o.detachHw = 0 → ∀ p, i.hw = some p → p ∈ owned) ∧
  (mp.progs ≠ [] → (mp.hw ≠ none → o.detachHw = 0) → o.detachMain = 0 →
    ∀ p ∈ i.progs, p ∈ owned)

theorem taken_mainDetach_iff {o : Outcomes} {mp : Multiprog} {i : Iface} {owned : List ProgId} :
    (∀ p ∈ (o.mainDetach mp i).taken, p ∈ owned) ↔
      (mp.progs ≠ [] → o.detachMain = 0 → ∀ p ∈ i.progs, p ∈ owned) := by
  rw [Outcomes.mainDetach]
  by_cases hnil : mp.progs = []
  · simp [hnil]
  by_cases hfail : o.detachMain = 0
  · simp [hnil, hfail]
  · simp [hnil, hfail]

theorem taken_multiprogDetach_iff {o : Outcomes} {mp : Multiprog} {i : Iface}
    {owned : List ProgId} :
    (∀ p ∈ (o.multiprogDetach mp i).taken, p ∈ owned) ↔ o.Spares mp i owned := by
  rw [Outcomes.multiprogDetach, Outcomes.Spares]
  split_ifs with hnone hfail
  · rw [taken_mainDetach_iff]
    simp [hnone]
  · simp [hnone, hfail]
  · have hhw : o.detachHw = 0 := not_not.mp hfail
    simp only [List.forall_mem_append, taken_mainDetach_iff, Option.mem_toList]
    simp [hnone, hhw]

/-- If the action is a call of `xdp_multiprog__detach`, it takes off no program but the
loader's own. -/
def SparesAt (c : Lib.Config Unit Op Op.Res World Start Exit)
    (a : Act Unit Outcomes Others Start) : Prop :=
  ∀ o th mp f, a = .step () o → c.running () = some th →
    th.rest = .call (.multiprogDetach mp) f → o.Spares mp c.shared.iface c.shared.owned

theorem foreign_others {e : Others} {w w' : World} (h : others e w = some w') :
    w'.foreign = w.foreign := by
  cases e with
  | attach mode p =>
    rw [others, Option.ite_none_left_eq_some, Option.map_eq_some_iff] at h
    obtain ⟨-, i, -, rfl⟩ := h
    rfl
  | detach p =>
    rw [others, Option.ite_none_right_eq_some] at h
    rw [← Option.some.inj h.2]

theorem foreign_lose {w : World} {d : Detached} :
    (w.lose d).foreign = [] ↔ w.foreign = [] ∧ ∀ p ∈ d.taken, p ∈ w.owned := by
  simp [World.lose]

/-- At a step, only the call that is pending counts. -/
theorem sparesAt_step_iff {k : Unit} {o : Outcomes} {st : Start} {tr : Trace Op Op.Res} {op : Op}
    {f : op.Res → Prog Op Op.Res Exit} (hth : c.running k = some ⟨st, tr, .call op f⟩) :
    SparesAt c (.step k o) ↔
      ∀ mp, op = .multiprogDetach mp → o.Spares mp c.shared.iface c.shared.owned := by
  constructor
  · rintro h mp rfl
    exact h o _ mp f rfl hth rfl
  · intro h o' th mp f' ha hth' hrest
    cases ha
    rw [hth] at hth'
    cases hth'
    cases hrest
    exact h mp rfl

/-- One action: others lose a program exactly at a detach that does not spare them. -/
theorem foreign_step (hrun : loader.run (loader.init (World.boot iface)) acts = some c)
    (h : loader.step c a = some c') :
    c'.shared.foreign = [] ↔ c.shared.foreign = [] ∧ SparesAt c a := by
  rcases System.step_cases h with ⟨st, rfl, -, rfl⟩ |
      ⟨k, o, st, tr, op, f, r, w, rfl, hth, he, rfl⟩ | ⟨e, w, rfl, he, rfl⟩
  · rw [System.shared_settle]
    exact (and_iff_left fun o th mp f ha => by cases ha).symm
  · have hop : NoDetachById op :=
      (Prog.calls_call.mp (System.calls_of_run (fun st => calls_main st.monitoring st.sigint)
        hrun hth)).1
    rw [System.shared_settle, sparesAt_step_iff hth]
    show w.foreign = [] ↔ _
    cases exec_does he with
    | attach hop' hnew hi hw =>
      rw [hw]
      refine (and_iff_left fun mp hmp => ?_).symm
      rw [hmp] at hop'
      cases hop'
    | @detachAll mp hop' hw =>
      rw [hw, foreign_lose, taken_multiprogDetach_iff, hop']
      refine and_congr_right fun _ => ⟨fun hs mp' hmp => ?_, fun hs => hs mp rfl⟩
      rw [← Op.multiprogDetach.inj hmp]
      exact hs
    | detachOne hop' hw =>
      rw [hop'] at hop
      cases hop
    | nothing hop' hi ho hf hb =>
      rw [hf]
      exact (and_iff_left fun mp hmp => absurd hmp (hop' mp)).symm
  · show w.foreign = [] ↔ _
    rw [foreign_others he]
    exact (and_iff_left fun o th mp f ha => by cases ha).symm

/-- Every step of the run spares the programs of others. -/
def Sparing (iface : Iface) (acts : List (Act Unit Outcomes Others Start)) : Prop :=
  Lawful (fun pre a => ∀ c, loader.run (loader.init (World.boot iface)) pre = some c →
    SparesAt c a) acts

theorem foreign_run (hrun : loader.run (loader.init (World.boot iface)) acts = some c) :
    c.shared.foreign = [] ↔ Sparing iface acts := by
  induction acts using List.reverseRecOn generalizing c with
  | nil =>
    rw [← Option.some.inj hrun]
    exact iff_of_true rfl lawful_nil
  | append_singleton acts a ih =>
    obtain ⟨c₁, hrun₁, hstep⟩ := System.run_snoc_iff.mp hrun
    rw [foreign_step hrun₁ hstep, ih hrun₁, Sparing, Sparing, lawful_snoc_iff]
    refine and_congr_right fun _ => ⟨fun hs c₂ hc₂ => ?_, fun hs => hs c₁ hrun₁⟩
    rw [hrun₁] at hc₂
    rw [← Option.some.inj hc₂]
    exact hs

/-- **When the loader leaves others alone.**  In every run that monitors, whatever
the outcomes of the library calls and whatever others do meanwhile: the loader has
detached no program but its own, and every program that was attached before and
that nobody else has detached is still attached, if and only if every detach takes off
programs of the loader only, whether the detach then succeeds or fails. -/
theorem spares_iff (hrun : loader.run (loader.init (World.boot iface)) acts = some c) :
    (c.shared.foreign = [] ∧
      ∀ p ∈ iface.attached, p ∉ c.shared.byOthers → p ∈ c.shared.iface.attached) ↔
    Sparing iface acts := by
  have hkept : Kept iface.attached c.shared := by
    refine System.shared_of_run (I := Kept iface.attached) kept_exec kept_others ?_ hrun
    intro p hp
    exact Or.inr (Or.inr ⟨hp, List.not_mem_nil⟩)
  rw [← foreign_run hrun]
  refine ⟨And.left, fun hf => ⟨hf, fun p hp hby => ?_⟩⟩
  rcases hkept p hp with h | h | h
  · exact absurd h hby
  · rw [hf] at h
    cases h
  · exact h.1

end Spares

/-- A run of `main` without interruption. -/
def exampleActs (o : Outcomes) : List (Act Unit Outcomes Others Start) :=
  .spawn ⟨exampleConfig, monitoring_exampleConfig, 1⟩ :: List.replicate 11 (.step () o)

/-- The same, on an interface with the program 7 of somebody else. -/
def exampleRun (o : Outcomes) :=
  loader.run (loader.init (World.boot ⟨[7], false, .skb, none⟩)) (exampleActs o)

/-- The kernel does not let go of the dispatcher. -/
def busyOutcomes : Outcomes := { exampleOutcomes with detachMain := -16 }

/-- Then program 7 is spared. -/
theorem spares_iff_example :
    ∃ c, exampleRun busyOutcomes = some c ∧ c.log.map (·.result) = [.exit 0] ∧
      c.shared.iface.attached = [7, 42] ∧
      Sparing ⟨[7], false, .skb, none⟩ (exampleActs busyOutcomes) := by
  have h : (exampleRun busyOutcomes).map (fun c => (c.log.map (·.result),
      c.shared.iface.attached, c.shared.foreign)) = some ([.exit 0], [7, 42], []) := by
    rfl
  obtain ⟨c, hc, he⟩ := Option.map_eq_some_iff.mp h
  simp only [Prod.mk.injEq] at he
  obtain ⟨hlog, hatt, hforeign⟩ := he
  refine ⟨c, hc, hlog, hatt, (spares_iff hc).mp ⟨hforeign, fun p hp _ => ?_⟩⟩
  rw [hatt]
  exact List.mem_append_left [42] hp

/-- **The loader detaches the programs of others**: a program that was attached
before it started is gone when it ends. -/
theorem loader_detaches_others :
    ∃ c, exampleRun exampleOutcomes = some c ∧ c.log.map (·.result) = [.exit 0] ∧
      c.shared.byOthers = [] ∧ c.shared.foreign = [7] ∧ c.shared.iface.attached = [] := by
  have h : (exampleRun exampleOutcomes).map (fun c => (c.log.map (·.result), c.shared.byOthers,
      c.shared.foreign, c.shared.iface.attached)) = some ([.exit 0], [], [7], []) := by
    rfl
  obtain ⟨c, hc, he⟩ := Option.map_eq_some_iff.mp h
  simp only [Prod.mk.injEq] at he
  exact ⟨c, hc, he⟩

end NetworkAnalyse.Loader
