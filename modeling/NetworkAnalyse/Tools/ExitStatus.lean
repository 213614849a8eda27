import NetworkAnalyse.Ebpf.Main
import NetworkAnalyse.Loader.Runs

/-!
# Exit statuses

Each of the three tools runs with any answers to its library calls, and any number of
polls.  Its exit status should be 0 exactly if none of the calls failed.  For each tool
there are failures that the status does not show.

* `Ebpf.client_truthful_iff`, `Ebpf.service_truthful_iff`: the tracing tools.
* `Loader.main_truthful_iff`: the XDP loader in monitoring mode.
* `exit_status_truthful_iff`: the three together.
-/

namespace NetworkAnalyse

open Lib

/-! ### The tracing tools -/

namespace Ebpf

/-- A call that failed; `-EINTR` from a poll is no failure. -/
def Failed : (Σ op : ToolOp, op.Res) → Prop
  | ⟨.argpParse, err⟩ => err ≠ 0
  | ⟨.bpfOpen, obj⟩ => obj = false
  | ⟨.bpfLoad, err⟩ => err ≠ 0
  | ⟨.bpfAttach, err⟩ => err ≠ 0
  | ⟨.perfBufferNew _, pb⟩ => pb = false
  | ⟨.signal, ok⟩ => ok = false
  | ⟨.perfBufferPoll _, err⟩ => err < 0 ∧ err ≠ -eintr
  | ⟨.perfBufferFree _, _⟩ => False
  | ⟨.bpfDestroy, _⟩ => False

/-- A failure that does not show: a perf buffer that could not be opened.  And a status
has eight bits only. -/
def Silent : (Σ op : ToolOp, op.Res) → Prop
  | ⟨.argpParse, err⟩ => err ≠ 0 ∧ err % 256 = 0
  | ⟨.perfBufferNew _, pb⟩ => pb = false
  | _ => False

/-- The status is 0 exactly if no call failed. -/
def Truthful (tr : Trace ToolOp ToolOp.Res) (status : Int) : Prop :=
  status % 256 = 0 ↔ Free Failed tr

section Parts

variable {tr : Trace ToolOp ToolOp.Res} {second : PerfBuf} {n : Nat} {err status : Int}

/-- `main` up to the attach: it goes on if no call failed. -/
theorem runs_prepare {r : Except Jump Unit} (h : prepare.Runs tr r) :
    (r = .ok () ∧ Free Failed tr ∧ Free Silent tr) ∨
    (∃ status, r = .error (.exit status) ∧ ¬ Free Failed tr ∧ (Free Silent tr ↔ status % 256 ≠ 0)) ∨
    (∃ err, r = .error (.cleanup err) ∧ err ≠ 0 ∧ ¬ Free Failed tr ∧ Free Silent tr) := by
  simp only [prepare, ToolOp.call, Prog.perform_bind, Prog.runs_call_iff] at h
  obtain ⟨e₁, tr, rfl, h⟩ := h
  by_cases h₁ : e₁ ≠ 0
  · rw [if_pos h₁] at h
    obtain ⟨rfl, rfl⟩ := Prog.runs_ret_iff.mp h
    refine Or.inr (Or.inl ⟨e₁, rfl, not_free_of_mem List.mem_cons_self h₁, ?_⟩)
    rw [free_cons]
    exact ⟨fun hp hz => hp.1 ⟨h₁, hz⟩, fun hz => ⟨fun hs => hz hs.2, free_nil⟩⟩
  rw [if_neg h₁, Prog.runs_call_iff] at h
  obtain ⟨obj, tr, rfl, h⟩ := h
  have hp₁ : ¬ Silent ⟨.argpParse, e₁⟩ := fun hs => h₁ hs.1
  cases obj with
  | false =>
    obtain ⟨rfl, rfl⟩ := Prog.runs_ret_iff.mp h
    have hfail : ¬ Free Failed [⟨.argpParse, e₁⟩, ⟨.bpfOpen, false⟩] :=
      not_free_of_mem (List.mem_cons_of_mem _ List.mem_cons_self) rfl
    refine Or.inr (Or.inl ⟨1, rfl, hfail, ?_⟩)
    exact iff_of_true (free_cons.mpr ⟨hp₁, free_cons.mpr ⟨id, free_nil⟩⟩) (by decide)
  | true =>
    simp only [Bool.not_true, Bool.false_eq_true, if_false, Prog.runs_call_iff] at h
    obtain ⟨e₃, tr, rfl, h⟩ := h
    by_cases h₃ : e₃ ≠ 0
    · rw [if_pos h₃] at h
      obtain ⟨rfl, rfl⟩ := Prog.runs_ret_iff.mp h
      have hfail : ¬ Free Failed [⟨.argpParse, e₁⟩, ⟨.bpfOpen, true⟩, ⟨.bpfLoad, e₃⟩] :=
        not_free_of_mem (x := ⟨.bpfLoad, e₃⟩) (by simp) h₃
      refine Or.inr (Or.inr ⟨e₃, rfl, h₃, hfail, ?_⟩)
      exact free_cons.mpr ⟨hp₁, free_cons.mpr ⟨id, free_cons.mpr ⟨id, free_nil⟩⟩⟩
    rw [if_neg h₃, Prog.runs_call_iff] at h
    obtain ⟨e₄, tr, rfl, h⟩ := h
    have hp : Free Silent [⟨.argpParse, e₁⟩, ⟨.bpfOpen, true⟩, ⟨.bpfLoad, e₃⟩, ⟨.bpfAttach, e₄⟩] :=
      free_cons.mpr ⟨hp₁, free_cons.mpr ⟨id, free_cons.mpr ⟨id, free_cons.mpr ⟨id, free_nil⟩⟩⟩⟩
    by_cases h₄ : e₄ ≠ 0
    · rw [if_pos h₄] at h
      obtain ⟨rfl, rfl⟩ := Prog.runs_ret_iff.mp h
      exact Or.inr (Or.inr ⟨e₄, rfl, h₄, not_free_of_mem (x := ⟨.bpfAttach, e₄⟩) (by simp) h₄, hp⟩)
    · rw [if_neg h₄] at h
      obtain ⟨rfl, rfl⟩ := Prog.runs_ret_iff.mp h
      refine Or.inl ⟨rfl, ?_, hp⟩
      exact free_cons.mpr ⟨h₁, free_cons.mpr ⟨Bool.noConfusion, free_cons.mpr ⟨h₃,
        free_cons.mpr ⟨h₄, free_nil⟩⟩⟩⟩

/-- The loop returns 0 if no poll failed, and the error of the one that did otherwise. -/
theorem runs_pollLoop (h : (pollLoop second n).Runs tr err) :
    (err = 0 ↔ Free Failed tr) ∧ Free Silent tr := by
  induction n generalizing tr with
  | zero =>
    obtain ⟨rfl, rfl⟩ := Prog.runs_ret_iff.mp h
    exact ⟨iff_of_true rfl free_nil, free_nil⟩
  | succ n ih =>
    simp only [pollLoop, ToolOp.call, Prog.perform_bind, Prog.runs_call_iff] at h
    obtain ⟨e₁, tr, rfl, h⟩ := h
    by_cases h₁ : e₁ < 0 ∧ e₁ ≠ -eintr
    · rw [if_pos h₁] at h
      obtain ⟨rfl, rfl⟩ := Prog.runs_ret_iff.mp h
      refine ⟨iff_of_false (Int.ne_of_lt h₁.1) ?_, free_cons.mpr ⟨id, free_nil⟩⟩
      exact not_free_of_mem List.mem_cons_self h₁
    rw [if_neg h₁, Prog.runs_call_iff] at h
    obtain ⟨e₂, tr, rfl, h⟩ := h
    by_cases h₂ : e₂ < 0 ∧ e₂ ≠ -eintr
    · rw [if_pos h₂] at h
      obtain ⟨rfl, rfl⟩ := Prog.runs_ret_iff.mp h
      refine ⟨iff_of_false (Int.ne_of_lt h₂.1) ?_, free_cons.mpr ⟨id, free_cons.mpr ⟨id, free_nil⟩⟩⟩
      exact not_free_of_mem (List.mem_cons_of_mem _ List.mem_cons_self) h₂
    · rw [if_neg h₂] at h
      obtain ⟨hiff, hplain⟩ := ih h
      refine ⟨?_, free_cons.mpr ⟨id, free_cons.mpr ⟨id, hplain⟩⟩⟩
      rw [hiff, free_cons, free_cons]
      exact ⟨fun hc => ⟨h₁, h₂, hc⟩, fun hc => hc.2.2⟩

theorem runs_watch (h : (watch second n).Runs tr err) :
    (err = 0 ↔ Free Failed tr) ∧ Free Silent tr := by
  simp only [watch, ToolOp.call, Prog.perform_bind, Prog.runs_call_iff] at h
  obtain ⟨ok, tr, rfl, h⟩ := h
  cases ok with
  | false =>
    obtain ⟨rfl, rfl⟩ := Prog.runs_ret_iff.mp h
    refine ⟨iff_of_false (by decide) ?_, free_cons.mpr ⟨id, free_nil⟩⟩
    exact not_free_of_mem List.mem_cons_self rfl
  | true =>
    obtain ⟨hiff, hplain⟩ := runs_pollLoop h
    refine ⟨?_, free_cons.mpr ⟨id, hplain⟩⟩
    rw [hiff, free_cons]
    exact ⟨fun hc => ⟨Bool.noConfusion, hc⟩, fun hc => hc.2⟩

theorem runs_cleanup (h : (cleanup second err).Runs tr status) :
    (status % 256 = 0 ↔ err = 0) ∧ Free Failed tr ∧ Free Silent tr := by
  simp only [cleanup, ToolOp.call, Prog.perform_bind, Prog.runs_call_iff] at h
  obtain ⟨_, tr, rfl, _, tr, rfl, _, tr, rfl, h⟩ := h
  obtain ⟨rfl, rfl⟩ := Prog.runs_ret_iff.mp h
  refine ⟨?_, ?_, ?_⟩
  · by_cases he : err = 0
    · simp [he]
    · simp [he]
  · exact free_cons.mpr ⟨id, free_cons.mpr ⟨id, free_cons.mpr ⟨id, free_nil⟩⟩⟩
  · exact free_cons.mpr ⟨id, free_cons.mpr ⟨id, free_cons.mpr ⟨id, free_nil⟩⟩⟩

/-- `main` after the attach, whichever pointer is tested first. -/
theorem runs_buffers {b₁ b₂ : Bool}
    (h : (if b₁ && b₂ then watch second n >>= cleanup second else cleanup second 0).Runs
      tr status) :
    let tr' : Trace ToolOp ToolOp.Res :=
      ⟨.perfBufferNew .events, b₁⟩ :: ⟨.perfBufferNew second, b₂⟩ :: tr
    Truthful tr' status ↔ Free Silent tr' := by
  intro tr'
  show (status % 256 = 0 ↔ Free Failed (_ :: _ :: tr)) ↔ Free Silent (_ :: _ :: tr)
  rw [free_cons, free_cons, free_cons, free_cons]
  by_cases hb : b₁ = true ∧ b₂ = true
  · obtain ⟨rfl, rfl⟩ := hb
    obtain ⟨tr₁, tr₂, err, rfl, hw, hc⟩ := Prog.runs_bind_iff.mp h
    obtain ⟨hiff, hplain⟩ := runs_watch hw
    obtain ⟨hstatus, hclean, hplain'⟩ := runs_cleanup hc
    refine iff_of_true ?_ ⟨Bool.noConfusion, Bool.noConfusion, free_append.mpr ⟨hplain, hplain'⟩⟩
    rw [hstatus, hiff, free_append]
    exact ⟨fun hc => ⟨Bool.noConfusion, Bool.noConfusion, hc, hclean⟩, fun hc => hc.2.2.1⟩
  · -- a missing buffer is a failure, and the status is 0
    have hb' : (b₁ && b₂) = false := by
      rw [Bool.and_eq_false_iff]
      cases b₁ <;> cases b₂ <;> simp_all
    rw [hb'] at h
    obtain ⟨hstatus, -, -⟩ := runs_cleanup h
    have hfail : ¬ (¬ b₁ = false ∧ ¬ b₂ = false) := by
      simpa using hb
    refine iff_of_false (fun htrue => ?_) (fun hplain => hfail ⟨hplain.1, hplain.2.1⟩)
    obtain ⟨h₁, h₂, -⟩ := htrue.mp (hstatus.mpr rfl)
    exact hfail ⟨h₁, h₂⟩

theorem runs_tool {rest : Tool Int} (hrest : ∀ tr status, rest.Runs tr status →
      (Truthful tr status ↔ Free Silent tr)) (h : (tool second rest).Runs tr status) :
    Truthful tr status ↔ Free Silent tr := by
  obtain ⟨tr₁, tr₂, r, rfl, hp, h⟩ := Prog.runs_bind_iff.mp h
  rw [Truthful, free_append, free_append]
  rcases runs_prepare hp with ⟨rfl, hclean, hplain⟩ | ⟨s, rfl, hfail, hplain⟩ |
      ⟨err, rfl, herr, hfail, hplain⟩
  · rw [and_iff_right hclean, and_iff_right hplain]
    exact hrest tr₂ status h
  · obtain ⟨rfl, rfl⟩ := Prog.runs_ret_iff.mp h
    simp only [free_nil, and_true]
    rw [hplain]
    constructor
    · intro htrue hz
      exact hfail (htrue.mp hz)
    · intro hz
      exact iff_of_false hz hfail
  · obtain ⟨hstatus, -, hplain'⟩ := runs_cleanup h
    refine iff_of_true (iff_of_false (fun hz => herr (hstatus.mp hz)) fun hc => hfail hc.1) ?_
    exact ⟨hplain, hplain'⟩

end Parts

section Mains

variable {tr : Trace ToolOp ToolOp.Res} {n : Nat} {status : Int}

theorem client_truthful_iff (h : (Client.main n).Runs tr status) :
    Truthful tr status ↔ Free Silent tr := by
  refine runs_tool (fun tr status h => ?_) h
  simp only [ToolOp.call, Prog.perform_bind, Prog.runs_call_iff] at h
  obtain ⟨b₁, tr, rfl, b₂, tr, rfl, h⟩ := h
  refine runs_buffers (n := n) ?_
  cases b₁ <;> cases b₂ <;> exact h

theorem service_truthful_iff (h : (Service.main n).Runs tr status) :
    Truthful tr status ↔ Free Silent tr := by
  refine runs_tool (fun tr status h => ?_) h
  simp only [ToolOp.call, Prog.perform_bind, Prog.runs_call_iff] at h
  obtain ⟨b₁, tr, rfl, b₂, tr, rfl, h⟩ := h
  refine runs_buffers (n := n) ?_
  cases b₁ <;> cases b₂ <;> exact h

end Mains

end Ebpf

/-! ### The XDP loader -/

namespace Loader

/-- A call that failed; `-EINTR` from a poll is no failure. -/
def Failed : (Σ op : Op, op.Res) → Prop
  | ⟨.signal, ok⟩ => ok = false
  | ⟨.xdpProgramCreate, err⟩ => err ≠ 0
  | ⟨.xdpProgramAttach _, err⟩ => err ≠ 0
  | ⟨.xdpProgramFd, fd⟩ => fd < 0
  | ⟨.findMapByName _, fd⟩ => fd < 0
  | ⟨.ringBufferNew, rb⟩ => rb = false
  | ⟨.ringBufferPoll _, none⟩ => True
  | ⟨.ringBufferPoll _, some err⟩ => err < 0 ∧ err ≠ -eintr
  | ⟨.ringBufferFree _, _⟩ => False
  | ⟨.multiprogGetFromIfindex, .ok (some _)⟩ => False
  | ⟨.multiprogGetFromIfindex, _⟩ => True
  | ⟨.multiprogDetach _, err⟩ => err ≠ 0
  | ⟨.programDetach _ _, err⟩ => err ≠ 0
  | ⟨.multiprogClose, _⟩ => False

/-- A failure that does not show: no ring buffer if the signal comes before the first
poll, a poll that fails, or a call of `do_unload` at the end of `main`.  And a status
has eight bits only. -/
def Silent (sigint : Nat) : (Σ op : Op, op.Res) → Prop
  | ⟨.xdpProgramAttach _, err⟩ => err ≠ 0 ∧ err % 256 = 0
  | ⟨.ringBufferNew, rb⟩ => rb = false ∧ sigint = 0
  | ⟨.ringBufferPoll _, some err⟩ => err < 0 ∧ err ≠ -eintr
  | ⟨.multiprogGetFromIfindex, .ok (some _)⟩ => False
  | ⟨.multiprogGetFromIfindex, _⟩ => True
  | ⟨.multiprogDetach _, err⟩ => err ≠ 0
  | _ => False

/-- The exit status that the parent sees; there is none after a fault. -/
def Exit.status : Exit → Option Int
  | .exit status => some (status % 256)
  | .segfault => none

def Truthful (tr : Trace Op Op.Res) (e : Exit) : Prop := e.status = some 0 ↔ Free Failed tr

/-- `ring_buffer__poll` faults if it is given `NULL`, and only then. -/
def Faults (tr : Trace Op Op.Res) : Prop :=
  ∀ rb r, ⟨Op.ringBufferPoll rb, r⟩ ∈ tr → (r = none ↔ rb = false)

section Parts

variable {cfg : Config} {tr : Trace Op Op.Res} {m n : Nat} {rb : Bool} {e : Exit}

/-- `do_unload` of everything: `main` maps both of its results to 0. -/
theorem runs_doUnload {err : Int} (hall : cfg.unloadAll = true) (h : (doUnload cfg).Runs tr err) :
    ¬ err < 0 ∧ (Free Failed tr ↔ Free (Silent m) tr) := by
  simp only [doUnload, call, Prog.perform_bind, Prog.runs_call_iff] at h
  obtain ⟨r, tr, rfl, h⟩ := h
  cases r with
  | error err' =>
    rw [Prog.runs_call_iff] at h
    obtain ⟨_, tr, rfl, h⟩ := h
    obtain ⟨rfl, rfl⟩ := Prog.runs_ret_iff.mp h
    exact ⟨by decide, iff_of_false (not_free_of_mem List.mem_cons_self trivial)
      (not_free_of_mem List.mem_cons_self trivial)⟩
  | ok mp =>
    cases mp with
    | none =>
      rw [Prog.runs_call_iff] at h
      obtain ⟨_, tr, rfl, h⟩ := h
      obtain ⟨rfl, rfl⟩ := Prog.runs_ret_iff.mp h
      exact ⟨by decide, iff_of_false (not_free_of_mem List.mem_cons_self trivial)
        (not_free_of_mem List.mem_cons_self trivial)⟩
    | some mp =>
      simp only [hall, if_true, Prog.runs_call_iff] at h
      obtain ⟨err', tr, rfl, _, tr, rfl, h⟩ := h
      obtain ⟨rfl, rfl⟩ := Prog.runs_ret_iff.mp h
      refine ⟨?_, ?_⟩
      · split <;> decide
      · rw [free_cons, free_cons, free_cons, free_cons, free_cons, free_cons]
        exact ⟨fun hf => ⟨id, hf.2.1, id, free_nil⟩, fun hf => ⟨id, hf.2.1, id, free_nil⟩⟩

theorem Faults.tail {x : Σ op : Op, op.Res} (h : Faults (x :: tr)) : Faults tr :=
  fun rb r hmem => h rb r (List.mem_cons_of_mem x hmem)

/-- With a ring buffer the loop ends, and a poll that failed is forgotten. -/
theorem runs_pollLoop {r : Except Exit Unit} (h : (pollLoop true n).Runs tr r) (hf : Faults tr) :
    r = .ok () ∧ (Free Failed tr ↔ Free (Silent m) tr) := by
  induction n generalizing tr with
  | zero =>
    obtain ⟨rfl, rfl⟩ := Prog.runs_ret_iff.mp h
    exact ⟨rfl, iff_of_true free_nil free_nil⟩
  | succ n ih =>
    simp only [pollLoop, call, Prog.perform_bind, Prog.runs_call_iff] at h
    obtain ⟨answer, tr, rfl, h⟩ := h
    cases answer with
    | none => exact absurd ((hf true none List.mem_cons_self).mp rfl) Bool.noConfusion
    | some err =>
      have hhead : Failed ⟨.ringBufferPoll true, some err⟩ ↔
          Silent m ⟨.ringBufferPoll true, some err⟩ :=
        Iff.rfl
      rw [free_cons, free_cons, hhead]
      dsimp only at h
      split at h
      · obtain ⟨rfl, rfl⟩ := Prog.runs_ret_iff.mp h
        exact ⟨rfl, and_congr_right fun _ => iff_of_true free_nil free_nil⟩
      · split at h
        · obtain ⟨rfl, rfl⟩ := Prog.runs_ret_iff.mp h
          exact ⟨rfl, and_congr_right fun _ => iff_of_true free_nil free_nil⟩
        · obtain ⟨hr, hiff⟩ := ih h hf.tail
          exact ⟨hr, and_congr_right fun _ => hiff⟩

/-- The end of `main` gives 0, whatever `do_unload` does. -/
theorem runs_finish (h : (finish cfg rb).Runs tr e) :
    e = .exit 0 ∧ (Free Failed tr ↔ Free (Silent m) tr) := by
  simp only [finish, call, Prog.perform_bind, Prog.runs_call_iff] at h
  obtain ⟨_, tr, rfl, h⟩ := h
  obtain ⟨tr₁, tr₂, err, rfl, hu, h⟩ := Prog.runs_bind_iff.mp h
  obtain ⟨hneg, hiff⟩ := runs_doUnload rfl hu
  obtain ⟨rfl, rfl⟩ := Prog.runs_ret_iff.mp h
  rw [if_neg hneg, free_cons, free_cons, free_append, free_append, hiff]
  exact ⟨rfl, and_congr_right fun _ => and_congr_right fun _ => iff_of_true free_nil free_nil⟩

/-- A run that goes on after a call that did not fail. -/
theorem truthful_cons {x : Σ op : Op, op.Res} (hx : ¬ Failed x) (hs : ¬ Silent m x)
    (h : Truthful tr e ↔ Free (Silent m) tr) :
    Truthful (x :: tr) e ↔ Free (Silent m) (x :: tr) := by
  rw [free_cons, and_iff_right hs, ← h, Truthful, Truthful, free_cons, and_iff_right hx]

/-- A run that ends with a call that failed, and with another status than 0. -/
theorem truthful_singleton {x : Σ op : Op, op.Res} (hx : Failed x) (he : e.status ≠ some 0)
    (hs : ¬ Silent m x) : Truthful [x] e ↔ Free (Silent m) [x] :=
  iff_of_true (iff_of_false he (not_free_of_mem List.mem_cons_self hx))
    (free_cons.mpr ⟨hs, free_nil⟩)

theorem runs_monitorPackets (h : (monitorPackets cfg n).Runs tr e) (hf : Faults tr) :
    Truthful tr e ↔ Free (Silent n) tr := by
  simp only [monitorPackets, call, Prog.perform_bind, Prog.runs_call_iff] at h
  obtain ⟨fd, tr, rfl, h⟩ := h
  by_cases hfd : fd < 0
  · rw [if_pos hfd] at h
    obtain ⟨rfl, rfl⟩ := Prog.runs_ret_iff.mp h
    exact truthful_singleton hfd (by decide) id
  rw [if_neg hfd, Prog.runs_call_iff] at h
  obtain ⟨rb, tr, rfl, h⟩ := h
  refine truthful_cons hfd id ?_
  obtain ⟨tr₁, tr₂, r, rfl, hloop, h⟩ := Prog.runs_bind_iff.mp h
  have hf₁ : Faults tr₁ := fun b r hmem => hf.tail.tail b r (List.mem_append_left _ hmem)
  cases rb with
  | true =>
    obtain ⟨rfl, hiff⟩ := runs_pollLoop (m := n) hloop hf₁
    obtain ⟨rfl, hiff'⟩ := runs_finish (m := n) h
    refine truthful_cons Bool.noConfusion (fun hs => Bool.noConfusion hs.1) ?_
    rw [Truthful, free_append, free_append, hiff, hiff']
    exact iff_true_left rfl
  | false =>
    cases n with
    | zero =>
      obtain ⟨rfl, rfl⟩ := Prog.runs_ret_iff.mp hloop
      obtain ⟨rfl, -⟩ := runs_finish (m := 0) h
      refine iff_of_false (fun ht => ?_) (not_free_of_mem List.mem_cons_self ⟨rfl, rfl⟩)
      have hfree := ht.mp rfl
      exact (free_cons.mp hfree).1 rfl
    | succ n =>
      -- the first poll faults
      simp only [pollLoop, call, Prog.perform_bind, Prog.runs_call_iff] at hloop
      obtain ⟨answer, tr₁, rfl, hloop⟩ := hloop
      obtain rfl := (hf₁ false answer List.mem_cons_self).mpr rfl
      obtain ⟨rfl, rfl⟩ := Prog.runs_ret_iff.mp hloop
      obtain ⟨rfl, rfl⟩ := Prog.runs_ret_iff.mp h
      refine iff_of_true (iff_of_false (by decide) (not_free_of_mem List.mem_cons_self rfl)) ?_
      exact free_cons.mpr ⟨fun hs => Nat.noConfusion hs.2, free_cons.mpr ⟨id, free_nil⟩⟩

/-- **The XDP loader** in monitoring mode. -/
theorem main_truthful_iff (hcfg : cfg.Monitoring) (h : (main cfg n).Runs tr e) (hf : Faults tr) :
    Truthful tr e ↔ Free (Silent n) tr := by
  simp only [main, call, Prog.perform_bind, Prog.runs_call_iff] at h
  obtain ⟨ok, tr, rfl, h⟩ := h
  cases ok with
  | false =>
    obtain ⟨rfl, rfl⟩ := Prog.runs_ret_iff.mp h
    exact truthful_singleton rfl (by decide) id
  | true =>
    refine truthful_cons Bool.noConfusion id ?_
    simp only [Bool.not_true, Bool.false_eq_true, if_false, hcfg.ifindex, hcfg.doUnload,
      hcfg.unloadAll, Bool.or_self] at h
    obtain ⟨tr₁, tr₂, r, rfl, hload, h⟩ := Prog.runs_bind_iff.mp h
    simp only [loadBpfAndXdpAttach, call, Prog.perform_bind, Prog.runs_call_iff] at hload
    obtain ⟨e₁, tr₁, rfl, hload⟩ := hload
    by_cases h₁ : e₁ ≠ 0
    · rw [if_pos h₁] at hload
      obtain ⟨rfl, rfl⟩ := Prog.runs_ret_iff.mp hload
      obtain ⟨rfl, rfl⟩ := Prog.runs_ret_iff.mp h
      exact truthful_singleton h₁ (by decide) id
    rw [if_neg h₁, Prog.runs_call_iff] at hload
    obtain ⟨e₂, tr₁, rfl, hload⟩ := hload
    refine truthful_cons h₁ id ?_
    by_cases h₂ : e₂ ≠ 0
    · rw [if_pos h₂] at hload
      obtain ⟨rfl, rfl⟩ := Prog.runs_ret_iff.mp hload
      obtain ⟨rfl, rfl⟩ := Prog.runs_ret_iff.mp h
      by_cases hz : e₂ % 256 = 0
      · refine iff_of_false (fun ht => ?_) (not_free_of_mem List.mem_cons_self ⟨h₂, hz⟩)
        exact not_free_of_mem List.mem_cons_self h₂ (ht.mp (congrArg some hz))
      · exact truthful_singleton h₂ (fun he => hz (Option.some.inj he)) fun hs => hz hs.2
    rw [if_neg h₂, Prog.runs_call_iff] at hload
    obtain ⟨fd, tr₁, rfl, hload⟩ := hload
    refine truthful_cons h₂ (fun hs => h₂ hs.1) ?_
    by_cases hfd : fd < 0
    · rw [if_pos hfd] at hload
      obtain ⟨rfl, rfl⟩ := Prog.runs_ret_iff.mp hload
      obtain ⟨rfl, rfl⟩ := Prog.runs_ret_iff.mp h
      exact truthful_singleton hfd (by decide) id
    · rw [if_neg hfd] at hload
      obtain ⟨rfl, rfl⟩ := Prog.runs_ret_iff.mp hload
      exact truthful_cons hfd id (runs_monitorPackets h hf.tail.tail.tail.tail)

end Parts

end Loader

/-! ### The three tools -/

/-- **Exit statuses.**  For every number of polls and every assignment of answers to the
calls of a run, the status is 0 exactly if no call failed, if and only if no call failed
silently: for the tracing tools a `perf_buffer__new`; for the loader in monitoring mode
a poll, a call of the final `do_unload`, or `ring_buffer__new` when the signal comes
before the first poll; for all of them a status whose low eight bits are 0. -/
theorem exit_status_truthful_iff (n : Nat) :
    (∀ tr status, (Ebpf.Client.main n).Runs tr status →
      ((status % 256 = 0 ↔ Free Ebpf.Failed tr) ↔ Free Ebpf.Silent tr)) ∧
    (∀ tr status, (Ebpf.Service.main n).Runs tr status →
      ((status % 256 = 0 ↔ Free Ebpf.Failed tr) ↔ Free Ebpf.Silent tr)) ∧
    ∀ cfg : Loader.Config, cfg.Monitoring → ∀ tr e, (Loader.main cfg n).Runs tr e →
      Loader.Faults tr →
      ((e.status = some 0 ↔ Free Loader.Failed tr) ↔ Free (Loader.Silent n) tr) := by
  refine ⟨fun tr status h => ?_, fun tr status h => ?_, fun cfg hcfg tr e h hf => ?_⟩
  · exact Ebpf.client_truthful_iff h
  · exact Ebpf.service_truthful_iff h
  · exact Loader.main_truthful_iff hcfg h hf

/-- A run of `tcp_analyse` with one pass of the loop, in which a poll is interrupted. -/
def exampleToolTrace : Trace Ebpf.ToolOp Ebpf.ToolOp.Res :=
  [⟨.argpParse, 0⟩, ⟨.bpfOpen, true⟩, ⟨.bpfLoad, 0⟩, ⟨.bpfAttach, 0⟩,
    ⟨.perfBufferNew .events, true⟩, ⟨.perfBufferNew .tcpSendmsgEvents, true⟩, ⟨.signal, true⟩,
    ⟨.perfBufferPoll .events, -4⟩, ⟨.perfBufferPoll .tcpSendmsgEvents, 1⟩,
    ⟨.perfBufferFree .events, ()⟩, ⟨.perfBufferFree .tcpSendmsgEvents, ()⟩, ⟨.bpfDestroy, ()⟩]

theorem runs_exampleToolTrace : (Ebpf.Client.main 1).Runs exampleToolTrace 0 :=
  .call _ (.call _ (.call _ (.call _ (.call _ (.call _ (.call _ (.call _ (.call _ (.call _
    (.call _ (.call _ (.ret _))))))))))))

/-- A run of the loader with the polls `polls`. -/
def exampleLoaderTrace (rb : Bool) (polls : Trace Loader.Op Loader.Op.Res) (detach : Int) :
    Trace Loader.Op Loader.Op.Res :=
  [⟨.signal, true⟩, ⟨.xdpProgramCreate, 0⟩, ⟨.xdpProgramAttach .skb, 0⟩, ⟨.xdpProgramFd, 5⟩,
    ⟨.findMapByName "packet_ringbuf", 6⟩, ⟨.ringBufferNew, rb⟩] ++ polls ++
  [⟨.ringBufferFree rb, ()⟩,
    ⟨.multiprogGetFromIfindex, .ok (some ⟨[7], false, .skb, none⟩)⟩,
    ⟨.multiprogDetach ⟨[7], false, .skb, none⟩, detach⟩, ⟨.multiprogClose, ()⟩]

theorem exit_status_truthful_iff_example :
    (Ebpf.Client.main 1).Runs exampleToolTrace 0 ∧
    (((0 : Int) % 256 = 0 ↔ Free Ebpf.Failed exampleToolTrace) ↔
      Free Ebpf.Silent exampleToolTrace) ∧
    (Loader.main Loader.exampleConfig 0).Runs (exampleLoaderTrace true [] 0) (.exit 0) ∧
    (((Loader.Exit.exit 0).status = some 0 ↔ Free Loader.Failed (exampleLoaderTrace true [] 0)) ↔
      Free (Loader.Silent 0) (exampleLoaderTrace true [] 0)) := by
  have hloader : (Loader.main Loader.exampleConfig 0).Runs (exampleLoaderTrace true [] 0)
      (.exit 0) :=
    .call _ (.call _ (.call _ (.call _ (.call _ (.call _ (.call _ (.call _ (.call _ (.call _
      (.ret _))))))))))
  refine ⟨runs_exampleToolTrace, (exit_status_truthful_iff 1).1 _ _ runs_exampleToolTrace,
    hloader, ?_⟩
  refine (exit_status_truthful_iff 0).2.2 _ Loader.monitoring_exampleConfig _ _ hloader ?_
  intro rb r hmem
  simp [exampleLoaderTrace] at hmem

/-- **Failures that the status does not show.**  `tcp_analyse` and `tcp_analyse_service`
without their second perf buffer end with status 0.  So does the loader after a poll
that fails with `-EIO`, after a final detach that fails, and without a ring buffer when
the signal comes before the first poll. -/
theorem exit_status_hides_failures :
    (∃ tr, (Ebpf.Client.main 0).Runs tr 0 ∧ ¬ Free Ebpf.Failed tr) ∧
    (∃ tr, (Ebpf.Service.main 0).Runs tr 0 ∧ ¬ Free Ebpf.Failed tr) ∧
    (∃ tr, (Loader.main Loader.exampleConfig 1).Runs tr (.exit 0) ∧ ¬ Free Loader.Failed tr ∧
      ⟨.ringBufferPoll true, some (-5)⟩ ∈ tr) ∧
    (∃ tr, (Loader.main Loader.exampleConfig 0).Runs tr (.exit 0) ∧ ¬ Free Loader.Failed tr ∧
      ⟨.multiprogDetach ⟨[7], false, .skb, none⟩, -1⟩ ∈ tr) ∧
    ∃ tr, (Loader.main Loader.exampleConfig 0).Runs tr (.exit 0) ∧ ¬ Free Loader.Failed tr ∧
      ⟨.ringBufferNew, false⟩ ∈ tr := by
  refine ⟨⟨[⟨.argpParse, 0⟩, ⟨.bpfOpen, true⟩, ⟨.bpfLoad, 0⟩, ⟨.bpfAttach, 0⟩,
      ⟨.perfBufferNew .events, true⟩, ⟨.perfBufferNew .tcpSendmsgEvents, false⟩,
      ⟨.perfBufferFree .events, ()⟩, ⟨.perfBufferFree .tcpSendmsgEvents, ()⟩,
      ⟨.bpfDestroy, ()⟩], ?_, ?_⟩,
    ⟨[⟨.argpParse, 0⟩, ⟨.bpfOpen, true⟩, ⟨.bpfLoad, 0⟩, ⟨.bpfAttach, 0⟩,
      ⟨.perfBufferNew .events, true⟩, ⟨.perfBufferNew .tcpRecvmsgEvents, false⟩,
      ⟨.perfBufferFree .events, ()⟩, ⟨.perfBufferFree .tcpRecvmsgEvents, ()⟩,
      ⟨.bpfDestroy, ()⟩], ?_, ?_⟩,
    ⟨exampleLoaderTrace true [⟨.ringBufferPoll true, some (-5)⟩] 0, ?_, ?_, ?_⟩,
    ⟨exampleLoaderTrace true [] (-1), ?_, ?_, ?_⟩, ⟨exampleLoaderTrace false [] 0, ?_, ?_, ?_⟩⟩
  · exact .call _ (.call _ (.call _ (.call _ (.call _ (.call _ (.call _ (.call _ (.call _
      (.ret _)))))))))
  · intro hf
    exact hf ⟨.perfBufferNew .tcpSendmsgEvents, false⟩ (by simp) rfl
  · exact .call _ (.call _ (.call _ (.call _ (.call _ (.call _ (.call _ (.call _ (.call _
      (.ret _)))))))))
  · intro hf
    exact hf ⟨.perfBufferNew .tcpRecvmsgEvents, false⟩ (by simp) rfl
  · exact .call _ (.call _ (.call _ (.call _ (.call _ (.call _ (.call _ (.call _ (.call _ (.call _
      (.call _ (.ret _)))))))))))
  · intro hf
    exact hf ⟨.ringBufferPoll true, some (-5)⟩ (by simp [exampleLoaderTrace])
      ⟨by decide, by decide⟩
  · simp [exampleLoaderTrace]
  · exact .call _ (.call _ (.call _ (.call _ (.call _ (.call _ (.call _ (.call _ (.call _ (.call _
      (.ret _))))))))))
  · intro hf
    exact hf ⟨.multiprogDetach ⟨[7], false, .skb, none⟩, -1⟩ (by simp [exampleLoaderTrace])
      (show (-1 : Int) ≠ 0 by decide)
  · simp [exampleLoaderTrace]
  · exact .call _ (.call _ (.call _ (.call _ (.call _ (.call _ (.call _ (.call _ (.call _ (.call _
      (.ret _))))))))))
  · intro hf
    exact hf ⟨.ringBufferNew, false⟩ (by simp [exampleLoaderTrace]) rfl
  · simp [exampleLoaderTrace]

end NetworkAnalyse
