import NetworkAnalyse.Utils.Clock

/-!
# The network stack processing time

The loop of `worker_thread` (`service/server.cpp`) over the control messages of a packet.
For every time stamp it prints the seconds and the microseconds from the arrival of the
packet to now.  Both are plain differences, and nothing is borrowed from the seconds when
the microseconds run over in between.

* `shownTimes_of_runs`: what a run of the loop prints, for any control messages.
* `exact_stackTime_iff`: when the two numbers are the elapsed time.
* `stackTimes_iff`: the same, for a whole run.
-/

namespace NetworkAnalyse.Server

open Lib Utils

/-! ### The loop -/

def solSocket : Int32 := 1
def soTimestamp : Int32 := 29

/-- A control message; `data` is what `CMSG_DATA` points to, as a `timeval`. -/
structure Cmsg where
  cmsgLevel : Int32
  cmsgType : Int32
  data : Timeval
  deriving DecidableEq, Repr

/-- The two numbers of a line: `none` is an overflow. -/
structure StackTime where
  sec : Option Int64
  usec : Option Int64
  deriving DecidableEq, Repr

/-- `cur_time.tv_sec - tv->tv_sec` and `cur_time.tv_usec - tv->tv_usec`. -/
def stackTime (tv curTime : Timeval) : StackTime where
  sec := Long.sub curTime.tvSec tv.tvSec
  usec := Long.sub curTime.tvUsec tv.tvUsec

inductive TimeOp
  | getCurrentTimeval
  | getSysStartTimestampUs
  | printStackTime (t : StackTime)
  | printEpochTime (us : Int64)

@[reducible] def TimeOp.Res : TimeOp → Type
  | getCurrentTimeval => Timeval
  | getSysStartTimestampUs => UInt64
  | printStackTime _ => Unit
  | printEpochTime _ => Unit

def TimeOp.call (op : TimeOp) : Prog TimeOp TimeOp.Res op.Res := .perform op

def Cmsg.IsTimestamp (cmsg : Cmsg) : Prop :=
  cmsg.cmsgLevel = solSocket ∧ cmsg.cmsgType = soTimestamp

instance (cmsg : Cmsg) : Decidable cmsg.IsTimestamp := inferInstanceAs (Decidable (_ ∧ _))

/-- From `CMSG_FIRSTHDR` on, with `CMSG_NXTHDR`. -/
def cmsgLoop : List Cmsg → Prog TimeOp TimeOp.Res Unit
  | [] => return ()
  | cmsg :: cmsgs => do
    if cmsg.IsTimestamp then
      let tv := cmsg.data
      let curTime ← TimeOp.getCurrentTimeval.call
      (TimeOp.printStackTime (stackTime tv curTime)).call
      let curEpochTime ← TimeOp.getSysStartTimestampUs.call
      (TimeOp.printEpochTime curEpochTime.toInt64).call
      cmsgLoop cmsgs
    else
      cmsgLoop cmsgs

/-! ### What a run prints -/

/-- The time stamps among the control messages. -/
def stamps (cmsgs : List Cmsg) : List Timeval :=
  (cmsgs.filter (·.IsTimestamp)).map (·.data)

def curTimeOf : (Σ op : TimeOp, op.Res) → Option Timeval
  | ⟨.getCurrentTimeval, curTime⟩ => some curTime
  | _ => none

/-- What `get_current_timeval` has answered. -/
def curTimes (tr : Trace TimeOp TimeOp.Res) : List Timeval := tr.filterMap curTimeOf

def stackTimeOf : (Σ op : TimeOp, op.Res) → Option StackTime
  | ⟨.printStackTime t, _⟩ => some t
  | _ => none

/-- The pairs of numbers that are printed. -/
def shownTimes (tr : Trace TimeOp TimeOp.Res) : List StackTime := tr.filterMap stackTimeOf

/-- The time stamps, each with the reading of the clock that it is compared with. -/
def readings (cmsgs : List Cmsg) (tr : Trace TimeOp TimeOp.Res) : List (Timeval × Timeval) :=
  (stamps cmsgs).zip (curTimes tr)

section Run

variable {cmsgs : List Cmsg} {tr : Trace TimeOp TimeOp.Res}

/-- By induction on the control messages. -/
theorem shownTimes_of_runs (h : (cmsgLoop cmsgs).Runs tr ()) :
    (curTimes tr).length = (stamps cmsgs).length ∧
      shownTimes tr = (readings cmsgs tr).map fun r => stackTime r.1 r.2 := by
  induction cmsgs generalizing tr with
  | nil =>
    obtain ⟨rfl, -⟩ := Prog.runs_ret_iff.mp h
    exact ⟨rfl, rfl⟩
  | cons cmsg cmsgs ih =>
    rw [cmsgLoop] at h
    by_cases ht : cmsg.IsTimestamp
    · simp only [if_pos ht, TimeOp.call, Prog.perform_bind, Prog.runs_call_iff] at h
      obtain ⟨curTime, _, rfl, _, _, rfl, curEpochTime, _, rfl, _, rest, rfl, h⟩ := h
      obtain ⟨hlen, hshown⟩ := ih h
      have hstamps : stamps (cmsg :: cmsgs) = cmsg.data :: stamps cmsgs := by
        simp [stamps, ht]
      rw [readings, hstamps]
      exact ⟨congrArg (· + 1) hlen, congrArg (stackTime cmsg.data curTime :: ·) hshown⟩
    · rw [if_neg ht] at h
      have hstamps : stamps (cmsg :: cmsgs) = stamps cmsgs := by
        simp [stamps, ht]
      rw [readings, hstamps]
      exact ih h

end Run

/-! ### The elapsed time -/

/-- Seconds and microseconds are not negative, and the latter are less than a second. -/
structure Normalised (tv : Timeval) : Prop where
  sec : 0 ≤ tv.tvSec.toInt
  usec : 0 ≤ tv.tvUsec.toInt
  lt : tv.tvUsec.toInt < 1000000

namespace StackTime

/-- The two numbers denote this time. -/
def Denotes (t : StackTime) (us : Int) : Prop :=
  ∃ s u, t = ⟨some s, some u⟩ ∧ s.toInt * 1000000 + u.toInt = us

/-- And they are normalised. -/
def Exact (t : StackTime) (us : Int) : Prop :=
  ∃ s u, t = ⟨some s, some u⟩ ∧ Normalised ⟨s, u⟩ ∧ s.toInt * 1000000 + u.toInt = us

end StackTime

section Elapsed

variable {tv curTime : Timeval}

/-- The differences, of two normalised times. -/
theorem exists_stackTime (htv : Normalised tv) (hcur : Normalised curTime) :
    ∃ s u, stackTime tv curTime = ⟨some s, some u⟩ ∧
      s.toInt = curTime.tvSec.toInt - tv.tvSec.toInt ∧
      u.toInt = curTime.tvUsec.toInt - tv.tvUsec.toInt := by
  obtain ⟨s, hs, hsec⟩ := Long.exists_sub hcur.sec htv.sec
  obtain ⟨u, hu, husec⟩ := Long.exists_sub hcur.usec htv.usec
  refine ⟨s, u, ?_, hsec, husec⟩
  rw [stackTime, hs, hu]

theorem denotes_stackTime (htv : Normalised tv) (hcur : Normalised curTime) :
    (stackTime tv curTime).Denotes (curTime.us - tv.us) := by
  obtain ⟨s, u, heq, hs, hu⟩ := exists_stackTime htv hcur
  refine ⟨s, u, heq, ?_⟩
  rw [hs, hu, Timeval.us, Timeval.us]
  omega

/-- The numbers are normalised unless the microseconds have run over. -/
theorem exact_stackTime_iff (htv : Normalised tv) (hcur : Normalised curTime)
    (hle : tv.us ≤ curTime.us) :
    (stackTime tv curTime).Exact (curTime.us - tv.us) ↔
      tv.tvUsec.toInt ≤ curTime.tvUsec.toInt := by
  obtain ⟨s, u, heq, hs, hu⟩ := exists_stackTime htv hcur
  have hlt := hcur.lt
  have hpos := htv.usec
  constructor
  · intro h
    obtain ⟨s', u', heq', hn, -⟩ := h
    obtain rfl : u = u' := Option.some.inj (congrArg StackTime.usec (heq.symm.trans heq'))
    have hneg : 0 ≤ u.toInt := hn.usec
    omega
  · intro h
    rw [Timeval.us, Timeval.us] at hle ⊢
    have hsec : 0 ≤ s.toInt := by omega
    have husec : 0 ≤ u.toInt ∧ u.toInt < 1000000 := by omega
    exact ⟨s, u, heq, ⟨hsec, husec.1, husec.2⟩, by omega⟩

end Elapsed

/-- **When the printed times are right**, for all control messages and all readings of the
clock that are not before the time stamp: all numbers of a run are normalised and denote
the elapsed times if and only if the microseconds of no reading are less than those of its
time stamp.  They denote the elapsed times in any case. -/
theorem stackTimes_iff {cmsgs : List Cmsg} {tr : Trace TimeOp TimeOp.Res}
    (hrun : (cmsgLoop cmsgs).Runs tr ())
    (hr : ∀ r ∈ readings cmsgs tr, Normalised r.1 ∧ Normalised r.2 ∧ r.1.us ≤ r.2.us) :
    (curTimes tr).length = (stamps cmsgs).length ∧
    (shownTimes tr = (readings cmsgs tr).map fun r => stackTime r.1 r.2) ∧
    (∀ r ∈ readings cmsgs tr, (stackTime r.1 r.2).Denotes (r.2.us - r.1.us)) ∧
    ((∀ r ∈ readings cmsgs tr, (stackTime r.1 r.2).Exact (r.2.us - r.1.us)) ↔
      ∀ r ∈ readings cmsgs tr, r.1.tvUsec.toInt ≤ r.2.tvUsec.toInt) := by
  obtain ⟨hlen, hshown⟩ := shownTimes_of_runs hrun
  refine ⟨hlen, hshown, fun r hmem => denotes_stackTime (hr r hmem).1 (hr r hmem).2.1, ?_⟩
  refine forall₂_congr fun r hmem => ?_
  obtain ⟨htv, hcur, hle⟩ := hr r hmem
  exact exact_stackTime_iff htv hcur hle

/-! ### Two packets -/

/-- The run for one control message, a time stamp. -/
def runOf (tv curTime : Timeval) : Trace TimeOp TimeOp.Res :=
  [⟨.getCurrentTimeval, curTime⟩, ⟨.printStackTime (stackTime tv curTime), ()⟩,
    ⟨.getSysStartTimestampUs, 0⟩, ⟨.printEpochTime 0, ()⟩]

theorem runs_runOf (tv curTime : Timeval) :
    (cmsgLoop [⟨solSocket, soTimestamp, tv⟩]).Runs (runOf tv curTime) () := by
  rw [cmsgLoop, if_pos ⟨rfl, rfl⟩]
  exact .call _ (.call _ (.call _ (.call _ (.ret _))))

/-- A packet that arrives at 5.1 s and is read at 6.3 s. -/
theorem stackTimes_iff_example :
    shownTimes (runOf ⟨5, 100000⟩ ⟨6, 300000⟩) = [⟨some 1, some 200000⟩] ∧
      (stackTime ⟨5, 100000⟩ ⟨6, 300000⟩).Exact 1200000 := by
  refine ⟨by decide, ?_⟩
  have hr : ∀ r ∈ readings [⟨solSocket, soTimestamp, ⟨5, 100000⟩⟩] (runOf ⟨5, 100000⟩ ⟨6, 300000⟩),
      Normalised r.1 ∧ Normalised r.2 ∧ r.1.us ≤ r.2.us := by
    intro r hmem
    obtain rfl : r = (⟨5, 100000⟩, ⟨6, 300000⟩) := List.mem_singleton.mp hmem
    exact ⟨⟨by decide, by decide, by decide⟩, ⟨by decide, by decide, by decide⟩, by decide⟩
  have hexact := (stackTimes_iff (runs_runOf ⟨5, 100000⟩ ⟨6, 300000⟩) hr).2.2.2.mpr (by
    intro r hmem
    obtain rfl : r = (⟨5, 100000⟩, ⟨6, 300000⟩) := List.mem_singleton.mp hmem
    decide) (⟨5, 100000⟩, ⟨6, 300000⟩) (List.mem_singleton_self _)
  have helapsed : (⟨6, 300000⟩ : Timeval).us - (⟨5, 100000⟩ : Timeval).us = 1200000 := by decide
  rwa [helapsed] at hexact

/-- **A negative fraction.**  For a packet that arrives at 5.9 s and is read at 6.1 s the
numbers are one second and minus 800000 microseconds. -/
theorem stackTime_negative :
    (cmsgLoop [⟨solSocket, soTimestamp, ⟨5, 900000⟩⟩]).Runs (runOf ⟨5, 900000⟩ ⟨6, 100000⟩) () ∧
      shownTimes (runOf ⟨5, 900000⟩ ⟨6, 100000⟩) = [⟨some 1, some (-800000)⟩] ∧
      ¬ (stackTime ⟨5, 900000⟩ ⟨6, 100000⟩).Exact 200000 := by
  refine ⟨runs_runOf _ _, by decide, ?_⟩
  intro h
  obtain ⟨s, u, heq, hn, -⟩ := h
  have hu : (stackTime ⟨5, 900000⟩ ⟨6, 100000⟩).usec = some (-800000) := by decide
  obtain rfl : u = -800000 := by
    rw [heq] at hu
    exact Option.some.inj hu
  have hneg : 0 ≤ (-800000 : Int64).toInt := hn.usec
  exact absurd hneg (by decide)

end NetworkAnalyse.Server
