import NetworkAnalyse.Ebpf.Helpers
import NetworkAnalyse.Lib.Long

/-!
# Unix time and time since boot

The clock functions of `utils.cpp`.  `tranfer_unix_time2epoch_time` converts an instant of
the wall clock to the clock that counts from boot.  It reads both clocks and uses the
difference of the readings, which it adds; the boot clock is behind.

The calls are answered by `Clocks`, one for both readings.  An instant is a number of
microseconds (`Timeval.us`); the code computes it in `long`s (`Timeval.micros`).

* `tsUs_fill`: the boot clock is the one of the BPF handlers.
* `tranfer_eq_some_iff`: what the conversion computes.
* `sameInstant_iff`: when this is the same instant.
-/

namespace NetworkAnalyse.Utils

open Lib

/-! ### The functions -/

/-- `struct timeval`. -/
structure Timeval where
  tvSec : Int64
  tvUsec : Int64
  deriving DecidableEq, Repr

/-- What the clocks show at one moment. -/
structure Clocks where
  gettimeofday : Timeval
  /-- `steady_clock`, in nanoseconds since boot -/
  steadyNs : Int64
  deriving DecidableEq, Repr

def getCurrentTimeval (c : Clocks) : Timeval := c.gettimeofday

/-- `uptime_ns / 1000ull` is a division of unsigned numbers. -/
def getSysStartTimestampUs (c : Clocks) : UInt64 := c.steadyNs.toUInt64 / 1000

/-- `tv_sec * 1000000 + tv_usec`. -/
def Timeval.micros (tv : Timeval) : Option Int64 := do
  let sec ← Long.mul tv.tvSec 1000000
  Long.add sec tv.tvUsec

/-- The result is `none` if a signed operation overflows. -/
def tranferUnixTime2epochTime (c : Clocks) (unixTime : Timeval) : Option UInt64 := do
  let curUnix := getCurrentTimeval c
  let curEpoch := (getSysStartTimestampUs c).toInt64
  let tmp ← Long.sub (← curUnix.micros) curEpoch
  let sum ← Long.add (← unixTime.micros) tmp
  return sum.toUInt64

/-! ### Instants -/

/-- The instant, in microseconds since the epoch of the wall clock. -/
def Timeval.us (tv : Timeval) : Int := tv.tvSec.toInt * 1000000 + tv.tvUsec.toInt

/-- The microseconds fit into a `long`, and so does the product on the way. -/
def Timeval.InRange (tv : Timeval) : Prop := ∃ m, tv.micros = some m

namespace Clocks

variable (c : Clocks)

/-- The current unix time. -/
def unix : Int := c.gettimeofday.us

/-- The current time since boot. -/
def boot : Int := (getSysStartTimestampUs c).toNat

end Clocks

/-- The conversion denotes the same instant on the boot clock. -/
structure SameInstant (c : Clocks) : Prop where
  now : ∀ tv : Timeval, tv.InRange → tv.us = c.unix →
    ∃ r, tranferUnixTime2epochTime c tv = some r ∧ (r.toNat : Int) = c.boot
  /-- the results are read as signed numbers, as an instant may be before boot -/
  difference : ∀ a b ra rb, tranferUnixTime2epochTime c a = some ra →
    tranferUnixTime2epochTime c b = some rb →
    ra.toInt64.toInt - rb.toInt64.toInt = a.us - b.us ∧
      (ra.toInt64.toInt < rb.toInt64.toInt ↔ a.us < b.us)
  sinceBoot : ∀ tv : Timeval, tv.InRange → c.unix - c.boot ≤ tv.us →
    ∃ r, tranferUnixTime2epochTime c tv = some r ∧ (r.toNat : Int) = tv.us - (c.unix - c.boot)

/-! ### What is computed -/

section Conversion

variable {c : Clocks} {tv : Timeval} {m : Int64} {r : UInt64}

/-- A BPF handler that runs at this moment stamps its event with the time since boot. -/
theorem tsUs_fill (c : Clocks) (call : Ebpf.Call) (event : Ebpf.Event) :
    (event.fill call c.steadyNs.toUInt64).tsUs = getSysStartTimestampUs c := by
  rw [Ebpf.Event.fill, Ebpf.Event.fillAddr]
  split
  · rfl
  · rfl

theorem toInt_micros (h : tv.micros = some m) : m.toInt = tv.us := by
  obtain ⟨sec, hsec, hm⟩ := Option.bind_eq_some_iff.mp h
  rw [Long.add_eq_some_iff.mp hm, Long.mul_eq_some_iff.mp hsec]
  rfl

theorem boot_nonneg (c : Clocks) : 0 ≤ c.boot := Int.natCast_nonneg _

theorem toInt_curEpoch (c : Clocks) : (getSysStartTimestampUs c).toInt64.toInt = c.boot := by
  refine Long.toInt_toInt64 ?_
  have hlt := c.steadyNs.toUInt64.toNat_lt
  rw [getSysStartTimestampUs, UInt64.toNat_div]
  show c.steadyNs.toUInt64.toNat / 1000 < _
  omega

theorem exists_offset (hle : c.boot ≤ c.unix) (hm : c.gettimeofday.micros = some m) :
    ∃ tmp, Long.sub m (getSysStartTimestampUs c).toInt64 = some tmp ∧
      tmp.toInt = c.unix - c.boot := by
  have hunix : m.toInt = c.unix := toInt_micros hm
  have hepoch := toInt_curEpoch c
  have hboot := boot_nonneg c
  obtain ⟨tmp, htmp, hsub⟩ :=
    Long.exists_sub (x := m) (y := (getSysStartTimestampUs c).toInt64) (by omega) (by omega)
  refine ⟨tmp, htmp, ?_⟩
  rw [hsub, hunix, hepoch]

/-- The offset of the clocks is added. -/
theorem tranfer_eq_some_iff (hc : c.gettimeofday.InRange) (hle : c.boot ≤ c.unix) :
    tranferUnixTime2epochTime c tv = some r ↔
      tv.InRange ∧ r.toInt64.toInt = tv.us + (c.unix - c.boot) := by
  obtain ⟨u, hu⟩ := hc
  obtain ⟨tmp, htmp, hoffset⟩ := exists_offset hle hu
  have heq : tranferUnixTime2epochTime c tv =
      tv.micros.bind fun m => (Long.add m tmp).bind fun sum => some sum.toUInt64 := by
    simp [tranferUnixTime2epochTime, getCurrentTimeval, hu, htmp]
  rw [heq]
  constructor
  · intro h
    obtain ⟨m, hm, h⟩ := Option.bind_eq_some_iff.mp h
    obtain ⟨sum, hsum, h⟩ := Option.bind_eq_some_iff.mp h
    obtain rfl := Option.some.inj h
    refine ⟨⟨m, hm⟩, ?_⟩
    rw [Int64.toInt64_toUInt64, Long.add_eq_some_iff.mp hsum, toInt_micros hm, hoffset]
  · intro ⟨⟨m, hm⟩, hr⟩
    have hsum : Long.add m tmp = some r.toInt64 := by
      rw [Long.add_eq_some_iff, hr, toInt_micros hm, hoffset]
    rw [hm, Option.bind_some, hsum, Option.bind_some, UInt64.toUInt64_toInt64]

theorem difference_eq (hc : c.gettimeofday.InRange) (hle : c.boot ≤ c.unix) {a b : Timeval}
    {ra rb : UInt64} (ha : tranferUnixTime2epochTime c a = some ra)
    (hb : tranferUnixTime2epochTime c b = some rb) :
    ra.toInt64.toInt - rb.toInt64.toInt = a.us - b.us := by
  have hra := ((tranfer_eq_some_iff hc hle).mp ha).2
  have hrb := ((tranfer_eq_some_iff hc hle).mp hb).2
  omega

/-- If the clocks agree, the result is the instant itself. -/
theorem exists_tranfer_of_eq (heq : c.unix = c.boot) (hc : c.gettimeofday.InRange)
    (htv : tv.InRange) (hpos : 0 ≤ tv.us) :
    ∃ r, tranferUnixTime2epochTime c tv = some r ∧ (r.toNat : Int) = tv.us := by
  obtain ⟨m, hm⟩ := htv
  have hmicros : m.toInt = tv.us := toInt_micros hm
  refine ⟨m.toUInt64, (tranfer_eq_some_iff hc heq.ge).mpr ⟨⟨m, hm⟩, ?_⟩, ?_⟩
  · rw [Int64.toInt64_toUInt64, hmicros, heq, Int.sub_self, Int.add_zero]
  · rw [Long.toNat_toUInt64 (hmicros ▸ hpos), hmicros]

/-- The current time goes to the time since boot only if the clocks agree. -/
theorem eq_of_now (hc : c.gettimeofday.InRange) (hle : c.boot ≤ c.unix)
    (h : ∃ r, tranferUnixTime2epochTime c c.gettimeofday = some r ∧ (r.toNat : Int) = c.boot) :
    c.unix = c.boot := by
  obtain ⟨r, hr, hboot⟩ := h
  have hsum : r.toInt64.toInt = c.unix + (c.unix - c.boot) :=
    ((tranfer_eq_some_iff hc hle).mp hr).2
  have hsmall : (r.toNat : Int) = r.toInt64.toInt := by
    have hlt := (getSysStartTimestampUs c).toInt64.toInt_lt
    rw [toInt_curEpoch] at hlt
    exact (Long.toInt_toInt64 (by omega)).symm
  omega

/-- **When the conversion is right**, for every pair of clock readings: exactly if the two
clocks show the same time.  It keeps differences and order in any case, and the boot clock
is the one of the BPF handlers. -/
theorem sameInstant_iff (c : Clocks) (hc : c.gettimeofday.InRange) (hle : c.boot ≤ c.unix) :
    (∀ (call : Ebpf.Call) (event : Ebpf.Event),
      (event.fill call c.steadyNs.toUInt64).tsUs = getSysStartTimestampUs c) ∧
    (∀ a b ra rb, tranferUnixTime2epochTime c a = some ra →
      tranferUnixTime2epochTime c b = some rb →
      ra.toInt64.toInt - rb.toInt64.toInt = a.us - b.us) ∧
    (SameInstant c ↔ c.unix = c.boot) := by
  refine ⟨tsUs_fill c, fun a b ra rb => difference_eq hc hle, ?_⟩
  constructor
  · intro h
    exact eq_of_now hc hle (h.now _ hc rfl)
  · intro heq
    refine ⟨?_, ?_, ?_⟩
    · intro tv htv hnow
      have hpos : 0 ≤ tv.us := by
        rw [hnow, heq]
        exact boot_nonneg c
      obtain ⟨r, hr, hus⟩ := exists_tranfer_of_eq heq hc htv hpos
      exact ⟨r, hr, by rw [hus, hnow, heq]⟩
    · intro a b ra rb ha hb
      have hdiff := difference_eq hc hle ha hb
      exact ⟨hdiff, by omega⟩
    · intro tv htv hboot
      rw [heq, Int.sub_self] at hboot ⊢
      rw [Int.sub_zero]
      exact exists_tranfer_of_eq heq hc htv hboot

end Conversion

/-- A machine that was booted at the epoch of the wall clock, a second ago. -/
def epochClocks : Clocks := ⟨⟨1, 0⟩, 1000000000⟩

theorem inRange_epochClocks : epochClocks.gettimeofday.InRange := ⟨1000000, by decide⟩

theorem sameInstant_epochClocks : epochClocks.unix = epochClocks.boot ∧ SameInstant epochClocks :=
  ⟨by decide, (sameInstant_iff epochClocks inRange_epochClocks (by decide)).2.2.mpr (by decide)⟩

/-- A machine that was booted at unix time 1700000000, an hour ago. -/
def exampleClocks : Clocks := ⟨⟨1700003600, 0⟩, 3600000000000⟩

/-- **The present is not converted to the present.**  The time since boot is an hour, and
the current time is converted to more than a hundred years. -/
theorem tranfer_now_ne_boot :
    getSysStartTimestampUs exampleClocks = 3600000000 ∧
      tranferUnixTime2epochTime exampleClocks exampleClocks.gettimeofday =
        some 3400003600000000 ∧ ¬ SameInstant exampleClocks := by
  have hc : exampleClocks.gettimeofday.InRange := ⟨1700003600000000, by decide⟩
  refine ⟨by decide, by decide, ?_⟩
  intro h
  exact absurd (eq_of_now hc (by decide) (h.now _ hc rfl)) (by decide)

end NetworkAnalyse.Utils
