/-
Tank calibration and the battery curve: the maps from a raw measurement to the
percentages a published state carries.  The level is the radar distance to the
surface, so a smaller level is a fuller tank.
-/
import Aquilo.ExactFloat

namespace Aquilo

open ExactFloat

/-- The two distances (cm) at which the tank reads full and empty. -/
structure Calibration where
  fullDist : ℚ
  emptyDist : ℚ
deriving DecidableEq, Repr

namespace Calibration

def defaultFullDist : ℚ := 40

def defaultEmptyDist : ℚ := 178

protected def default : Calibration := ⟨defaultFullDist, defaultEmptyDist⟩

/-- Fill percentage, rounded to the nearest integer and clamped to 0–100. -/
def pct (cal : Calibration) (levelCm : ℚ) : ℤ :=
  let span := cal.emptyDist - cal.fullDist
  let pct := (F64.div (cal.emptyDist - levelCm) span).mul 100
  clamp 0 100 pct.roundToI64

/-- Distance the level still has to fall to reach full. -/
def lvlToFull (cal : Calibration) (levelCm : ℚ) : ℤ :=
  saturate (roundHalfAway (levelCm - cal.fullDist))

theorem zero_le_pct (cal : Calibration) (levelCm : ℚ) : 0 ≤ cal.pct levelCm :=
  le_clamp 0 100 _

theorem pct_le_hundred (cal : Calibration) (levelCm : ℚ) :
    cal.pct levelCm ≤ 100 := clamp_le (by omega) _

theorem pct_inI64 (cal : Calibration) (levelCm : ℚ) :
    InI64 (cal.pct levelCm) := by
  have hlo := cal.zero_le_pct levelCm
  have hhi := cal.pct_le_hundred levelCm
  simp only [InI64, i64Min, i64Max]
  omega

/-- With a positive span the division is an ordinary one. -/
theorem pct_of_lt {cal : Calibration} (hspan : cal.fullDist < cal.emptyDist)
    (levelCm : ℚ) :
    cal.pct levelCm = clamp 0 100 (saturate (roundHalfAway
      ((cal.emptyDist - levelCm) / (cal.emptyDist - cal.fullDist) * 100))) := by
  have hne : cal.emptyDist - cal.fullDist ≠ 0 := by linarith
  simp only [pct, F64.div_of_ne_zero _ hne, F64.mul, F64.roundToI64]

end Calibration

/-- A voltage-to-percentage table.  An empty table has no percentage to give
(the source indexes its first row), so none can be built. -/
structure BatteryCurve where
  points : List (ℤ × ℤ)
  nonempty : points ≠ []

namespace BatteryCurve

/-- The captured point between two Li-ion endpoints. -/
protected def default : BatteryCurve where
  points := [(3300, 0), (3770, 83), (4200, 100)]
  nonempty := by simp

/-- Breakpoints in any order, sorted ascending by voltage. -/
def new (points : List (ℤ × ℤ)) (nonempty : points ≠ []) : BatteryCurve where
  points := points.mergeSort fun p q => p.1 ≤ q.1
  nonempty := by
    intro hnil
    have hlen := congrArg List.length hnil
    rw [List.length_mergeSort, List.length_nil] at hlen
    exact nonempty (List.length_eq_zero_iff.mp hlen)

/-- Linear interpolation between two neighbouring breakpoints. -/
def interpolate (lo hi : ℤ × ℤ) (mv : ℤ) : ℤ :=
  let t := F64.div ((mv - lo.1 : ℤ) : ℚ) ((hi.1 - lo.1 : ℤ) : ℚ)
  let pct := F64.add (lo.2 : ℚ) (t.mul ((hi.2 - lo.2 : ℤ) : ℚ))
  pct.roundToI64

/-- The loop over neighbouring pairs; `final` is what the code after the loop
returns. -/
def percentWithin (mv final : ℤ) : List (ℤ × ℤ) → ℤ
  | lo :: hi :: rest =>
      if mv ≤ hi.1 then interpolate lo hi mv
      else percentWithin mv final (hi :: rest)
  | _ => final

/-- Percentage of a battery voltage, clamped below the first breakpoint and
above the last. -/
def percent (curve : BatteryCurve) (mv : ℤ) : ℤ :=
  let first := curve.points.head curve.nonempty
  let last := curve.points.getLast curve.nonempty
  if mv ≤ first.1 then first.2
  else if last.1 ≤ mv then last.2
  else percentWithin mv last.2 curve.points

theorem percentWithin_inI64 (mv : ℤ) {final : ℤ} (hfinal : InI64 final)
    (points : List (ℤ × ℤ)) : InI64 (percentWithin mv final points) := by
  induction points with
  | nil => exact hfinal
  | cons lo rest ih =>
      cases rest with
      | nil => exact hfinal
      | cons hi rest =>
          by_cases hmv : mv ≤ hi.1
          · simpa [percentWithin, hmv, interpolate] using
              F64.roundToI64_inI64 _
          · simpa [percentWithin, hmv] using ih

theorem percent_inI64 {curve : BatteryCurve}
    (hpoints : ∀ p ∈ curve.points, InI64 p.2) (mv : ℤ) :
    InI64 (curve.percent mv) := by
  have hfirst := hpoints _ (List.head_mem curve.nonempty)
  have hlast := hpoints _ (List.getLast_mem curve.nonempty)
  simp only [percent]
  split
  · exact hfirst
  · split
    · exact hlast
    · exact percentWithin_inI64 mv hlast curve.points

example : BatteryCurve.default.percent 3770 = 83 := by decide +kernel

end BatteryCurve

example : Calibration.default.pct (764 / 5) = 18 := by decide +kernel

end Aquilo
