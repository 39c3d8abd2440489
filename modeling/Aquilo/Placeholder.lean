/-
The placeholder state of a server that has never seen a reading.  The detector
compares every reading with the current state, so the first one is compared
with the placeholder.
-/
import Aquilo.ClosedForm

namespace Aquilo

namespace Runtime

section Placeholder

variable (parseTs : String → Option ℤ) (cfg : Config) (battery : BatteryCurve)

/-- In the run, `lstEmpty` is reset only by a reading that is at least the
threshold below the reading before it. -/
def ResetsOnMeasuredFall (rt : Runtime) (readings : List Stamped) : Prop :=
  ∀ pre r post, readings = pre ++ r :: post →
    let before := rt.applyReadings parseTs cfg battery pre
    (before.applyReading parseTs cfg battery r.1 r.2).lstEmpty ≠
        before.lstEmpty →
      ∃ prev, pre.getLast? = some prev ∧
        cfg.pumpOutDropPct ≤ cfg.calibration.pct prev.1.levelCm -
          cfg.calibration.pct r.1.levelCm

/-- The first reading stays less than the threshold below the placeholder. -/
def FirstNearPlaceholder (readings : List Stamped) : Prop :=
  ∀ first, readings.head? = some first →
    Defaults.seedPct - cfg.calibration.pct first.1.levelCm <
      cfg.pumpOutDropPct

theorem applyReadings_pct (rt : Runtime) (readings : List Stamped) :
    (rt.applyReadings parseTs cfg battery readings).current.pct =
      (readings.getLast?.map fun r => cfg.calibration.pct r.1.levelCm).getD
        rt.current.pct := by
  induction readings using List.reverseRecOn with
  | nil => rfl
  | append_singleton pre r _ =>
      simp [applyReadings_append]

variable {parseTs cfg battery}

/-- A reset that shows is a detected pump-out. -/
theorem detectsPumpOut_of_lstEmpty_ne {rt : Runtime} {r : Stamped}
    (h : (rt.applyReading parseTs cfg battery r.1 r.2).lstEmpty ≠ rt.lstEmpty) :
    rt.detectsPumpOut cfg r.1 = true := by
  by_contra hquiet
  apply h
  rw [applyReading_lstEmpty, if_neg hquiet]

/-- From a runtime that has seen nothing, the run resets on measured falls only
exactly when its first reading is not taken for a pump-out. -/
theorem resetsOnMeasuredFall_iff {rt : Runtime} (hlo : 0 ≤ rt.current.pct)
    (hhi : rt.current.pct ≤ 100) (hempty : rt.lstEmpty = "")
    {readings : List Stamped} (hnow : ∀ r ∈ readings, r.2 ≠ "") :
    ResetsOnMeasuredFall parseTs cfg battery rt readings ↔
      ∀ first, readings.head? = some first →
        rt.current.pct - cfg.calibration.pct first.1.levelCm <
          cfg.pumpOutDropPct := by
  constructor
  · intro hresets first hfirst
    obtain ⟨rest, rfl⟩ := List.head?_eq_some_iff.mp hfirst
    by_contra hfall
    have hdetects := (detectsPumpOut_iff cfg hlo hhi first.1).mpr (not_lt.mp hfall)
    have hreset : (rt.applyReading parseTs cfg battery first.1 first.2).lstEmpty ≠
        rt.lstEmpty := by
      rw [applyReading_lstEmpty, if_pos hdetects, hempty]
      exact hnow first List.mem_cons_self
    obtain ⟨prev, hprev, -⟩ := hresets [] first rest rfl hreset
    cases hprev
  · intro hnear pre r post heq before hreset
    have hdetects := detectsPumpOut_of_lstEmpty_ne hreset
    have hpct : before.current.pct = _ :=
      applyReadings_pct parseTs cfg battery rt pre
    cases hlast : pre.getLast? with
    | none =>
        -- nothing was measured before: the comparison is with the start
        rw [List.getLast?_eq_none_iff] at hlast
        subst hlast
        have hfirst := hnear r (by rw [heq]; rfl)
        have hfall := (detectsPumpOut_iff cfg hlo hhi r.1).mp hdetects
        exact absurd hfall (not_le.mpr hfirst)
    | some prev =>
        rw [hlast, Option.map_some, Option.getD_some] at hpct
        refine ⟨prev, rfl, ?_⟩
        rw [← hpct]
        apply (detectsPumpOut_iff cfg ?_ ?_ r.1).mp hdetects
        · rw [hpct]
          exact cfg.calibration.zero_le_pct _
        · rw [hpct]
          exact cfg.calibration.pct_le_hundred _

end Placeholder

end Runtime

open Aquilo.Runtime in
/-- From an empty store and the default seed, a run resets `lstEmpty` on
measured falls only exactly when its first reading stays less than the threshold
below the placeholder; every run does exactly when the threshold exceeds the
placeholder itself. -/
theorem placeholder_never_measures_iff (parseTs : String → Option ℤ)
    (cfg : Config) (battery : BatteryCurve) (start : String)
    (hseed : cfg.state = StateSeed.default)
    (hspan : cfg.calibration.fullDist < cfg.calibration.emptyDist) :
    (∀ readings : List Stamped, (∀ r ∈ readings, r.2 ≠ "") →
        (ResetsOnMeasuredFall parseTs cfg battery
            (loadRuntime cfg (.ok none) start) readings ↔
          FirstNearPlaceholder cfg readings)) ∧
      ((∀ readings : List Stamped, (∀ r ∈ readings, r.2 ≠ "") →
          ResetsOnMeasuredFall parseTs cfg battery
            (loadRuntime cfg (.ok none) start) readings) ↔
        Defaults.seedPct < cfg.pumpOutDropPct) := by
  have hpct : (loadRuntime cfg (.ok none) start).current.pct =
      Defaults.seedPct := congrArg StateSeed.pct hseed
  have hempty : (loadRuntime cfg (.ok none) start).lstEmpty = "" :=
    congrArg StateSeed.lstEmpty hseed
  have hrun : ∀ readings : List Stamped, (∀ r ∈ readings, r.2 ≠ "") →
      (ResetsOnMeasuredFall parseTs cfg battery
          (loadRuntime cfg (.ok none) start) readings ↔
        FirstNearPlaceholder cfg readings) := by
    intro readings hnow
    rw [FirstNearPlaceholder, ← hpct]
    apply resetsOnMeasuredFall_iff ?_ ?_ hempty hnow
    · rw [hpct]
      decide
    · rw [hpct]
      decide
  refine ⟨hrun, ?_⟩
  constructor
  · intro hall
    -- a tank at its empty distance reads 0
    have hzero : cfg.calibration.pct cfg.calibration.emptyDist = 0 := by
      rw [Calibration.pct_of_lt hspan, sub_self, zero_div, zero_mul]
      decide +kernel
    have hfirst := (hrun [(Sample.reading cfg.calibration.emptyDist, "now")]
      (by simp)).mp (hall _ (by simp)) _ rfl
    change Defaults.seedPct - cfg.calibration.pct cfg.calibration.emptyDist <
      cfg.pumpOutDropPct at hfirst
    rwa [hzero, sub_zero] at hfirst
  · intro hthreshold readings hnow
    apply (hrun readings hnow).mpr
    intro first _
    have := cfg.calibration.zero_le_pct first.1.levelCm
    omega

namespace Sample

/-- The sample configuration without a state table. -/
def unseeded (dropPct : ℤ) : Config :=
  { config with
    state := StateSeed.default
    pumpOutDropPct := dropPct }

end Sample

open Aquilo.Runtime in
/-- With a threshold of five an empty tank as the first reading ever resets
`lstEmpty`. -/
theorem placeholder_measures_empty_tank :
    ¬ ∀ (cfg : Config) (start : String), cfg.state = StateSeed.default →
        1 ≤ cfg.pumpOutDropPct → cfg.pumpOutDropPct ≤ 100 →
        cfg.calibration.fullDist < cfg.calibration.emptyDist →
        ∀ readings : List Stamped, (∀ r ∈ readings, r.2 ≠ "") →
          ResetsOnMeasuredFall Sample.codec.parseTs cfg BatteryCurve.default
            (loadRuntime cfg (.ok none) start) readings := by
  intro hall
  have hresets := hall (Sample.unseeded 5) "2026-06-10T20:00:00+02:00" rfl
    (by decide) (by decide) (by decide +kernel)
    [(Sample.reading 178, "2026-06-10T20:44:35+02:00")] (by simp)
  obtain ⟨prev, hprev, -⟩ := hresets [] _ [] rfl (by decide +kernel)
  cases hprev

open Aquilo.Runtime in
/-- The default threshold is above the placeholder, even for an empty tank. -/
theorem placeholder_never_measures_at_default :
    ResetsOnMeasuredFall Sample.codec.parseTs
      (Sample.unseeded Defaults.pumpOutDropPct) BatteryCurve.default
      (loadRuntime (Sample.unseeded Defaults.pumpOutDropPct) (.ok none)
        "2026-06-10T20:00:00+02:00")
      [(Sample.reading 178, "2026-06-10T20:44:35+02:00")] :=
  (placeholder_never_measures_iff Sample.codec.parseTs
    (Sample.unseeded Defaults.pumpOutDropPct) BatteryCurve.default
    "2026-06-10T20:00:00+02:00" rfl (by decide +kernel)).2.mpr (by decide)
    _ (by simp)

end Aquilo
