/-
How far the surface really falls when a pump-out is detected.  The two rounded
percentages can be off by less than one point together, and the bounds that
follow cannot be improved.
-/
import Aquilo.Calibration
import Aquilo.History

namespace Aquilo

open ExactFloat

namespace Calibration

/-- A level moved into the range between full and empty. -/
def clampLevel (cal : Calibration) (levelCm : ℚ) : ℚ :=
  max cal.fullDist (min cal.emptyDist levelCm)

/-- How full the tank is, in exact percent. -/
def fullness (cal : Calibration) (levelCm : ℚ) : ℚ :=
  (cal.emptyDist - cal.clampLevel levelCm) /
    (cal.emptyDist - cal.fullDist) * 100

variable {cal : Calibration}

theorem clampLevel_of_mem {levelCm : ℚ} (hlo : cal.fullDist ≤ levelCm)
    (hhi : levelCm ≤ cal.emptyDist) : cal.clampLevel levelCm = levelCm := by
  rw [clampLevel, min_eq_right hhi, max_eq_right hlo]

theorem clampLevel_mono : Monotone cal.clampLevel := by
  intro near far h
  exact max_le_max_left _ (min_le_min_left _ h)

/-- The scale from distances to percentages. -/
theorem antitone_percent (hspan : cal.fullDist < cal.emptyDist) :
    Antitone fun levelCm : ℚ =>
      (cal.emptyDist - levelCm) / (cal.emptyDist - cal.fullDist) * 100 := by
  intro near far h
  have hpos : 0 < cal.emptyDist - cal.fullDist := by linarith
  dsimp only
  gcongr

theorem fullness_eq_clamped (hspan : cal.fullDist < cal.emptyDist)
    (levelCm : ℚ) :
    cal.fullness levelCm = max 0 (min 100
      ((cal.emptyDist - levelCm) / (cal.emptyDist - cal.fullDist) * 100)) := by
  have hne : cal.emptyDist - cal.fullDist ≠ 0 := by linarith
  have hanti := antitone_percent hspan
  have hempty : (cal.emptyDist - cal.emptyDist) /
      (cal.emptyDist - cal.fullDist) * 100 = 0 := by simp
  have hfull : (cal.emptyDist - cal.fullDist) /
      (cal.emptyDist - cal.fullDist) * 100 = 100 := by
    rw [div_self hne, one_mul]
  rw [fullness, clampLevel, hanti.map_max, hanti.map_min, hempty, hfull,
    min_max_distrib_left, min_eq_right (by norm_num : (0 : ℚ) ≤ 100)]

theorem fullness_nonneg (hspan : cal.fullDist < cal.emptyDist) (levelCm : ℚ) :
    0 ≤ cal.fullness levelCm := by
  rw [fullness_eq_clamped hspan]
  exact le_max_left _ _

/-- The published percentage is the exact one, rounded. -/
theorem pct_eq_roundHalfAway (hspan : cal.fullDist < cal.emptyDist)
    (levelCm : ℚ) : cal.pct levelCm = roundHalfAway (cal.fullness levelCm) := by
  rw [pct_of_lt hspan, clamp_saturate (by decide) (by decide),
    clamp_roundHalfAway, fullness_eq_clamped hspan]
  norm_cast

/-- A fall of the surface, in percent of the span. -/
theorem fullness_sub (cal : Calibration) (prev next : ℚ) :
    cal.fullness prev - cal.fullness next =
      (cal.clampLevel next - cal.clampLevel prev) /
        (cal.emptyDist - cal.fullDist) * 100 := by
  rw [fullness, fullness]
  ring

/-- A pump-out is a fall of the rounded percentage by the threshold. -/
theorem isPumpOut_pct_iff (cal : Calibration) (prev next : ℚ)
    (dropThresholdPct : ℤ) :
    isPumpOut (cal.pct prev) (cal.pct next) dropThresholdPct = true ↔
      cal.pct next + dropThresholdPct ≤ cal.pct prev := by
  have hrange : InI64 (cal.pct prev - cal.pct next) := by
    have h₁ := cal.zero_le_pct prev
    have h₂ := cal.pct_le_hundred prev
    have h₃ := cal.zero_le_pct next
    have h₄ := cal.pct_le_hundred next
    simp only [InI64, i64Min, i64Max]
    omega
  rw [isPumpOut_iff hrange]
  omega

/-- The level at which the tank is exactly `percent` full. -/
def levelAt (cal : Calibration) (percent : ℚ) : ℚ :=
  cal.emptyDist - percent / 100 * (cal.emptyDist - cal.fullDist)

theorem clampLevel_levelAt (hspan : cal.fullDist < cal.emptyDist) {percent : ℚ}
    (hlo : 0 ≤ percent) (hhi : percent ≤ 100) :
    cal.clampLevel (cal.levelAt percent) = cal.levelAt percent := by
  have hpos : 0 < cal.emptyDist - cal.fullDist := by linarith
  have hshare : percent / 100 ≤ 1 := by linarith
  have hpart := mul_le_mul_of_nonneg_right hshare hpos.le
  have hnonneg := mul_nonneg (div_nonneg hlo (by norm_num : (0 : ℚ) ≤ 100)) hpos.le
  rw [one_mul] at hpart
  apply clampLevel_of_mem
  · rw [levelAt]
    linarith
  · rw [levelAt]
    linarith

theorem pct_levelAt (hspan : cal.fullDist < cal.emptyDist) {percent : ℚ}
    (hlo : 0 ≤ percent) (hhi : percent ≤ 100) :
    cal.pct (cal.levelAt percent) = roundHalfAway percent := by
  have hne : cal.emptyDist - cal.fullDist ≠ 0 := by linarith
  rw [pct_eq_roundHalfAway hspan, fullness, clampLevel_levelAt hspan hlo hhi,
    levelAt, sub_sub_cancel, mul_div_assoc, div_self hne, mul_one,
    div_mul_cancel₀ _ (by norm_num)]

theorem clampLevel_levelAt_sub (hspan : cal.fullDist < cal.emptyDist)
    {x y : ℚ} (hx : 0 ≤ x) (hx' : x ≤ 100) (hy : 0 ≤ y) (hy' : y ≤ 100) :
    cal.clampLevel (cal.levelAt y) - cal.clampLevel (cal.levelAt x) =
      (x - y) / 100 * (cal.emptyDist - cal.fullDist) := by
  rw [clampLevel_levelAt hspan hx hx', clampLevel_levelAt hspan hy hy', levelAt,
    levelAt]
  ring

theorem pct_levelAt_of_near (hspan : cal.fullDist < cal.emptyDist) {x : ℚ}
    {n : ℤ} (hx : 0 ≤ x) (hx' : x ≤ 100) (hlo : n - 1 / 2 ≤ x)
    (hhi : x < n + 1 / 2) : cal.pct (cal.levelAt x) = n := by
  rw [pct_levelAt hspan hx hx', roundHalfAway_of_nonneg hx, Int.floor_eq_iff]
  constructor <;> linarith

end Calibration

open Calibration

/-- A fall of the threshold's share of the span is always detected, and what is
detected fell by more than the share of one point less. -/
theorem pumpOut_margins (cal : Calibration)
    (hspan : cal.fullDist < cal.emptyDist) (dropThresholdPct : ℤ)
    (hthreshold : 1 ≤ dropThresholdPct) (prev next : ℚ) :
    let fall := cal.clampLevel next - cal.clampLevel prev
    let span := cal.emptyDist - cal.fullDist
    ((dropThresholdPct : ℚ) / 100 * span ≤ fall →
        isPumpOut (cal.pct prev) (cal.pct next) dropThresholdPct = true) ∧
      (isPumpOut (cal.pct prev) (cal.pct next) dropThresholdPct = true →
        ((dropThresholdPct : ℚ) - 1) / 100 * span < fall ∧ prev < next) := by
  intro fall span
  have hpos : 0 < span := by
    change 0 < cal.emptyDist - cal.fullDist
    linarith
  have hsub : cal.fullness prev - cal.fullness next = fall / span * 100 :=
    fullness_sub cal prev next
  have hprev := fullness_nonneg hspan prev
  have hnext := fullness_nonneg hspan next
  have hscale : fall = fall / span * 100 / 100 * span := by
    field_simp
  rw [isPumpOut_pct_iff, pct_eq_roundHalfAway hspan, pct_eq_roundHalfAway hspan]
  constructor
  · intro hfall
    have hshare : (dropThresholdPct : ℚ) ≤ fall / span * 100 := by
      rw [div_mul_eq_mul_div, le_div_iff₀ hpos]
      linarith
    exact add_roundHalfAway_le hnext hprev (by linarith)
  · intro hdetected
    have hshare : (dropThresholdPct : ℚ) - 1 < fall / span * 100 := by
      have := lt_of_add_roundHalfAway_le hnext hprev hdetected
      linarith
    have hfell : ((dropThresholdPct : ℚ) - 1) / 100 * span < fall := by
      rw [hscale]
      gcongr
    refine ⟨hfell, ?_⟩
    by_contra hle
    have hmono : cal.clampLevel next ≤ cal.clampLevel prev :=
      clampLevel_mono (not_lt.mp hle)
    have hone : (1 : ℚ) ≤ dropThresholdPct := by exact_mod_cast hthreshold
    have hleast : 0 ≤ ((dropThresholdPct : ℚ) - 1) / 100 * span :=
      mul_nonneg (by linarith) hpos.le
    change _ < cal.clampLevel next - cal.clampLevel prev at hfell
    linarith

/-- At the default calibration a fall of 34.5 cm is detected. -/
theorem pumpOut_margins_default :
    isPumpOut (Calibration.default.pct 109) (Calibration.default.pct (287 / 2))
        25 = true ∧ (109 : ℚ) < 287 / 2 := by
  have h := pumpOut_margins Calibration.default (by decide +kernel) 25
    (by decide) 109 (287 / 2)
  have hdetected := h.1 (by decide +kernel)
  exact ⟨hdetected, (h.2 hdetected).2⟩

/-- A step of at most half a percent that moves the level by less than the
slack. -/
theorem exists_step {span slack : ℚ} (hspan : 0 < span) (hslack : 0 < slack) :
    ∃ step : ℚ, 0 < step ∧ step ≤ 1 / 2 ∧ step / 100 * span < slack := by
  refine ⟨min (1 / 2) (50 * slack / span),
    lt_min (by norm_num) (by positivity), min_le_left _ _, ?_⟩
  calc min (1 / 2) (50 * slack / span) / 100 * span
      ≤ 50 * slack / span / 100 * span := by
        gcongr
        exact min_le_right _ _
    _ = slack / 2 := by
        field_simp
        norm_num
    _ < slack := by linarith

/-- Neither margin can be narrowed: falls as close below the threshold's share
as one likes go undetected, and falls as close above the share of one point less
are detected. -/
theorem pumpOut_margins_tight {cal : Calibration}
    (hspan : cal.fullDist < cal.emptyDist) {dropThresholdPct : ℤ}
    (hlo : 1 ≤ dropThresholdPct) (hhi : dropThresholdPct ≤ 99) {slack : ℚ}
    (hslack : 0 < slack) :
    (∃ prev next, (dropThresholdPct : ℚ) / 100 *
          (cal.emptyDist - cal.fullDist) - slack <
        cal.clampLevel next - cal.clampLevel prev ∧
      isPumpOut (cal.pct prev) (cal.pct next) dropThresholdPct = false) ∧
    (∃ prev next, cal.clampLevel next - cal.clampLevel prev <
        ((dropThresholdPct : ℚ) - 1) / 100 *
          (cal.emptyDist - cal.fullDist) + slack ∧
      isPumpOut (cal.pct prev) (cal.pct next) dropThresholdPct = true) := by
  have hpos : 0 < cal.emptyDist - cal.fullDist := by linarith
  have hone : (1 : ℚ) ≤ dropThresholdPct := by exact_mod_cast hlo
  have hmost : (dropThresholdPct : ℚ) ≤ 99 := by exact_mod_cast hhi
  obtain ⟨step, hstep, hhalf, hsmall⟩ := exists_step hpos hslack
  constructor
  · refine ⟨cal.levelAt (dropThresholdPct + 1 / 2 - step), cal.levelAt (1 / 2),
      ?_, ?_⟩
    · rw [clampLevel_levelAt_sub hspan (by linarith) (by linarith)
        (by norm_num) (by norm_num)]
      linarith
    · have hprev : cal.pct (cal.levelAt (dropThresholdPct + 1 / 2 - step)) =
          dropThresholdPct := pct_levelAt_of_near hspan (by linarith)
        (by linarith) (by linarith) (by linarith)
      have hnext : cal.pct (cal.levelAt (1 / 2)) = 1 :=
        pct_levelAt_of_near hspan (by norm_num) (by norm_num) (by norm_num)
          (by norm_num)
      rw [← Bool.not_eq_true, isPumpOut_pct_iff, hprev, hnext]
      omega
  · refine ⟨cal.levelAt (dropThresholdPct - 1 / 2), cal.levelAt (1 / 2 - step),
      ?_, ?_⟩
    · rw [clampLevel_levelAt_sub hspan (by linarith) (by linarith)
        (by linarith) (by linarith)]
      linarith
    · have hprev : cal.pct (cal.levelAt (dropThresholdPct - 1 / 2)) =
          dropThresholdPct := pct_levelAt_of_near hspan (by linarith)
        (by linarith) (by linarith) (by linarith)
      have hnext : cal.pct (cal.levelAt (1 / 2 - step)) = 0 :=
        pct_levelAt_of_near hspan (by linarith) (by linarith)
          (by norm_num; linarith) (by norm_num; linarith)
      rw [isPumpOut_pct_iff, hprev, hnext]
      omega

end Aquilo
