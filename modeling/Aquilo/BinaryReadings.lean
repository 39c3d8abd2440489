/-
The figures of a reading in binary64, operation by operation as the program
computes them, against their exact values: they differ only where an exact value
lies halfway between two whole numbers.
-/
import Aquilo.Binary64
import Aquilo.Runtime

namespace Aquilo

open ExactFloat Binary64

namespace BinaryServe

/-- The level in centimetres; the quotient of a 64-bit integer is finite. -/
def levelOf (p : ReadPayload) (raw : Option RawFrame) : Except ReadError ℚ :=
  match p.read1, raw with
  | some read1, _ => .ok (nearest (ofInt read1 / 100))
  | none, some frame => .ok (nearest (ofInt frame.levelMm / 10))
  | none, none => .error .noLevel

def pct (cal : Calibration) (levelCm : ℚ) : ℤ :=
  let span := sub (.fin cal.emptyDist) (.fin cal.fullDist)
  let pct := mul (div (sub (.fin cal.emptyDist) (.fin levelCm)) span) (.fin 100)
  clamp 0 100 pct.roundToI64

def lvlToFull (cal : Calibration) (levelCm : ℚ) : ℤ :=
  (sub (.fin levelCm) (.fin cal.fullDist)).roundToI64

def interpolate (lo hi : ℤ × ℤ) (mv : ℤ) : ℤ :=
  let t := div (.fin (ofInt (mv - lo.1))) (.fin (ofInt (hi.1 - lo.1)))
  let pct := add (.fin (ofInt lo.2)) (mul t (.fin (ofInt (hi.2 - lo.2))))
  pct.roundToI64

def percentWithin (mv final : ℤ) : List (ℤ × ℤ) → ℤ
  | lo :: hi :: rest =>
      if mv ≤ hi.1 then interpolate lo hi mv
      else percentWithin mv final (hi :: rest)
  | _ => final

def percent (curve : BatteryCurve) (mv : ℤ) : ℤ :=
  let first := curve.points.head curve.nonempty
  let last := curve.points.getLast curve.nonempty
  if mv ≤ first.1 then first.2
  else if last.1 ≤ mv then last.2
  else percentWithin mv last.2 curve.points

/-- The calibration as its fields hold it. -/
def calibration (cal : Calibration) : Calibration :=
  ⟨nearest cal.fullDist, nearest cal.emptyDist⟩

end BinaryServe

open BinaryServe

/-- Measured in whole hundredths of a centimetre. -/
def Hundredths (x : ℚ) : Prop := ∃ n : ℤ, x = n / 100

/-- A tank of at most ten metres, measured in hundredths. -/
structure Calibration.Measured (cal : Calibration) : Prop where
  full : Hundredths cal.fullDist
  empty : Hundredths cal.emptyDist
  full_le : |cal.fullDist| ≤ 1000
  empty_le : |cal.emptyDist| ≤ 1000
  span : cal.fullDist < cal.emptyDist

/-- The percentage before it is rounded. -/
def Calibration.exactPct (cal : Calibration) (levelCm : ℚ) : ℚ :=
  (cal.emptyDist - levelCm) / (cal.emptyDist - cal.fullDist) * 100

/-- Halfway between two whole numbers. -/
def Halfway (x : ℚ) : Prop := ∃ m : ℤ, x = m + 1 / 2

section Separation

theorem span_ge {cal : Calibration} (h : cal.Measured) :
    1 / 100 ≤ cal.emptyDist - cal.fullDist := by
  obtain ⟨f, hf⟩ := h.full
  obtain ⟨e, he⟩ := h.empty
  have hspan := h.span
  rw [hf, he] at hspan ⊢
  have hlt : f < e := by
    have : (f : ℚ) < e := by linarith
    exact_mod_cast this
  have hle : (f : ℚ) + 1 ≤ e := by exact_mod_cast hlt
  linarith

/-- A value whose differences to the ties are whole numbers over one denominator is
a whole part of it away from each, or at one. -/
theorem clear_of_quotients {x d ε : ℚ} (hd : 0 < d) (hε : ε * d < 1)
    (hties : ¬ Halfway x) (h : ∀ m : ℤ, ∃ k : ℤ, x - (m + 1 / 2) = k / d) :
    ClearOfTies ε x := by
  intro m
  obtain ⟨k, hk⟩ := h m
  have hne : k ≠ 0 := by
    rintro rfl
    apply hties
    refine ⟨m, ?_⟩
    rw [Int.cast_zero, zero_div] at hk
    linarith
  have hone : (1 : ℚ) ≤ |(k : ℚ)| := by exact_mod_cast Int.one_le_abs hne
  rw [hk, abs_div, abs_of_pos hd, lt_div_iff₀ hd]
  exact hε.trans_le hone

/-- In hundredths, a percentage that is not halfway is clearly not. -/
theorem exactPct_clear {cal : Calibration} (h : cal.Measured) {levelCm : ℚ}
    (hlevel : Hundredths levelCm) (hties : ¬ Halfway (cal.exactPct levelCm)) :
    ClearOfTies (1 / 10 ^ 6) (cal.exactPct levelCm) := by
  obtain ⟨f, hf⟩ := h.full
  obtain ⟨e, he⟩ := h.empty
  obtain ⟨k, hk⟩ := hlevel
  have hspan := span_ge h
  have hwide : cal.emptyDist - cal.fullDist ≤ 2000 := by
    have hfull := (abs_le.mp h.full_le).1
    have hempty := (abs_le.mp h.empty_le).2
    linarith
  have hfe : (cal.emptyDist - cal.fullDist) = ((e - f : ℤ) : ℚ) / 100 := by
    rw [hf, he]
    push_cast
    ring
  have hpos : (0 : ℚ) < ((e - f : ℤ) : ℚ) := by linarith
  -- over twice the span the difference to a tie is a whole number
  refine clear_of_quotients (d := 2 * ((e - f : ℤ) : ℚ)) (by linarith) (by linarith)
    hties fun m => ⟨200 * (e - k) - (2 * m + 1) * (e - f), ?_⟩
  rw [Calibration.exactPct, hfe, he, hk]
  push_cast at hpos ⊢
  field_simp
  ring

theorem lvlToFull_clear {cal : Calibration} (h : cal.Measured) {levelCm : ℚ}
    (hlevel : Hundredths levelCm)
    (hties : ¬ Halfway (levelCm - cal.fullDist)) :
    ClearOfTies (9 / 1000) (levelCm - cal.fullDist) := by
  obtain ⟨f, hf⟩ := h.full
  obtain ⟨k, hk⟩ := hlevel
  refine clear_of_quotients (d := 100) (by norm_num) (by norm_num) hties
    fun m => ⟨k - f - 100 * m - 50, ?_⟩
  rw [hf, hk]
  push_cast
  ring

end Separation

section Percentage

variable {cal : Calibration} {levelCm : ℚ}

/-- The percentage before it is rounded, in binary64. -/
theorem pct_near (h : cal.Measured) (hlevel : |levelCm| ≤ 10 ^ 13) :
    ∃ p, mul (div (sub (.fin (nearest cal.emptyDist)) (.fin (nearest levelCm)))
        (sub (.fin (nearest cal.emptyDist)) (.fin (nearest cal.fullDist))))
        (.fin 100) = .fin p ∧
      |p - cal.exactPct levelCm| ≤ 2 / 10 ^ 9 * (|cal.exactPct levelCm| + 100) := by
  have hspan := span_ge h
  have hfull := h.full_le
  have hempty := h.empty_le
  obtain ⟨rise, hrise, hrise_near⟩ := sub_nearest_near
    (show |cal.emptyDist| + |levelCm| ≤ 2 ^ 100 by norm_num at hlevel ⊢; linarith)
  obtain ⟨span, hspan_eq, hspan_near⟩ := sub_nearest_near
    (show |cal.emptyDist| + |cal.fullDist| ≤ 2 ^ 100 by norm_num; linarith)
  have hsize : |levelCm| ≤ |cal.emptyDist| + |cal.emptyDist - levelCm| := by
    calc |levelCm| = |cal.emptyDist - (cal.emptyDist - levelCm)| := by ring_nf
      _ ≤ _ := abs_sub _ _
  have hulp : ulp ≤ 12 / 10 ^ 17 := by norm_num [ulp]
  have hulp_pos : 0 ≤ ulp := by norm_num [ulp]
  have hrise_rel : |rise - (cal.emptyDist - levelCm)| ≤ 2 / 10 ^ 10 *
      (|cal.emptyDist - levelCm| + (cal.emptyDist - cal.fullDist)) := by
    have habs := abs_nonneg (cal.emptyDist - levelCm)
    calc |rise - (cal.emptyDist - levelCm)|
        ≤ 5 * (|cal.emptyDist| + |levelCm| + 1) * ulp := hrise_near
      _ ≤ 5 * (2001 + |cal.emptyDist - levelCm|) * (12 / 10 ^ 17) :=
          mul_le_mul (by linarith) hulp hulp_pos (by linarith)
      _ ≤ _ := by linarith
  have hspan_rel : |span - (cal.emptyDist - cal.fullDist)| ≤
      2 / 10 ^ 10 * (cal.emptyDist - cal.fullDist) := by
    calc |span - (cal.emptyDist - cal.fullDist)|
        ≤ 5 * (|cal.emptyDist| + |cal.fullDist| + 1) * ulp := hspan_near
      _ ≤ 5 * 2001 * (12 / 10 ^ 17) :=
          mul_le_mul (by linarith) hulp hulp_pos (by norm_num)
      _ ≤ _ := by linarith
  obtain ⟨hpos, hquot⟩ := quotient_near (by norm_num) (by norm_num)
    (show 0 < cal.emptyDist - cal.fullDist by linarith) hrise_rel hspan_rel
  obtain ⟨x, hx⟩ : ∃ x, x =
    (cal.emptyDist - levelCm) / (cal.emptyDist - cal.fullDist) := ⟨_, rfl⟩
  have hexact : cal.exactPct levelCm = x * 100 := by rw [hx, Calibration.exactPct]
  have hx_le : |x| ≤ 10 ^ 16 := by
    rw [hx, abs_div, abs_of_pos (show 0 < cal.emptyDist - cal.fullDist by linarith),
      div_le_iff₀ (by linarith)]
    calc |cal.emptyDist - levelCm| ≤ |cal.emptyDist| + |levelCm| := abs_sub _ _
      _ ≤ 10 ^ 16 * (1 / 100) := by norm_num at hlevel ⊢; linarith
      _ ≤ _ := by gcongr
  rw [← hx] at hquot
  obtain ⟨hquot_le, hquot_near⟩ := nearest_near le_rfl (by norm_num) hquot
  have hprod : |nearest (rise / span) * 100 - x * 100| ≤
      (4 * (2 / 10 ^ 10) + 3 * ulp) * (|x * 100| + 100) := by
    rw [← sub_mul, abs_mul, abs_mul, abs_of_pos (show (0 : ℚ) < 100 by norm_num)]
    linarith
  obtain ⟨hprod_le, hprod_near⟩ := nearest_near (by norm_num)
    (by norm_num [ulp]) hprod
  have hhundred : |x * 100| ≤ 10 ^ 18 := by
    rw [abs_mul, abs_of_pos (show (0 : ℚ) < 100 by norm_num)]
    norm_num at hx_le ⊢
    linarith
  refine ⟨nearest (nearest (rise / span) * 100), ?_, ?_⟩
  · rw [hrise, hspan_eq, div_fin rise hpos.ne', round_of_le, mul_fin, round_of_le]
    · norm_num at hprod_le hhundred ⊢
      linarith
    · norm_num at hquot_le hx_le ⊢
      linarith
  · rw [hexact]
    refine hprod_near.trans (mul_le_mul_of_nonneg_right ?_ (by positivity))
    norm_num [ulp]

theorem pct_eq_clamp (h : cal.Measured) :
    cal.pct levelCm = clamp 0 100 (roundHalfAway (cal.exactPct levelCm)) := by
  rw [Calibration.pct_of_lt h.span, clamp_saturate (by decide) (by decide)]
  rfl

/-- Outside the table both percentages are its ends; within it the unrounded ones
are near. -/
theorem pct_cases (h : cal.Measured) (hbound : |levelCm| ≤ 10 ^ 13) :
    BinaryServe.pct (calibration cal) (nearest levelCm) = cal.pct levelCm ∨
      ∃ p, BinaryServe.pct (calibration cal) (nearest levelCm) =
          clamp 0 100 (roundHalfAway p) ∧
        |p - cal.exactPct levelCm| ≤ 1 / 10 ^ 6 := by
  obtain ⟨p, hp, hnear⟩ := pct_near h hbound
  have hpct : BinaryServe.pct (calibration cal) (nearest levelCm) =
      clamp 0 100 (F64.roundToI64 (.fin p)) := by
    rw [← hp]
    rfl
  rw [F64.roundToI64, clamp_saturate (by decide) (by decide)] at hpct
  obtain ⟨hdown, hup⟩ := abs_le.mp hnear
  have hbelow : cal.exactPct levelCm < ((0 : ℤ) : ℚ) - 1 → p ≤ ((0 : ℤ) : ℚ) := by
    intro hlow
    push_cast at hlow ⊢
    rw [abs_of_neg (show cal.exactPct levelCm < 0 by linarith)] at hup
    linarith
  have habove : ((100 : ℤ) : ℚ) + 1 < cal.exactPct levelCm → ((100 : ℤ) : ℚ) ≤ p := by
    intro hhigh
    push_cast at hhigh ⊢
    rw [abs_of_pos (show 0 < cal.exactPct levelCm by linarith)] at hdown
    linarith
  rcases clamp_roundHalfAway_eq_or hbelow habove with heq | ⟨hlow, hhigh⟩
  · exact Or.inl (by rw [hpct, heq, pct_eq_clamp h])
  · refine Or.inr ⟨p, hpct, hnear.trans ?_⟩
    push_cast at hlow hhigh
    have habs : |cal.exactPct levelCm| ≤ 101 :=
      abs_le.mpr ⟨by linarith, by linarith⟩
    linarith

/-- A percentage is never off by more than one. -/
theorem pct_within_one (h : cal.Measured) (hbound : |levelCm| ≤ 10 ^ 13) :
    |BinaryServe.pct (calibration cal) (nearest levelCm) - cal.pct levelCm| ≤ 1 := by
  rcases pct_cases h hbound with heq | ⟨p, hp, hnear⟩
  · rw [heq, sub_self]
    decide
  · have hround := abs_roundHalfAway_sub_le (hnear.trans (by norm_num))
    rw [hp, pct_eq_clamp h]
    simp only [abs_le, clamp] at hround ⊢
    omega

theorem pct_eq (h : cal.Measured) (hlevel : Hundredths levelCm)
    (hbound : |levelCm| ≤ 10 ^ 13) (hties : ¬ Halfway (cal.exactPct levelCm)) :
    BinaryServe.pct (calibration cal) (nearest levelCm) = cal.pct levelCm := by
  rcases pct_cases h hbound with heq | ⟨p, hp, hnear⟩
  · exact heq
  · rw [hp, pct_eq_clamp h,
      roundHalfAway_eq_of_near (exactPct_clear h hlevel hties) hnear]

end Percentage

section Distance

variable {cal : Calibration} {levelCm : ℚ}

/-- Halfway above a whole number of centimetres, nothing is rounded. -/
theorem lvlToFull_halfway {n : ℤ} (h : cal.Measured) (hfull : cal.fullDist = n)
    (hbound : |levelCm| ≤ 10 ^ 13) (hties : Halfway (levelCm - cal.fullDist)) :
    sub (.fin (nearest levelCm)) (.fin (nearest cal.fullDist)) =
      .fin (levelCm - cal.fullDist) := by
  obtain ⟨m, hm⟩ := hties
  have hn : |(n : ℚ)| ≤ 1000 := hfull ▸ h.full_le
  have hm_le : |(m : ℚ)| ≤ 2 * 10 ^ 13 := by
    have hrest : (m : ℚ) = levelCm - cal.fullDist - 1 / 2 := by linarith
    obtain ⟨hlow, hhigh⟩ := abs_le.mp hbound
    obtain ⟨hlow', hhigh'⟩ := abs_le.mp h.full_le
    rw [hrest, abs_le]
    norm_num at hlow hhigh ⊢
    constructor <;> linarith
  have hn' : |n| ≤ 1000 := by exact_mod_cast hn
  have hm' : |m| ≤ 2 * 10 ^ 13 := by exact_mod_cast hm_le
  rw [abs_le] at hn' hm'
  have hlevel : levelCm = ((2 * (m + n) + 1 : ℤ) : ℚ) / 2 := by
    rw [hfull] at hm
    push_cast
    linarith
  have hdiff : levelCm - cal.fullDist = ((2 * m + 1 : ℤ) : ℚ) / 2 := by
    rw [hm]
    push_cast
    ring
  have hkept : nearest levelCm = levelCm := by
    rw [hlevel]
    exact nearest_half (abs_lt.mpr (by constructor <;> omega))
  have hkept' : nearest cal.fullDist = cal.fullDist := by
    rw [hfull]
    exact nearest_intCast (abs_lt.mpr (by constructor <;> omega))
  rw [sub_fin, hkept, hkept', round_of_le]
  · rw [hdiff, nearest_half (abs_lt.mpr (by constructor <;> omega))]
  · rw [hm, abs_le]
    rw [abs_le] at hm_le
    norm_num at hm_le ⊢
    constructor <;> linarith

theorem lvlToFull_eq (h : cal.Measured) (hlevel : Hundredths levelCm)
    (hbound : |levelCm| ≤ 10 ^ 13)
    (hties : (∃ n : ℤ, cal.fullDist = n) ∨ ¬ Halfway (levelCm - cal.fullDist)) :
    BinaryServe.lvlToFull (calibration cal) (nearest levelCm) =
      cal.lvlToFull levelCm := by
  by_cases hhalf : Halfway (levelCm - cal.fullDist)
  · obtain ⟨n, hn⟩ : ∃ n : ℤ, cal.fullDist = n :=
      hties.resolve_right fun hno => hno hhalf
    rw [BinaryServe.lvlToFull, calibration, lvlToFull_halfway h hn hbound hhalf]
    rfl
  · obtain ⟨d, hd, hnear⟩ := sub_nearest_near
      (show |levelCm| + |cal.fullDist| ≤ 2 ^ 100 by
        have hfull := h.full_le
        norm_num at hbound ⊢
        linarith)
    have hclose : |d - (levelCm - cal.fullDist)| ≤ 9 / 1000 := by
      have hfull := h.full_le
      have hulp : ulp ≤ 12 / 10 ^ 17 := by norm_num [ulp]
      have hulp_pos : 0 ≤ ulp := by norm_num [ulp]
      calc |d - (levelCm - cal.fullDist)|
          ≤ 5 * (|levelCm| + |cal.fullDist| + 1) * ulp := hnear
        _ ≤ 5 * (10 ^ 13 + 1000 + 1) * (12 / 10 ^ 17) :=
            mul_le_mul (by linarith) hulp hulp_pos (by norm_num)
        _ ≤ 9 / 1000 := by norm_num
    rw [BinaryServe.lvlToFull, calibration, hd, F64.roundToI64, Calibration.lvlToFull,
      roundHalfAway_eq_of_near (lvlToFull_clear h hlevel hhalf) hclose]

end Distance

section Battery

/-- A point of the line between two breakpoints, before it is rounded. -/
def between (lo hi : ℤ × ℤ) (mv : ℤ) : ℚ :=
  lo.2 + ((mv - lo.1 : ℤ) : ℚ) / ((hi.1 - lo.1 : ℤ) : ℚ) * ((hi.2 - lo.2 : ℤ) : ℚ)

/-- Neighbouring breakpoints of a table in millivolts and percent. -/
structure Neighbours (lo hi : ℤ × ℤ) : Prop where
  rising : lo.1 < hi.1
  narrow : hi.1 - lo.1 ≤ 10 ^ 4
  base : |lo.2| ≤ 100
  rise : |hi.2 - lo.2| ≤ 100

variable {lo hi : ℤ × ℤ} {mv : ℤ}

theorem Neighbours.width_pos (h : Neighbours lo hi) :
    (0 : ℚ) < ((hi.1 - lo.1 : ℤ) : ℚ) := by
  have hrising := h.rising
  exact_mod_cast (by omega : 0 < hi.1 - lo.1)

theorem interpolate_exact (h : Neighbours lo hi) :
    BatteryCurve.interpolate lo hi mv = saturate (roundHalfAway (between lo hi mv)) := by
  simp only [BatteryCurve.interpolate, F64.div_of_ne_zero _ h.width_pos.ne', F64.mul, F64.add,
    F64.roundToI64, between]

/-- Over twice the distance in millivolts the difference to a tie is whole. -/
theorem between_sub (h : Neighbours lo hi) (mv m : ℤ) :
    between lo hi mv - (m + 1 / 2) =
      ((2 * lo.2 * (hi.1 - lo.1) + 2 * (mv - lo.1) * (hi.2 - lo.2) -
        (2 * m + 1) * (hi.1 - lo.1) : ℤ) : ℚ) / (2 * ((hi.1 - lo.1 : ℤ) : ℚ)) := by
  have hpos := h.width_pos
  rw [between]
  push_cast at hpos ⊢
  field_simp

theorem exists_of_halfway (h : Neighbours lo hi) (hties : Halfway (between lo hi mv)) :
    ∃ m : ℤ, 2 * lo.2 * (hi.1 - lo.1) + 2 * (mv - lo.1) * (hi.2 - lo.2) =
      (2 * m + 1) * (hi.1 - lo.1) := by
  obtain ⟨m, hm⟩ := hties
  have hpos := h.width_pos
  have hdiff := between_sub h mv m
  rw [hm, sub_self, eq_comm, div_eq_zero_iff] at hdiff
  refine ⟨m, ?_⟩
  have hzero := hdiff.resolve_right (by linarith)
  have hzero' := Int.cast_eq_zero.mp hzero
  linarith

theorem between_clear (h : Neighbours lo hi) (hties : ¬ Halfway (between lo hi mv)) :
    ClearOfTies (1 / 10 ^ 6) (between lo hi mv) := by
  have hpos := h.width_pos
  have hnarrow : ((hi.1 - lo.1 : ℤ) : ℚ) ≤ 10 ^ 4 := by exact_mod_cast h.narrow
  exact clear_of_quotients (by linarith) (by linarith) hties
    fun m => ⟨_, between_sub h mv m⟩

/-- The way along a line between two breakpoints. -/
def along (lo hi : ℤ × ℤ) (mv : ℤ) : ℚ :=
  ((mv - lo.1 : ℤ) : ℚ) / ((hi.1 - lo.1 : ℤ) : ℚ)

theorem along_le_one (h : Neighbours lo hi) (hlow : lo.1 ≤ mv) (hhigh : mv ≤ hi.1) :
    |along lo hi mv| ≤ 1 := by
  have hpos := h.width_pos
  have hnonneg : (0 : ℚ) ≤ ((mv - lo.1 : ℤ) : ℚ) := by
    exact_mod_cast (by omega : 0 ≤ mv - lo.1)
  have hle : ((mv - lo.1 : ℤ) : ℚ) ≤ ((hi.1 - lo.1 : ℤ) : ℚ) := by
    exact_mod_cast (by omega : mv - lo.1 ≤ hi.1 - lo.1)
  rw [along, abs_of_nonneg (by positivity), div_le_one hpos]
  exact hle

theorem nearest_rise_near (h : Neighbours lo hi) (hlow : lo.1 ≤ mv)
    (hhigh : mv ≤ hi.1) :
    |nearest (along lo hi mv) * ((hi.2 - lo.2 : ℤ) : ℚ) -
        along lo hi mv * ((hi.2 - lo.2 : ℤ) : ℚ)| ≤
      200 * ulp * (|along lo hi mv * ((hi.2 - lo.2 : ℤ) : ℚ)| + 1) := by
  have hrise : |((hi.2 - lo.2 : ℤ) : ℚ)| ≤ 100 := by exact_mod_cast h.rise
  have hnear := abs_nearest_sub_le (along lo hi mv)
  have hulp : 0 ≤ ulp := by norm_num [ulp]
  have hone := along_le_one h hlow hhigh
  have hprod := abs_nonneg (along lo hi mv * ((hi.2 - lo.2 : ℤ) : ℚ))
  rw [← sub_mul, abs_mul]
  calc |nearest (along lo hi mv) - along lo hi mv| * |((hi.2 - lo.2 : ℤ) : ℚ)|
      ≤ (1 + 1) * ulp * 100 := by
        refine mul_le_mul (hnear.trans ?_) hrise (abs_nonneg _) (by positivity)
        exact mul_le_mul_of_nonneg_right (by linarith) hulp
    _ = 200 * ulp * 1 := by ring
    _ ≤ _ := mul_le_mul_of_nonneg_left (by linarith) (by positivity)

/-- The sum in binary64 is near the exact one. -/
theorem interpolate_near (h : Neighbours lo hi) (hlow : lo.1 ≤ mv) (hhigh : mv ≤ hi.1) :
    ∃ p, BinaryServe.interpolate lo hi mv = saturate (roundHalfAway p) ∧
      p = nearest (lo.2 + nearest (nearest (along lo hi mv) *
        ((hi.2 - lo.2 : ℤ) : ℚ))) ∧
      |p - between lo hi mv| ≤ 1 / 10 ^ 6 := by
  have hrising := h.rising
  have hnarrow := h.narrow
  obtain ⟨hbase_low, hbase_high⟩ := abs_le.mp h.base
  obtain ⟨hrise_low, hrise_high⟩ := abs_le.mp h.rise
  have hpos := h.width_pos
  have hkept : ∀ n : ℤ, -10 ^ 4 ≤ n → n ≤ 10 ^ 4 → ofInt n = n :=
    fun n hn hn' => ofInt_eq (abs_lt.mpr (by constructor <;> omega))
  have hbase : |(lo.2 : ℚ)| ≤ 100 := by exact_mod_cast h.base
  have hrise : |((hi.2 - lo.2 : ℤ) : ℚ)| ≤ 100 := by exact_mod_cast h.rise
  have hone := along_le_one h hlow hhigh
  have hprod : |along lo hi mv * ((hi.2 - lo.2 : ℤ) : ℚ)| ≤ 100 := by
    rw [abs_mul]
    calc |along lo hi mv| * |((hi.2 - lo.2 : ℤ) : ℚ)| ≤ 1 * 100 :=
          mul_le_mul hone hrise (abs_nonneg _) zero_le_one
      _ = 100 := one_mul _
  obtain ⟨hprod_le, hprod_near⟩ := nearest_near le_rfl (by norm_num [ulp])
    (nearest_rise_near h hlow hhigh)
  have hsum : |lo.2 + nearest (nearest (along lo hi mv) * ((hi.2 - lo.2 : ℤ) : ℚ)) -
      between lo hi mv| ≤ 3 / 10 ^ 12 * (|between lo hi mv| + 1) := by
    have hsplit : lo.2 + nearest (nearest (along lo hi mv) *
        ((hi.2 - lo.2 : ℤ) : ℚ)) - between lo hi mv =
        nearest (nearest (along lo hi mv) * ((hi.2 - lo.2 : ℤ) : ℚ)) -
          along lo hi mv * ((hi.2 - lo.2 : ℤ) : ℚ) := by
      rw [between, along]
      ring
    have hulp : 200 * ulp + 3 * ulp ≤ 25 / 10 ^ 15 := by norm_num [ulp]
    rw [hsplit]
    calc _ ≤ (200 * ulp + 3 * ulp) * _ := hprod_near
      _ ≤ 25 / 10 ^ 15 * (100 + 1) :=
          mul_le_mul hulp (by linarith) (by positivity) (by norm_num)
      _ ≤ 3 / 10 ^ 12 * 1 := by norm_num
      _ ≤ _ := mul_le_mul_of_nonneg_left (by linarith [abs_nonneg (between lo hi mv)])
          (by norm_num)
  obtain ⟨hsum_le, hsum_near⟩ := nearest_near le_rfl (by norm_num) hsum
  have hbetween : |between lo hi mv| ≤ 200 := by
    calc |between lo hi mv| ≤ |(lo.2 : ℚ)| + |along lo hi mv *
          ((hi.2 - lo.2 : ℤ) : ℚ)| := abs_add_le _ _
      _ ≤ 200 := by linarith
  have hlarge : ∀ y : ℚ, y ≤ 200 → 2 * (y + 1) ≤ 2 ^ 200 := by
    intro y hy
    norm_num
    linarith
  refine ⟨_, ?_, rfl, hsum_near.trans ?_⟩
  · rw [BinaryServe.interpolate, hkept (mv - lo.1) (by omega) (by omega),
      hkept (hi.1 - lo.1) (by omega) (by omega), hkept lo.2 (by omega) (by omega),
      hkept (hi.2 - lo.2) (by omega) (by omega), div_fin _ hpos.ne', ← along,
      round_of_le (hone.trans (by norm_num)), mul_fin,
      round_of_le (hprod_le.trans (hlarge _ (by linarith))), add_fin,
      round_of_le (hsum_le.trans (hlarge _ hbetween))]
    rfl
  · calc (3 / 10 ^ 12 + 3 * ulp) * (|between lo hi mv| + 1)
        ≤ (3 / 10 ^ 12 + 3 * ulp) * (200 + 1) := by
          refine mul_le_mul_of_nonneg_left (by linarith) (by norm_num [ulp])
      _ ≤ 1 / 10 ^ 6 := by norm_num [ulp]

/-- In the middle nothing is rounded. -/
theorem interpolate_middle (h : Neighbours lo hi)
    (hmiddle : 2 * (mv - lo.1) = hi.1 - lo.1) :
    nearest (lo.2 + nearest (nearest (along lo hi mv) * ((hi.2 - lo.2 : ℤ) : ℚ))) =
      between lo hi mv := by
  obtain ⟨hbase_low, hbase_high⟩ := abs_le.mp h.base
  obtain ⟨hrise_low, hrise_high⟩ := abs_le.mp h.rise
  have hpos := h.width_pos
  have hhalf : along lo hi mv = ((1 : ℤ) : ℚ) / 2 := by
    rw [along, div_eq_div_iff hpos.ne' two_ne_zero]
    exact_mod_cast (by omega : (mv - lo.1) * 2 = 1 * (hi.1 - lo.1))
  have hprod : ((1 : ℤ) : ℚ) / 2 * ((hi.2 - lo.2 : ℤ) : ℚ) =
      ((hi.2 - lo.2 : ℤ) : ℚ) / 2 := by
    push_cast
    ring
  have hsum : (lo.2 : ℚ) + ((hi.2 - lo.2 : ℤ) : ℚ) / 2 =
      ((lo.2 + hi.2 : ℤ) : ℚ) / 2 := by
    push_cast
    ring
  rw [hhalf, nearest_half (by norm_num), hprod,
    nearest_half (abs_lt.mpr (by constructor <;> omega)), hsum,
    nearest_half (abs_lt.mpr (by constructor <;> omega)), ← hsum, ← hprod, ← hhalf]
  rfl

/-- The loop's interpolation in binary64, where the point is not halfway between
two whole percentages or lies in the middle. -/
theorem interpolate_eq (h : Neighbours lo hi) (hlow : lo.1 ≤ mv) (hhigh : mv ≤ hi.1)
    (hties : 2 * (mv - lo.1) = hi.1 - lo.1 ∨ ¬ Halfway (between lo hi mv)) :
    BinaryServe.interpolate lo hi mv = BatteryCurve.interpolate lo hi mv := by
  obtain ⟨p, hp, hsum, hnear⟩ := interpolate_near h hlow hhigh
  rw [hp, interpolate_exact h]
  rcases hties with hmiddle | hties
  · rw [hsum, interpolate_middle h hmiddle]
  · rw [roundHalfAway_eq_of_near (between_clear h hties) hnear]

theorem default_neighbours :
    Neighbours ((3300, 0) : ℤ × ℤ) (3770, 83) ∧
      Neighbours ((3770, 83) : ℤ × ℤ) (4200, 100) :=
  ⟨⟨by decide, by decide, by decide, by decide⟩,
    ⟨by decide, by decide, by decide, by decide⟩⟩

/-- On the program's own table every voltage has its exact percentage. -/
theorem percent_eq (mv : ℤ) :
    BinaryServe.percent BatteryCurve.default mv = BatteryCurve.default.percent mv := by
  obtain ⟨hfirst, hsecond⟩ := default_neighbours
  -- 83 percent over 470 mV and 17 over 430 are halfway in the middle only
  have hlower : 3300 ≤ mv → mv ≤ 3770 →
      BinaryServe.interpolate (3300, 0) (3770, 83) mv =
        BatteryCurve.interpolate (3300, 0) (3770, 83) mv := by
    intro hlow hhigh
    refine interpolate_eq hfirst hlow hhigh (or_iff_not_imp_right.mpr fun hties => ?_)
    obtain ⟨m, hm⟩ := exists_of_halfway hfirst (not_not.mp hties)
    dsimp only at hm ⊢
    omega
  have hupper : 3770 ≤ mv → mv ≤ 4200 →
      BinaryServe.interpolate (3770, 83) (4200, 100) mv =
        BatteryCurve.interpolate (3770, 83) (4200, 100) mv := by
    intro hlow hhigh
    refine interpolate_eq hsecond hlow hhigh (or_iff_not_imp_right.mpr fun hties => ?_)
    obtain ⟨m, hm⟩ := exists_of_halfway hsecond (not_not.mp hties)
    dsimp only at hm ⊢
    omega
  simp only [BinaryServe.percent, BatteryCurve.percent, BatteryCurve.default,
    BinaryServe.percentWithin, BatteryCurve.percentWithin, List.head_cons]
  split_ifs with hfull hempty hsegment hsegment'
  · rfl
  · rfl
  · exact hlower (by omega) hsegment
  · exact hupper (by omega) hsegment'
  · rfl

end Battery

end Aquilo
