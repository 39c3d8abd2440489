/-
Simple linear regression over a list of points.  The centred sums are the ones
a program accumulates in a loop; the uncentred forms are what proofs compute
with.  The line through the means with slope `sxy / sxx` is the one line with
the least sum of squared residuals, unless all abscissas coincide.
-/
import Mathlib

namespace LeastSquares

variable {K : Type*} [Field K]

def meanX (points : List (K × K)) : K :=
  (points.map Prod.fst).sum / points.length

def meanY (points : List (K × K)) : K :=
  (points.map Prod.snd).sum / points.length

/-- Sum of squared deviations of the abscissa. -/
def sxx (points : List (K × K)) : K :=
  (points.map fun p => (p.1 - meanX points) * (p.1 - meanX points)).sum

/-- Sum of products of deviations. -/
def sxy (points : List (K × K)) : K :=
  (points.map fun p => (p.1 - meanX points) * (p.2 - meanY points)).sum

theorem sum_map_deviation_mul (points : List (K × K)) (f g : K × K → K)
    (a b : K) :
    (points.map fun p => (f p - a) * (g p - b)).sum =
      (points.map fun p => f p * g p).sum - a * (points.map g).sum
        - b * (points.map f).sum + points.length * (a * b) := by
  induction points with
  | nil => simp
  | cons p rest ih =>
      simp only [List.map_cons, List.sum_cons, List.length_cons,
        Nat.cast_add, Nat.cast_one, ih]
      ring

/-- Moving the origin of the abscissa. -/
def translate (c : K) (points : List (K × K)) : List (K × K) :=
  points.map fun p => (p.1 + c, p.2)

theorem sum_fst_translate (points : List (K × K)) (c : K) :
    ((translate c points).map Prod.fst).sum =
      (points.map Prod.fst).sum + points.length * c := by
  rw [translate]
  induction points with
  | nil => simp
  | cons p rest ih =>
      simp only [List.map_cons, List.sum_cons, List.length_cons,
        Nat.cast_add, Nat.cast_one, ih]
      ring

theorem meanY_translate (points : List (K × K)) (c : K) :
    meanY (translate c points) = meanY points := by
  rw [meanY, meanY, translate, List.map_map, List.length_map]
  rfl

variable [CharZero K]

theorem length_mul_meanX {points : List (K × K)} (hne : points ≠ []) :
    points.length * meanX points = (points.map Prod.fst).sum := by
  have hlen : (points.length : K) ≠ 0 := by
    simpa using hne
  rw [meanX, mul_div_cancel₀ _ hlen]

/-- The uncentred form of the sum of squares. -/
theorem length_mul_sxx {points : List (K × K)} (hne : points ≠ []) :
    points.length * sxx points =
      points.length * (points.map fun p => p.1 * p.1).sum -
        (points.map Prod.fst).sum * (points.map Prod.fst).sum := by
  have hx := length_mul_meanX hne
  rw [sxx, sum_map_deviation_mul points Prod.fst Prod.fst]
  linear_combination (points.length * meanX points - (points.map Prod.fst).sum) * hx

/-- The uncentred form of the sum of products. -/
theorem length_mul_sxy {points : List (K × K)} (hne : points ≠ []) :
    points.length * sxy points =
      points.length * (points.map fun p => p.1 * p.2).sum -
        (points.map Prod.fst).sum * (points.map Prod.snd).sum := by
  have hx := length_mul_meanX hne
  rw [sxy, sum_map_deviation_mul points Prod.fst Prod.snd]
  linear_combination (points.length * meanY points - (points.map Prod.snd).sum) * hx

theorem meanX_translate {points : List (K × K)} (hne : points ≠ []) (c : K) :
    meanX (translate c points) = meanX points + c := by
  have hlen : (points.length : K) ≠ 0 := by
    simpa using hne
  rw [meanX, sum_fst_translate, translate, List.length_map, add_div,
    mul_div_cancel_left₀ _ hlen, meanX]

theorem sxx_translate {points : List (K × K)} (hne : points ≠ []) (c : K) :
    sxx (translate c points) = sxx points := by
  rw [sxx, meanX_translate hne, translate, List.map_map, sxx]
  congr 2
  funext p
  simp only [Function.comp_apply]
  ring

theorem sxy_translate {points : List (K × K)} (hne : points ≠ []) (c : K) :
    sxy (translate c points) = sxy points := by
  rw [sxy, meanX_translate hne, meanY_translate, translate, List.map_map, sxy]
  congr 2
  funext p
  simp only [Function.comp_apply]
  ring

structure Line (K : Type*) where
  intercept : K
  slope : K

/-- Sum of squared residuals of the ordinates against a line. -/
def residualSum (points : List (K × K)) (line : Line K) : K :=
  (points.map fun p => (p.2 - (line.intercept + line.slope * p.1)) ^ 2).sum

/-- The line through the means with slope `sxy / sxx`. -/
def fitted (points : List (K × K)) : Line K where
  intercept := meanY points - sxy points / sxx points * meanX points
  slope := sxy points / sxx points

/-- The residual sum as a quadratic in the line: only its last two terms
depend on more than the slope's cross term. -/
theorem residualSum_eq {points : List (K × K)} (hne : points ≠ [])
    (line : Line K) :
    residualSum points line =
      (points.map fun p => p.2 * p.2).sum
        - points.length * meanY points ^ 2 - 2 * line.slope * sxy points
        + line.slope ^ 2 * sxx points
        + points.length *
          (line.intercept + line.slope * meanX points - meanY points) ^ 2 := by
  have hlen : (points.length : K) ≠ 0 := by
    simpa using hne
  have hx := length_mul_meanX hne
  have hy : points.length * meanY points = (points.map Prod.snd).sum := by
    rw [meanY, mul_div_cancel₀ _ hlen]
  have hexpand : residualSum points line =
      (points.map fun p => p.2 * p.2).sum
        - 2 * line.intercept * (points.map Prod.snd).sum
        - 2 * line.slope * (points.map fun p => p.1 * p.2).sum
        + points.length * line.intercept ^ 2
        + 2 * line.intercept * line.slope * (points.map Prod.fst).sum
        + line.slope ^ 2 * (points.map fun p => p.1 * p.1).sum := by
    clear hne hlen hx hy
    rw [residualSum]
    induction points with
    | nil => simp
    | cons p rest ih =>
        simp only [List.map_cons, List.sum_cons, List.length_cons,
          Nat.cast_add, Nat.cast_one, ih]
        ring
  have hxx := sum_map_deviation_mul points Prod.fst Prod.fst (meanX points)
    (meanX points)
  have hxy := sum_map_deviation_mul points Prod.fst Prod.snd (meanX points)
    (meanY points)
  rw [← sxx] at hxx
  rw [← sxy] at hxy
  rw [hexpand, hxx, hxy, ← hx, ← hy]
  ring

section Ordered

variable {K : Type*} [Field K] [LinearOrder K] [IsStrictOrderedRing K]

/-- No line has a smaller residual sum. -/
def IsBestFit (points : List (K × K)) (line : Line K) : Prop :=
  ∀ other, residualSum points line ≤ residualSum points other

theorem sxx_nonneg (points : List (K × K)) : 0 ≤ sxx points := by
  apply List.sum_nonneg
  intro v hv
  obtain ⟨p, -, rfl⟩ := List.mem_map.mp hv
  exact mul_self_nonneg _

/-- The abscissas do not vary exactly when they all coincide. -/
theorem sxx_eq_zero_iff {points : List (K × K)} (hne : points ≠ []) :
    sxx points = 0 ↔ ∃ x, ∀ p ∈ points, p.1 = x := by
  constructor
  · intro hzero
    refine ⟨meanX points, fun p hp => ?_⟩
    have hterm : (p.1 - meanX points) * (p.1 - meanX points) = 0 := by
      apply List.all_zero_of_le_zero_le_of_sum_eq_zero ?_ hzero
        (List.mem_map.mpr ⟨p, hp, rfl⟩)
      intro v hv
      obtain ⟨q, -, rfl⟩ := List.mem_map.mp hv
      exact mul_self_nonneg _
    exact sub_eq_zero.mp (mul_self_eq_zero.mp hterm)
  · rintro ⟨x, hx⟩
    have hlen : (points.length : K) ≠ 0 := by
      simpa using hne
    have hmap : points.map Prod.fst = List.replicate points.length x := by
      rw [List.eq_replicate_iff, List.length_map]
      refine ⟨rfl, ?_⟩
      intro v hv
      obtain ⟨p, hp, rfl⟩ := List.mem_map.mp hv
      exact hx p hp
    have hmean : meanX points = x := by
      rw [meanX, hmap, List.sum_replicate, nsmul_eq_mul,
        mul_div_cancel_left₀ _ hlen]
    rw [sxx, hmean]
    apply List.sum_eq_zero
    intro v hv
    obtain ⟨p, hp, rfl⟩ := List.mem_map.mp hv
    rw [hx p hp, sub_self, mul_zero]

/-- What a line leaves over the fitted one: a square for its slope and a square
for its height at the mean. -/
theorem residualSum_sub_fitted {points : List (K × K)} (hne : points ≠ [])
    (hxx : sxx points ≠ 0) (line : Line K) :
    residualSum points line - residualSum points (fitted points) =
      sxx points * (line.slope - sxy points / sxx points) ^ 2 +
        points.length *
          (line.intercept + line.slope * meanX points - meanY points) ^ 2 := by
  rw [residualSum_eq hne, residualSum_eq hne, fitted]
  field_simp
  ring

/-- The fitted line is the unique minimiser. -/
theorem isBestFit_iff {points : List (K × K)} (hne : points ≠ [])
    (hxx : sxx points ≠ 0) {line : Line K} :
    IsBestFit points line ↔ line = fitted points := by
  have hpos : 0 < sxx points := (sxx_nonneg points).lt_of_ne hxx.symm
  have hlen : (0 : K) < points.length := by
    exact_mod_cast List.length_pos_iff.mpr hne
  constructor
  · intro hbest
    have hsum := residualSum_sub_fitted hne hxx line
    have hle := hbest (fitted points)
    have hslope := mul_nonneg hpos.le
      (sq_nonneg (line.slope - sxy points / sxx points))
    have hheight := mul_nonneg hlen.le (sq_nonneg
      (line.intercept + line.slope * meanX points - meanY points))
    have hs : line.slope = sxy points / sxx points := by
      have hzero : sxx points *
          (line.slope - sxy points / sxx points) ^ 2 = 0 := by linarith
      exact sub_eq_zero.mp (pow_eq_zero_iff two_ne_zero |>.mp
        ((mul_eq_zero.mp hzero).resolve_left hxx))
    have hi : line.intercept =
        meanY points - sxy points / sxx points * meanX points := by
      have hzero : (points.length : K) *
          (line.intercept + line.slope * meanX points - meanY points) ^ 2 =
          0 := by linarith
      have hmean := sub_eq_zero.mp (pow_eq_zero_iff two_ne_zero |>.mp
        ((mul_eq_zero.mp hzero).resolve_left hlen.ne'))
      rw [← hs, ← hmean]
      ring
    cases line
    simp only [fitted, Line.mk.injEq]
    exact ⟨hi, hs⟩
  · rintro rfl other
    have hsum := residualSum_sub_fitted hne hxx other
    have hslope := mul_nonneg hpos.le
      (sq_nonneg (other.slope - sxy points / sxx points))
    have hheight := mul_nonneg hlen.le (sq_nonneg
      (other.intercept + other.slope * meanX points - meanY points))
    linarith

end Ordered

end LeastSquares
