/-
The battery curve as a table: which pair of breakpoints decides, that the curve
goes through its breakpoints, and that it ascends when they do.
-/
import Aquilo.Calibration
import Aquilo.LookupTable

namespace Aquilo

open ExactFloat LookupTable

namespace BatteryCurve

/-- The loop picks the first window, and has nothing to return without one. -/
theorem percentWithin_eq (mv final : ℤ) (points : List (ℤ × ℤ)) :
    percentWithin mv final points =
      match window mv points with
      | some w => interpolate w.1 w.2 mv
      | none => final := by
  induction points with
  | nil => rfl
  | cons lo rest ih =>
      cases rest with
      | nil => rfl
      | cons hi rest =>
          rw [percentWithin, window]
          split
          · rfl
          · exact ih

theorem percent_eq_read (curve : BatteryCurve) :
    curve.percent =
      LookupTable.read interpolate curve.points curve.nonempty := by
  funext mv
  simp only [percent, LookupTable.read, percentWithin_eq]
  split_ifs
  · rfl
  · rfl
  · cases window mv curve.points with
    | none => rfl
    | some w => rfl

/-- Between different voltages the interpolation is an ordinary one. -/
theorem interpolate_of_lt {lo hi : ℤ × ℤ} (h : lo.1 < hi.1) (mv : ℤ) :
    interpolate lo hi mv = saturate (roundHalfAway
      (lo.2 + ((mv - lo.1 : ℤ) : ℚ) / ((hi.1 - lo.1 : ℤ) : ℚ) *
        ((hi.2 - lo.2 : ℤ) : ℚ))) := by
  have hne : ((hi.1 - lo.1 : ℤ) : ℚ) ≠ 0 := by
    have : hi.1 - lo.1 ≠ 0 := by omega
    exact_mod_cast this
  simp only [interpolate, F64.div_of_ne_zero _ hne, F64.mul, F64.add,
    F64.roundToI64]

theorem interpolate_upper {lo hi : ℤ × ℤ} (h : lo.1 < hi.1)
    (hrange : InI64 hi.2) : interpolate lo hi hi.1 = hi.2 := by
  have hne : ((hi.1 - lo.1 : ℤ) : ℚ) ≠ 0 := by
    have : hi.1 - lo.1 ≠ 0 := by omega
    exact_mod_cast this
  have hsum : (lo.2 : ℚ) + ((hi.2 - lo.2 : ℤ) : ℚ) = (hi.2 : ℤ) := by
    push_cast
    ring
  rw [interpolate_of_lt h, div_self hne, one_mul, hsum, roundHalfAway_intCast,
    saturate_eq_self hrange]

theorem interpolate_mono {lo hi : ℤ × ℤ} (h : lo.1 < hi.1)
    (hvalues : lo.2 ≤ hi.2) : Monotone (interpolate lo hi) := by
  intro x y hxy
  have hspan : (0 : ℚ) ≤ ((hi.1 - lo.1 : ℤ) : ℚ) := by
    exact_mod_cast (by omega : (0 : ℤ) ≤ hi.1 - lo.1)
  have hrise : (0 : ℚ) ≤ ((hi.2 - lo.2 : ℤ) : ℚ) := by
    exact_mod_cast (by omega : (0 : ℤ) ≤ hi.2 - lo.2)
  have hoffset : ((x - lo.1 : ℤ) : ℚ) ≤ ((y - lo.1 : ℤ) : ℚ) := by
    exact_mod_cast (by omega : x - lo.1 ≤ y - lo.1)
  rw [interpolate_of_lt h, interpolate_of_lt h]
  apply saturate_mono
  apply roundHalfAway_mono
  gcongr

theorem interpolate_lower {lo hi : ℤ × ℤ} (h : lo.1 < hi.1)
    (hrange : InI64 lo.2) : interpolate lo hi lo.1 = lo.2 := by
  rw [interpolate_of_lt h, sub_self, Int.cast_zero, zero_div, zero_mul,
    add_zero, roundHalfAway_intCast, saturate_eq_self hrange]

/-- Rounded interpolation stays between the breakpoints it connects. -/
theorem bridges_interpolate {points : List (ℤ × ℤ)}
    (hrange : ∀ p ∈ points, InI64 p.2) : Bridges interpolate points where
  upper lo _ hi hhi hlt := interpolate_upper hlt (hrange hi hhi)
  lower lo hlo hi _ hvalues x hx hx' := by
    have hlt := hx.trans_le hx'
    rw [← interpolate_lower hlt (hrange lo hlo)]
    exact interpolate_mono hlt hvalues hx.le
  mono lo _ hi _ hvalues x y hx hxy hy :=
    interpolate_mono (hx.trans_le (hxy.trans hy)) hvalues hxy

section New

variable {points : List (ℤ × ℤ)} (hne : points ≠ [])

theorem new_points_perm : (new points hne).points.Perm points :=
  List.mergeSort_perm _ _

theorem new_points_sorted :
    (new points hne).points.Pairwise fun p q => p.1 ≤ q.1 := by
  have htrans : ∀ p q r : ℤ × ℤ, decide (p.1 ≤ q.1) = true →
      decide (q.1 ≤ r.1) = true → decide (p.1 ≤ r.1) = true := by
    intro p q r hpq hqr
    exact decide_eq_true
      ((of_decide_eq_true hpq).trans (of_decide_eq_true hqr))
  have htotal : ∀ p q : ℤ × ℤ,
      (decide (p.1 ≤ q.1) || decide (q.1 ≤ p.1)) = true := by
    intro p q
    rw [Bool.or_eq_true, decide_eq_true_iff, decide_eq_true_iff]
    exact le_total p.1 q.1
  exact (List.pairwise_mergeSort htrans htotal points).imp fun h =>
    of_decide_eq_true h

theorem new_keys_distinct (hdistinct : (points.map Prod.fst).Nodup) :
    ((new points hne).points.map Prod.fst).Nodup :=
  ((new_points_perm hne).map Prod.fst).nodup_iff.mpr hdistinct

/-- Distinct voltages are strictly ascending once sorted. -/
theorem new_points_strict (hdistinct : (points.map Prod.fst).Nodup) :
    (new points hne).points.Pairwise fun p q => p.1 < q.1 := by
  have hne_keys := List.pairwise_map.mp (new_keys_distinct hne hdistinct)
  exact ((new_points_sorted hne).and hne_keys).imp fun h =>
    lt_of_le_of_ne h.1 h.2

/-- Breakpoints of distinct voltages make one curve, in whatever order they are
given. -/
theorem new_eq_of_perm (hdistinct : (points.map Prod.fst).Nodup)
    {points' : List (ℤ × ℤ)} (hne' : points' ≠ []) (hperm : points'.Perm points) :
    new points' hne' = new points hne := by
  have hdistinct' : (points'.map Prod.fst).Nodup :=
    (hperm.map Prod.fst).nodup_iff.mpr hdistinct
  have hpoints : (new points' hne').points = (new points hne).points := by
    refine List.Perm.eq_of_pairwise ?_ (new_points_strict hne' hdistinct')
      (new_points_strict hne hdistinct)
      ((new_points_perm hne').trans (hperm.trans (new_points_perm hne).symm))
    intro a b _ _ hab hba
    exact absurd hab (not_lt.mpr hba.le)
  cases h : new points hne
  cases h' : new points' hne'
  rw [h, h'] at hpoints
  simpa using hpoints

end New

end BatteryCurve

open BatteryCurve

/-- The curve is well defined for any breakpoints; through distinct ones it does
not depend on their order and meets each of them; over ascending percentages it
ascends and stays between the first and the last. -/
theorem batteryCurve_wellDefined (points : List (ℤ × ℤ)) (hne : points ≠ [])
    (hrange : ∀ p ∈ points, InI64 p.2) :
    let curve := BatteryCurve.new points hne
    let first := curve.points.head curve.nonempty
    let last := curve.points.getLast curve.nonempty
    (∀ mv, first.1 < mv → mv < last.1 →
      ∃ lo hi, window mv curve.points = some (lo, hi) ∧ hi.1 - lo.1 ≠ 0 ∧
        ∀ final, percentWithin mv final curve.points = interpolate lo hi mv) ∧
    ((points.map Prod.fst).Nodup →
      (∀ points' hne', points'.Perm points →
        ∀ mv, (BatteryCurve.new points' hne').percent mv = curve.percent mv) ∧
      ∀ p ∈ points, curve.percent p.1 = p.2) ∧
    ((curve.points.map Prod.snd).Pairwise (· ≤ ·) →
      Monotone curve.percent ∧
        ∀ mv, first.2 ≤ curve.percent mv ∧ curve.percent mv ≤ last.2) := by
  intro curve first last
  have hmem : ∀ p, p ∈ curve.points ↔ p ∈ points := fun p =>
    (new_points_perm hne).mem_iff
  have hbridges : Bridges interpolate curve.points :=
    bridges_interpolate fun p hp => hrange p ((hmem p).mp hp)
  refine ⟨?_, ?_, ?_⟩
  · intro mv hfirst hlast
    obtain ⟨lo, hi, hwindow, hlo, hhi, -, -⟩ :=
      exists_window_inside curve.nonempty hfirst hlast
    refine ⟨lo, hi, hwindow, by omega, ?_⟩
    intro final
    rw [percentWithin_eq, hwindow]
  · intro hdistinct
    refine ⟨?_, ?_⟩
    · intro points' hne' hperm mv
      rw [new_eq_of_perm hne hdistinct hne' hperm]
    · intro p hp
      rw [percent_eq_read]
      exact read_of_mem curve.nonempty hbridges (new_points_strict hne hdistinct)
        ((hmem p).mpr hp)
  · intro hvalues
    have hascending := List.pairwise_map.mp hvalues
    rw [percent_eq_read]
    exact ⟨read_mono curve.nonempty hbridges hascending,
      read_mem_Icc curve.nonempty hbridges hascending⟩

/-- The two breakpoints of the source's test, given in either order. -/
theorem batteryCurve_unsorted :
    let curve := BatteryCurve.new [(4000, 100), (3000, 0)] (by simp)
    curve.percent 4000 = 100 ∧
      ∀ mv, (BatteryCurve.new [(3000, 0), (4000, 100)] (by simp)).percent mv =
        curve.percent mv := by
  have h := batteryCurve_wellDefined [(4000, 100), (3000, 0)] (by simp)
    (by decide)
  obtain ⟨horder, hmeets⟩ := h.2.1 (by decide)
  exact ⟨hmeets (4000, 100) (by simp),
    horder [(3000, 0), (4000, 100)] (by simp) (by decide)⟩

end Aquilo
