/-
What the days-left estimate is: the last level projected along the line that
fits level against time best.  Times are whole seconds, and the line's slope does
not depend on where the time axis starts.
-/
import Aquilo.History

namespace Aquilo

open ExactFloat LeastSquares

section Projection

variable (time : String → Option ℚ)

/-- A record as a point: days from an origin against radar distance. -/
def DatedAs (origin : ℚ) (r : ReadingRecord) (p : ℚ × ℚ) : Prop :=
  ∃ t, time r.ts = some t ∧ p = ((t - origin) / 86400, r.lvl)

/-- The points of a history on the time axis that starts at an origin. -/
def OnTimeAxis (origin : ℚ) (history : List ReadingRecord)
    (points : List (ℚ × ℚ)) : Prop :=
  List.Forall₂ (DatedAs time origin) history points

/-- A history that supports no projection: too short, undated in part, without
extent in time, or not filling. -/
def SupportsNoProjection (history : List ReadingRecord) : Prop :=
  history.length < 2 ∨ (∃ r ∈ history, time r.ts = none) ∨
    (∃ t, ∀ r ∈ history, time r.ts = some t) ∨
    ∃ origin points line, OnTimeAxis time origin history points ∧
      IsBestFit points line ∧ 0 ≤ line.slope

/-- An estimate projects the last level along the line of best fit: there is none
exactly when the history supports none; otherwise the line of best fit is unique and
falling on every time axis, with one slope. -/
structure IsProjection (history : List ReadingRecord) (fullDist : ℚ)
    (estimate : Option ℤ) : Prop where
  none_iff : estimate = none ↔ SupportsNoProjection time history
  projected : ¬ SupportsNoProjection time history →
    ∃ b last, b < 0 ∧ history.getLast? = some last ∧
      estimate = some (saturate
        (max 0 (roundHalfAway ((last.lvl - fullDist) / -b)))) ∧
      ∀ origin, ∃ points, OnTimeAxis time origin history points ∧
        sxx points ≠ 0 ∧ ∃ line, line.slope = b ∧
          ∀ other, IsBestFit points other ↔ other = line

variable {time}

theorem OnTimeAxis.length_eq {origin : ℚ} {history : List ReadingRecord}
    {points : List (ℚ × ℚ)} (h : OnTimeAxis time origin history points) :
    history.length = points.length := List.Forall₂.length_eq h

theorem onTimeAxis_unique {origin : ℚ} {history : List ReadingRecord}
    {left right : List (ℚ × ℚ)} (hleft : OnTimeAxis time origin history left)
    (hright : OnTimeAxis time origin history right) : left = right := by
  apply List.right_unique_forall₂' ?_ hleft hright
  rintro r p q ⟨t, ht, rfl⟩ ⟨t', ht', rfl⟩
  rw [ht, Option.some.injEq] at ht'
  rw [ht']

theorem exists_onTimeAxis (origin : ℚ) {history : List ReadingRecord}
    (hdated : ∀ r ∈ history, time r.ts ≠ none) :
    ∃ points, OnTimeAxis time origin history points := by
  induction history with
  | nil => exact ⟨[], List.Forall₂.nil⟩
  | cons r rest ih =>
      obtain ⟨t, ht⟩ := Option.ne_none_iff_exists'.mp
        (hdated r List.mem_cons_self)
      obtain ⟨points, hpoints⟩ :=
        ih fun r' hr' => hdated r' (List.mem_cons_of_mem r hr')
      exact ⟨_, List.Forall₂.cons ⟨t, ht, rfl⟩ hpoints⟩

/-- The same history from another origin. -/
theorem OnTimeAxis.translate {origin : ℚ} {history : List ReadingRecord}
    {points : List (ℚ × ℚ)} (h : OnTimeAxis time origin history points)
    (origin' : ℚ) :
    OnTimeAxis time origin' history
      (translate ((origin - origin') / 86400) points) := by
  rw [OnTimeAxis, LeastSquares.translate, List.forall₂_map_right_iff]
  apply List.Forall₂.imp ?_ h
  rintro r p ⟨t, ht, rfl⟩
  refine ⟨t, ht, ?_⟩
  rw [← add_div]
  ring_nf

theorem OnTimeAxis.exists_point {origin : ℚ} {history : List ReadingRecord}
    {points : List (ℚ × ℚ)} (h : OnTimeAxis time origin history points)
    {r : ReadingRecord} (hr : r ∈ history) :
    ∃ p ∈ points, DatedAs time origin r p := by
  induction h with
  | nil => cases hr
  | cons hp _ ih =>
      rcases List.mem_cons.mp hr with rfl | hr
      · exact ⟨_, List.mem_cons_self, hp⟩
      · obtain ⟨p, hmem, hdated⟩ := ih hr
        exact ⟨p, List.mem_cons_of_mem _ hmem, hdated⟩

theorem OnTimeAxis.exists_record {origin : ℚ} {history : List ReadingRecord}
    {points : List (ℚ × ℚ)} (h : OnTimeAxis time origin history points)
    {p : ℚ × ℚ} (hp : p ∈ points) :
    ∃ r ∈ history, DatedAs time origin r p := by
  induction h with
  | nil => cases hp
  | cons hr _ ih =>
      rcases List.mem_cons.mp hp with rfl | hp
      · exact ⟨_, List.mem_cons_self, hr⟩
      · obtain ⟨r, hmem, hdated⟩ := ih hp
        exact ⟨r, List.mem_cons_of_mem _ hmem, hdated⟩

/-- A history has no extent in time exactly when its instants coincide. -/
theorem OnTimeAxis.sxx_eq_zero_iff {origin : ℚ} {history : List ReadingRecord}
    {points : List (ℚ × ℚ)} (h : OnTimeAxis time origin history points)
    (hne : points ≠ []) :
    sxx points = 0 ↔ ∃ t, ∀ r ∈ history, time r.ts = some t := by
  rw [LeastSquares.sxx_eq_zero_iff hne]
  constructor
  · rintro ⟨x, hx⟩
    obtain ⟨p, hp⟩ := List.exists_mem_of_ne_nil points hne
    obtain ⟨r, -, t, -, rfl⟩ := h.exists_record hp
    refine ⟨t, fun r' hr' => ?_⟩
    obtain ⟨p', hp', t', ht', rfl⟩ := h.exists_point hr'
    have hsame : ((t' : ℚ) - origin) / 86400 = (t - origin) / 86400 :=
      (hx _ hp').trans (hx _ hp).symm
    have ht : t' = t := by
      rwa [div_left_inj' (by norm_num), sub_left_inj] at hsame
    rw [ht', ht]
  · rintro ⟨t, ht⟩
    refine ⟨(t - origin) / 86400, fun p hp => ?_⟩
    obtain ⟨r, hr, t', ht', rfl⟩ := h.exists_record hp
    rw [ht r hr, Option.some.injEq] at ht'
    rw [ht']

/-- On one axis: nothing is projected exactly for a history without extent or
without a falling line of best fit. -/
theorem OnTimeAxis.supportsNoProjection_iff {origin : ℚ}
    {history : List ReadingRecord} {points : List (ℚ × ℚ)}
    (h : OnTimeAxis time origin history points) (hlen : 2 ≤ history.length) :
    SupportsNoProjection time history ↔
      sxx points = 0 ∨ 0 ≤ sxy points / sxx points := by
  have hne : points ≠ [] := by
    rintro rfl
    rw [h.length_eq] at hlen
    simp at hlen
  constructor
  · rintro (hshort | ⟨r, hr, hnone⟩ | hsame | ⟨origin', points', line, h', hbest,
      hslope⟩)
    · omega
    · obtain ⟨p, -, t, ht, -⟩ := h.exists_point hr
      rw [hnone] at ht
      cases ht
    · exact Or.inl ((h.sxx_eq_zero_iff hne).mpr hsame)
    · by_cases hzero : sxx points = 0
      · exact Or.inl hzero
      · have hpoints := onTimeAxis_unique h' (h.translate origin')
        have hne' : points' ≠ [] := by
          rw [hpoints, LeastSquares.translate]
          simpa using hne
        have hxx : sxx points' = sxx points := by
          rw [hpoints, sxx_translate hne]
        have hxy : sxy points' = sxy points := by
          rw [hpoints, sxy_translate hne]
        rw [isBestFit_iff hne' (hxx ▸ hzero)] at hbest
        rw [hbest, fitted, hxx, hxy] at hslope
        exact Or.inr hslope
  · intro hflat
    by_cases hzero : sxx points = 0
    · exact Or.inr (Or.inr (Or.inl ((h.sxx_eq_zero_iff hne).mp hzero)))
    · refine Or.inr (Or.inr (Or.inr ⟨origin, points, fitted points, h, ?_, ?_⟩))
      · exact (isBestFit_iff hne hzero).mpr rfl
      · exact hflat.resolve_left hzero

/-- The epoch seconds as a time. -/
def secondsBy (parseTs : String → Option ℤ) (ts : String) : Option ℚ :=
  (parseTs ts).map Int.cast

variable {parseTs : String → Option ℤ}

/-- The points the source accumulates are the history's on the time axis. -/
theorem fitPoints_eq_some_iff {t0 : ℤ} {history : List ReadingRecord}
    {points : List (ℚ × ℚ)} :
    fitPoints parseTs t0 history = some points ↔
      OnTimeAxis (secondsBy parseTs) t0 history points := by
  induction history generalizing points with
  | nil => simp [fitPoints, OnTimeAxis, eq_comm]
  | cons r rest ih =>
      rw [OnTimeAxis, List.forall₂_cons_left_iff]
      constructor
      · intro h
        simp only [fitPoints, Option.bind_eq_bind, Option.bind_eq_some_iff,
          Option.pure_def, Option.some.injEq] at h
        obtain ⟨t, ht, tail, htail, rfl⟩ := h
        exact ⟨_, tail, ⟨t, by rw [secondsBy, ht, Option.map_some], by push_cast; rfl⟩,
          ih.mp htail, rfl⟩
      · rintro ⟨p, tail, ⟨x, hx, rfl⟩, htail, rfl⟩
        obtain ⟨t, ht, rfl⟩ := Option.map_eq_some_iff.mp hx
        simp [fitPoints, ht, ih.mpr htail]

theorem daysLeft_of_undated {history : List ReadingRecord} {fullDist : ℚ}
    {r : ReadingRecord} (hr : r ∈ history) (hnone : parseTs r.ts = none) :
    daysLeft parseTs history fullDist = none := by
  rw [daysLeft]
  split
  · rfl
  · cases history with
    | nil => cases hr
    | cons first rest =>
        cases ht0 : parseTs first.ts with
        | none => simp [ht0]
        | some t0 =>
            have hfit : fitPoints parseTs t0 (first :: rest) = none := by
              rw [Option.eq_none_iff_forall_ne_some]
              intro points hpoints
              obtain ⟨p, -, t, ht, -⟩ :=
                (fitPoints_eq_some_iff.mp hpoints).exists_point hr
              rw [secondsBy, hnone] at ht
              cases ht
            simp only [List.head?_cons, Option.bind_eq_bind, Option.bind_some,
              ht0, hfit, Option.bind_none]

/-- The estimate read off the points of any time axis. -/
theorem daysLeft_of_onTimeAxis {origin : ℚ} {history : List ReadingRecord}
    {points : List (ℚ × ℚ)} (hpoints : OnTimeAxis (secondsBy parseTs) origin history points)
    (hlen : 2 ≤ history.length) {last : ReadingRecord}
    (hlast : history.getLast? = some last) (fullDist : ℚ) :
    daysLeft parseTs history fullDist =
      if sxx points = 0 ∨ 0 ≤ sxy points / sxx points then none
      else some (saturate (max (roundHalfAway
        ((last.lvl - fullDist) / -(sxy points / sxx points))) 0)) := by
  have hne : points ≠ [] := by
    rintro rfl
    rw [hpoints.length_eq] at hlen
    simp at hlen
  match history, hpoints, hlen, hlast with
  | first :: second :: rest, hpoints, hlen, hlast =>
      obtain ⟨p, tail, ⟨x, hx, -⟩, -, -⟩ :=
        List.forall₂_cons_left_iff.mp hpoints
      obtain ⟨t0, ht0, -⟩ := Option.map_eq_some_iff.mp hx
      -- the source's own axis starts at the first record
      have hown := hpoints.translate t0
      have hfit := fitPoints_eq_some_iff.mpr hown
      have hxx := sxx_translate hne ((origin - t0) / 86400)
      have hxy := sxy_translate hne ((origin - t0) / 86400)
      by_cases hzero : sxx points = 0
      · rw [if_pos (Or.inl hzero), daysLeft, if_neg (by simp)]
        simp only [List.head?_cons, Option.bind_eq_bind, Option.bind_some, ht0,
          hfit, hxx, hzero, ↓reduceIte]
      · by_cases hrate : 0 ≤ sxy points / sxx points
        · have hflat : -(sxy points / sxx points) ≤ 0 := by linarith
          rw [if_pos (Or.inr hrate), daysLeft, if_neg (by simp)]
          simp only [List.head?_cons, Option.bind_eq_bind, Option.bind_some,
            ht0, hfit, hxx, hxy, hflat]
          simp
        · have hfall : 0 < -(sxy points / sxx points) := by linarith
          rw [if_neg (not_or.mpr ⟨hzero, hrate⟩), ← hxx, ← hxy]
          apply daysLeft_eq_some_of_falling (by simp) ht0 hfit hlast
          · rwa [hxx]
          · rwa [hxx, hxy]

end Projection

/-- The estimate is a projection over the times the fit reads. -/
theorem daysLeft_isProjection (parseTs : String → Option ℤ)
    (history : List ReadingRecord) (fullDist : ℚ) :
    IsProjection (secondsBy parseTs) history fullDist
      (daysLeft parseTs history fullDist) := by
  by_cases hlen : history.length < 2
  · have hnone : daysLeft parseTs history fullDist = none := if_pos hlen
    exact ⟨iff_of_true hnone (Or.inl hlen), fun h => absurd (Or.inl hlen) h⟩
  by_cases hdated : ∃ r ∈ history, parseTs r.ts = none
  · obtain ⟨r, hr, hnone⟩ := hdated
    have hundated : SupportsNoProjection (secondsBy parseTs) history :=
      Or.inr (Or.inl ⟨r, hr, by rw [secondsBy, hnone, Option.map_none]⟩)
    exact ⟨iff_of_true (daysLeft_of_undated hr hnone) hundated,
      fun h => absurd hundated h⟩
  have hlong : 2 ≤ history.length := by omega
  have haxis : ∀ origin, ∃ points,
      OnTimeAxis (secondsBy parseTs) origin history points :=
    fun origin => exists_onTimeAxis origin fun r hr hnone =>
      hdated ⟨r, hr, Option.map_eq_none_iff.mp hnone⟩
  have hnonempty : history ≠ [] := by
    rintro rfl
    simp at hlong
  obtain ⟨points, hpoints⟩ := haxis 0
  have hlast := List.getLast?_eq_some_getLast hnonempty
  have hdays := daysLeft_of_onTimeAxis hpoints hlong hlast fullDist
  have hsupports := hpoints.supportsNoProjection_iff hlong
  have hne : points ≠ [] := by
    rintro rfl
    rw [hpoints.length_eq] at hlong
    simp at hlong
  constructor
  · rw [hdays, hsupports, ite_eq_left_iff]
    simp only [reduceCtorEq, imp_false, not_not]
  · intro hprojects
    have hfalls := hsupports.not.mp hprojects
    obtain ⟨hzero, hslope⟩ := not_or.mp hfalls
    refine ⟨sxy points / sxx points, history.getLast hnonempty,
      not_le.mp hslope, hlast, ?_, ?_⟩
    · rw [hdays, if_neg hfalls, max_comm]
    · intro origin
      have hother := hpoints.translate origin
      have hxx := sxx_translate hne ((0 - origin) / 86400)
      have hxy := sxy_translate hne ((0 - origin) / 86400)
      refine ⟨_, hother, hxx ▸ hzero,
        fitted (LeastSquares.translate ((0 - origin) / 86400) points), ?_,
        fun other => ?_⟩
      · rw [fitted, hxx, hxy]
      · apply isBestFit_iff
        · simpa [LeastSquares.translate] using hne
        · rwa [hxx]

/-- The seconds of a timestamp, without their fraction. -/
def wholeSeconds (parseFromRfc3339 : String → Option DateTime) : String → Option ℚ :=
  secondsBy (parseTs parseFromRfc3339)

/-- The instant of a timestamp. -/
def instantOf (parseFromRfc3339 : String → Option DateTime) (ts : String) : Option ℚ :=
  (parseFromRfc3339 ts).map DateTime.instant

/-- The estimate is the least-squares projection over whole seconds. -/
theorem daysLeft_eq_least_squares_projection
    (parseFromRfc3339 : String → Option DateTime) (history : List ReadingRecord)
    (fullDist : ℚ) :
    IsProjection (wholeSeconds parseFromRfc3339) history fullDist
      (daysLeft (parseTs parseFromRfc3339) history fullDist) :=
  daysLeft_isProjection _ history fullDist

namespace Sample

/-- Two times within one second. -/
def fractionsOfSecond (ts : String) : Option DateTime :=
  if ts = "2026-06-01T00:00:00.0Z" then some ⟨1780272000, 0⟩
  else if ts = "2026-06-01T00:00:00.9Z" then some ⟨1780272000, 900000000⟩
  else none

/-- A level that falls within the second. -/
def secondHistory : List ReadingRecord :=
  [ ⟨"2026-06-01T00:00:00.0Z", 150, 83⟩,
    ⟨"2026-06-01T00:00:00.9Z", 1499999 / 10000, 83⟩ ]

theorem secondHistory_onTimeAxis :
    OnTimeAxis (instantOf fractionsOfSecond) 1780272000 secondHistory
      [(0, 150), (1 / 96000, 1499999 / 10000)] := by
  refine .cons ⟨1780272000, ?_, ?_⟩ (.cons ⟨17802720009 / 10, ?_, ?_⟩ .nil)
  · decide +kernel
  · norm_num
  · decide +kernel
  · norm_num

end Sample

open Sample in
/-- Over instants it is not: within a second nothing is projected. -/
theorem daysLeft_not_over_instants :
    ¬ ∀ (parseFromRfc3339 : String → Option DateTime) (history : List ReadingRecord)
      (fullDist : ℚ), IsProjection (instantOf parseFromRfc3339) history fullDist
        (daysLeft (parseTs parseFromRfc3339) history fullDist) := by
  intro h
  have hnone : daysLeft (parseTs fractionsOfSecond) secondHistory 40 = none := by
    decide +kernel
  have hunsupported := (h fractionsOfSecond secondHistory 40).none_iff.mp hnone
  rw [secondHistory_onTimeAxis.supportsNoProjection_iff (by decide)] at hunsupported
  revert hunsupported
  norm_num [sxx, sxy, meanX, meanY]

end Aquilo
