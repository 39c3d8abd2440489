/-
The rolling reading history and the two projections made from it: pump-out
detection and the days-left estimate.  The reader of RFC 3339 timestamps is
third-party and enters as a parameter.
-/
import Aquilo.ExactFloat
import Aquilo.LeastSquares

namespace Aquilo

open ExactFloat LeastSquares

/-- One stored reading: when it was received, the radar distance to the
surface and the battery percentage at that time. -/
structure ReadingRecord where
  ts : String
  lvl : ℚ
  bat : ℤ
deriving DecidableEq, Repr

/-- A date and time as it is read: the whole seconds since the epoch and the
nanoseconds past them. -/
structure DateTime where
  seconds : ℤ
  nanos : ℕ
deriving DecidableEq, Repr

namespace DateTime

/-- Epoch seconds; a fraction of a second is dropped. -/
def timestamp (d : DateTime) : ℤ := d.seconds

/-- Seconds since the epoch, with their fraction. -/
def instant (d : DateTime) : ℚ := d.seconds + d.nanos / 10 ^ 9

end DateTime

/-- The epoch seconds of a timestamp; a malformed one has none. -/
def parseTs (parseFromRfc3339 : String → Option DateTime) (ts : String) : Option ℤ :=
  (parseFromRfc3339 ts).map DateTime.timestamp

/-- A fall of at least the threshold between two consecutive percentages.  The
subtraction is a 64-bit one. -/
def isPumpOut (prevPct newPct dropThresholdPct : ℤ) : Bool :=
  decide (dropThresholdPct ≤ wrap (prevPct - newPct))

/-- The points the fit runs over: days since the first reading against radar
distance.  One malformed timestamp gives up the projection. -/
def fitPoints (parseTs : String → Option ℤ) (t0 : ℤ) :
    List ReadingRecord → Option (List (ℚ × ℚ))
  | [] => some []
  | r :: rest => do
      let t ← parseTs r.ts
      let points ← fitPoints parseTs t0 rest
      return (((t - t0 : ℤ) : ℚ) / 86400, r.lvl) :: points

/-- Days until the radar distance falls to `fullDist`, from a least-squares fit
of distance against time over the history. -/
def daysLeft (parseTs : String → Option ℤ) (history : List ReadingRecord)
    (fullDist : ℚ) : Option ℤ :=
  if history.length < 2 then none
  else do
    let first ← history.head?
    let t0 ← parseTs first.ts
    let points ← fitPoints parseTs t0 history
    if sxx points = 0 then none
    else
      let slope := sxy points / sxx points
      let fillRate := -slope
      if fillRate ≤ 0 then none
      else
        let current ← history.getLast?
        let days := (current.lvl - fullDist) / fillRate
        return saturate (max (roundHalfAway days) 0)

theorem isPumpOut_iff {prevPct newPct dropThresholdPct : ℤ}
    (h : InI64 (prevPct - newPct)) :
    isPumpOut prevPct newPct dropThresholdPct = true ↔
      dropThresholdPct ≤ prevPct - newPct := by
  rw [isPumpOut, wrap_eq_self h, decide_eq_true_iff]

section Fit

variable {parseTs : String → Option ℤ} {t0 : ℤ}

theorem fitPoints_append {xs ys : List ReadingRecord}
    {left right : List (ℚ × ℚ)} (hleft : fitPoints parseTs t0 xs = some left)
    (hright : fitPoints parseTs t0 ys = some right) :
    fitPoints parseTs t0 (xs ++ ys) = some (left ++ right) := by
  induction xs generalizing left with
  | nil =>
      cases Option.some.inj hleft
      exact hright
  | cons r rest ih =>
      cases ht : parseTs r.ts with
      | none => simp [fitPoints, ht] at hleft
      | some t =>
          cases hpoints : fitPoints parseTs t0 rest with
          | none => simp [fitPoints, ht, hpoints] at hleft
          | some points =>
              simp only [fitPoints, ht, hpoints, Option.bind_eq_bind,
                Option.bind_some, Option.pure_def, Option.some.injEq] at hleft
              subst hleft
              simp [fitPoints, ht, ih hpoints]

/-- A flat or rising distance supports no projection. -/
theorem daysLeft_eq_none_of_rising {first : ReadingRecord}
    {rest : List ReadingRecord} {points : List (ℚ × ℚ)} {fullDist : ℚ}
    (ht0 : parseTs first.ts = some t0)
    (hpoints : fitPoints parseTs t0 (first :: rest) = some points)
    (hrising : 0 ≤ sxy points) :
    daysLeft parseTs (first :: rest) fullDist = none := by
  have hrate : -(sxy points / sxx points) ≤ 0 := by
    have := div_nonneg hrising (sxx_nonneg points)
    linarith
  by_cases hshort : (first :: rest).length < 2
  · rw [daysLeft, if_pos hshort]
  · simp only [daysLeft, hshort, ↓reduceIte, List.head?_cons,
      Option.bind_eq_bind, Option.bind_some, ht0, hpoints, hrate, ite_self]

/-- A falling distance projects the last level at the fitted rate. -/
theorem daysLeft_eq_some_of_falling {first last : ReadingRecord}
    {rest : List ReadingRecord} {points : List (ℚ × ℚ)} {fullDist : ℚ}
    (hrest : rest ≠ []) (ht0 : parseTs first.ts = some t0)
    (hpoints : fitPoints parseTs t0 (first :: rest) = some points)
    (hlast : (first :: rest).getLast? = some last)
    (hsxx : sxx points ≠ 0) (hrate : 0 < -(sxy points / sxx points)) :
    daysLeft parseTs (first :: rest) fullDist =
      some (saturate (max (roundHalfAway
        ((last.lvl - fullDist) / -(sxy points / sxx points))) 0)) := by
  have hlen : ¬ (first :: rest).length < 2 := by
    have hpos := List.length_pos_iff.mpr hrest
    simp only [List.length_cons]
    omega
  simp only [daysLeft, hlen, ↓reduceIte, List.head?_cons, Option.bind_eq_bind,
    Option.bind_some, ht0, hpoints, hsxx, not_le.mpr hrate, hlast,
    Option.pure_def]

end Fit

end Aquilo
