/-
What the server forgets.  Its state after some readings depends on the state it
started from, such as a restored or a lost state file, until two readings in a
row make a pump-out and a window of these readings alone supports a projection;
from then on it does not.
-/
import Aquilo.ClosedForm

namespace Aquilo

open ExactFloat RollingWindow

namespace Runtime

section Forgetting

variable (parseTs : String → Option ℤ) (cfg : Config) (battery : BatteryCurve)

/-- Two readings in a row make a pump-out. -/
def PumpsOutWithin (readings : List Stamped) : Prop :=
  ∃ pre r r' post, readings = pre ++ r :: r' :: post ∧
    isPumpOut (cfg.calibration.pct r.1.levelCm) (cfg.calibration.pct r'.1.levelCm)
      cfg.pumpOutDropPct = true

/-- Some window that the readings fill by themselves supports a projection. -/
def ProjectsAlone (readings : List Stamped) : Prop :=
  ∃ pre, pre <+: readings ∧ cfg.historyMaxLen ≤ pre.length ∧
    (daysLeft parseTs ((pre.map (recordOf battery)).rtake cfg.historyMaxLen)
      cfg.calibration.fullDist).isSome

/-- The start no longer shows. -/
def ForgetsStart (readings : List Stamped) : Prop :=
  ∀ rt rt' : Runtime, rt.applyReadings parseTs cfg battery readings =
    rt'.applyReadings parseTs cfg battery readings

variable {parseTs cfg battery}

theorem eq_of_fields {s s' : Runtime} (hcurrent : s.current = s'.current)
    (hhistory : s.history = s'.history) (hempty : s.lstEmpty = s'.lstEmpty) :
    s = s' := by
  cases s
  cases s'
  cases hcurrent
  cases hhistory
  cases hempty
  rfl

/-- What two servers agree on, they go on agreeing on. -/
theorem applyReadings_agree {r : Runtime → Runtime → Prop}
    (hstep : ∀ s s' reading now, r s s' →
      r (s.applyReading parseTs cfg battery reading now)
        (s'.applyReading parseTs cfg battery reading now))
    {s s' : Runtime} (h : r s s') (readings : List Stamped) :
    r (s.applyReadings parseTs cfg battery readings)
      (s'.applyReadings parseTs cfg battery readings) :=
  List.foldl_rel h fun stamped _ t t' ht => hstep t t' stamped.1 stamped.2 ht

/-- Servers with the same percentage and baseline keep the same baseline. -/
theorem applyReadings_baseline {s s' : Runtime}
    (hpct : s.current.pct = s'.current.pct) (hempty : s.lstEmpty = s'.lstEmpty)
    (readings : List Stamped) :
    (s.applyReadings parseTs cfg battery readings).lstEmpty =
      (s'.applyReadings parseTs cfg battery readings).lstEmpty := by
  refine (applyReadings_agree
    (r := fun s s' => s.current.pct = s'.current.pct ∧ s.lstEmpty = s'.lstEmpty)
    ?_ ⟨hpct, hempty⟩ readings).2
  rintro t t' reading now ⟨hp, he⟩
  have hdetect : t.detectsPumpOut cfg reading = t'.detectsPumpOut cfg reading := by
    rw [detectsPumpOut, detectsPumpOut, hp]
  exact ⟨rfl, by rw [applyReading_lstEmpty, applyReading_lstEmpty, hdetect, he]⟩

/-- Servers with the same window and estimate keep the same estimate. -/
theorem applyReadings_estimate {s s' : Runtime} (hhistory : s.history = s'.history)
    (hdays : s.current.daysLeft = s'.current.daysLeft) (readings : List Stamped) :
    (s.applyReadings parseTs cfg battery readings).current.daysLeft =
      (s'.applyReadings parseTs cfg battery readings).current.daysLeft := by
  refine (applyReadings_agree
    (r := fun s s' =>
      s.history = s'.history ∧ s.current.daysLeft = s'.current.daysLeft)
    ?_ ⟨hhistory, hdays⟩ readings).2
  rintro t t' reading now ⟨hh, hd⟩
  simp only [applyReading_history, applyReading_daysLeft, hh, hd, and_self]

/-- A window the readings fill holds nothing else. -/
theorem applyReadings_history_of_le (rt : Runtime) {readings : List Stamped}
    (hne : readings ≠ []) (hlen : cfg.historyMaxLen ≤ readings.length) :
    (rt.applyReadings parseTs cfg battery readings).history =
      (readings.map (recordOf battery)).rtake cfg.historyMaxLen := by
  rw [applyReadings_history parseTs cfg battery rt hne,
    rtake_append_of_le_length (by simpa using hlen)]

/-- After a pump-out between two readings the baseline is the same. -/
theorem PumpsOutWithin.baseline {readings : List Stamped}
    (h : PumpsOutWithin cfg readings) (rt rt' : Runtime) :
    (rt.applyReadings parseTs cfg battery readings).lstEmpty =
      (rt'.applyReadings parseTs cfg battery readings).lstEmpty := by
  obtain ⟨pre, r, r', post, rfl, hpump⟩ := h
  have hreset : ∀ s : Runtime,
      ((s.applyReading parseTs cfg battery r.1 r.2).applyReading parseTs cfg
        battery r'.1 r'.2).lstEmpty = r'.2 := by
    intro s
    rw [applyReading_lstEmpty, detectsPumpOut, applyReading_pct, hpump]
    rfl
  simp only [applyReadings_append, applyReadings_cons]
  refine applyReadings_baseline ?_ ?_ post
  · rfl
  · rw [hreset, hreset]

/-- After a projection from the readings alone the estimate is the same. -/
theorem ProjectsAlone.estimate {readings : List Stamped}
    (h : ProjectsAlone parseTs cfg battery readings) (rt rt' : Runtime) :
    (rt.applyReadings parseTs cfg battery readings).current.daysLeft =
      (rt'.applyReadings parseTs cfg battery readings).current.daysLeft := by
  obtain ⟨pre, ⟨post, rfl⟩, hlen, hsome⟩ := h
  obtain ⟨d, hd⟩ := Option.isSome_iff_exists.mp hsome
  have hne : pre ≠ [] := by
    rintro rfl
    simp [daysLeft, List.rtake] at hd
  have hwindow : ∀ s : Runtime, (s.applyReadings parseTs cfg battery pre).history =
      (pre.map (recordOf battery)).rtake cfg.historyMaxLen :=
    fun s => applyReadings_history_of_le s hne hlen
  have hdays : ∀ s : Runtime,
      (s.applyReadings parseTs cfg battery pre).current.daysLeft = d := fun s =>
    applyReadings_daysLeft_of_window parseTs cfg battery s hne
      (by rw [hwindow, hd])
  rw [applyReadings_append, applyReadings_append]
  apply applyReadings_estimate
  · rw [hwindow, hwindow]
  · rw [hdays, hdays]

/-- With the baseline, the window and the estimate, everything is the same. -/
theorem forgetsStart_of {readings : List Stamped} (hpump : PumpsOutWithin cfg readings)
    (hproject : ProjectsAlone parseTs cfg battery readings) :
    ForgetsStart parseTs cfg battery readings := by
  intro rt rt'
  have hempty : (rt.applyReadings parseTs cfg battery readings).lstEmpty =
      (rt'.applyReadings parseTs cfg battery readings).lstEmpty :=
    hpump.baseline rt rt'
  have hdays := hproject.estimate rt rt'
  obtain ⟨pre, hpre, hlen, -⟩ := hproject
  have hne : readings ≠ [] := by
    obtain ⟨before, r, r', after, rfl, -⟩ := hpump
    simp
  have hfill : cfg.historyMaxLen ≤ readings.length := hlen.trans hpre.length_le
  apply eq_of_fields
  · rw [applyReadings_current parseTs cfg battery rt hne,
      applyReadings_current parseTs cfg battery rt' hne, hempty, hdays]
  · rw [applyReadings_history_of_le rt hne hfill,
      applyReadings_history_of_le rt' hne hfill]
  · exact hempty

/-- A server that starts with the given percentage, estimate, window and
baseline. -/
def startingAt (pct daysLeft : ℤ) (history : List ReadingRecord)
    (lstEmpty : String) : Runtime where
  current :=
    { id := ""
      name := ""
      lvl := 0
      pct
      bat := 0
      lstRead := ""
      lstEmpty
      daysLeft
      lvlToFull := 0
      «from» := "" }
  history
  lstEmpty

/-- Without a pump-out the starting baseline is kept. -/
theorem applyReadings_lstEmpty_kept {readings : List Stamped}
    (hno : ¬ PumpsOutWithin cfg readings) {rt : Runtime}
    (hfirst : ∀ r rest, readings = r :: rest → rt.detectsPumpOut cfg r.1 = false) :
    (rt.applyReadings parseTs cfg battery readings).lstEmpty = rt.lstEmpty := by
  induction readings generalizing rt with
  | nil => rfl
  | cons r rest ih =>
      have hkept : (rt.applyReading parseTs cfg battery r.1 r.2).lstEmpty =
          rt.lstEmpty := by
        rw [applyReading_lstEmpty, hfirst r rest rfl]
        rfl
      rw [applyReadings_cons, ← hkept]
      refine ih ?_ ?_
      · rintro ⟨pre, s, s', post, rfl, hpump⟩
        exact hno ⟨r :: pre, s, s', post, rfl, hpump⟩
      · rintro r' rest' rfl
        rw [← Bool.not_eq_true]
        exact fun hpump => hno ⟨[], r, r', rest', rfl, hpump⟩

/-- A start from which the first reading is no pump-out. -/
theorem exists_quiet_pct (hdrop : i64Min < cfg.pumpOutDropPct)
    (readings : List Stamped) :
    ∃ pct, ∀ r rest, readings = r :: rest →
      isPumpOut pct (cfg.calibration.pct r.1.levelCm) cfg.pumpOutDropPct = false := by
  cases readings with
  | nil => exact ⟨0, fun r rest h => by cases h⟩
  | cons r rest =>
      refine ⟨cfg.calibration.pct r.1.levelCm + i64Min, ?_⟩
      rintro r' rest' h
      cases h
      rw [isPumpOut, add_sub_cancel_left, decide_eq_false_iff_not, not_le]
      exact hdrop

theorem PumpsOutWithin.of_forgets (hdrop : i64Min < cfg.pumpOutDropPct)
    {readings : List Stamped} (h : ForgetsStart parseTs cfg battery readings) :
    PumpsOutWithin cfg readings := by
  by_contra hno
  obtain ⟨pct, hquiet⟩ := exists_quiet_pct hdrop readings
  have hkept : ∀ baseline : String,
      ((startingAt pct 0 [] baseline).applyReadings parseTs cfg battery
        readings).lstEmpty = baseline := fun baseline =>
    applyReadings_lstEmpty_kept hno hquiet
  have hsame : "known" = "lost" := by
    calc
      "known" = ((startingAt pct 0 [] "known").applyReadings parseTs cfg battery
          readings).lstEmpty := (hkept "known").symm
      _ = ((startingAt pct 0 [] "lost").applyReadings parseTs cfg battery
          readings).lstEmpty := congrArg Runtime.lstEmpty (h _ _)
      _ = "lost" := hkept "lost"
  exact absurd hsame (by decide)

theorem daysLeft_eq_none_of_malformed {r : ReadingRecord} (hr : parseTs r.ts = none)
    (rest : List ReadingRecord) (fullDist : ℚ) :
    daysLeft parseTs (r :: rest) fullDist = none := by
  rw [daysLeft]
  split
  · rfl
  · simp [hr]

/-- A window of malformed records supports a projection only once the readings
fill it. -/
theorem daysLeft_malformed_window {bad : String} (hbad : parseTs bad = none)
    {readings pre : List Stamped} (hno : ¬ ProjectsAlone parseTs cfg battery readings)
    (hpre : pre <+: readings) :
    daysLeft parseTs
      ((List.replicate cfg.historyMaxLen (⟨bad, 0, 0⟩ : ReadingRecord) ++
        pre.map (recordOf battery)).rtake cfg.historyMaxLen)
      cfg.calibration.fullDist = none := by
  by_cases hlen : cfg.historyMaxLen ≤ pre.length
  · rw [rtake_append_of_le_length (by simpa using hlen)]
    rw [← Option.not_isSome_iff_eq_none]
    exact fun hsome => hno ⟨pre, hpre, hlen, hsome⟩
  · rw [rtake_append_of_length_le (by simp; omega), rtake_replicate]
    obtain ⟨k, hk⟩ : ∃ k, min (cfg.historyMaxLen - (pre.map (recordOf battery)).length)
        cfg.historyMaxLen = k + 1 := ⟨_, (Nat.succ_pred (by simp; omega)).symm⟩
    rw [hk, List.replicate_succ, List.cons_append]
    exact daysLeft_eq_none_of_malformed hbad _ _

theorem ProjectsAlone.of_forgets {bad : String} (hbad : parseTs bad = none)
    {readings : List Stamped} (h : ForgetsStart parseTs cfg battery readings) :
    ProjectsAlone parseTs cfg battery readings := by
  by_contra hno
  let stale := List.replicate cfg.historyMaxLen (⟨bad, 0, 0⟩ : ReadingRecord)
  have hkept : ∀ days : ℤ,
      ((startingAt 0 days stale "").applyReadings parseTs cfg battery
        readings).current.daysLeft = days := by
    intro days
    apply applyReadings_daysLeft_kept
    intro pre hpre hne
    rw [applyReadings_history parseTs cfg battery _ hne]
    exact daysLeft_malformed_window hbad hno hpre
  have hsame : (0 : ℤ) = 1 := by
    calc
      0 = ((startingAt 0 0 stale "").applyReadings parseTs cfg battery
          readings).current.daysLeft := (hkept 0).symm
      _ = ((startingAt 0 1 stale "").applyReadings parseTs cfg battery
          readings).current.daysLeft := congrArg (fun s => s.current.daysLeft) (h _ _)
      _ = 1 := hkept 1
  exact absurd hsame (by decide)

end Forgetting

end Runtime

open Aquilo.Runtime in
/-- Whatever state it started from, the server ends in the same state exactly
after readings of which two in a row make a pump-out and a window of their own
supports a projection: only then is a lost or a wrong state file made good. -/
theorem forgets_start_iff (parseTs : String → Option ℤ) (cfg : Config)
    (battery : BatteryCurve) (readings : List Stamped) {bad : String}
    (hbad : parseTs bad = none) (hdrop : i64Min < cfg.pumpOutDropPct) :
    (∀ rt rt' : Runtime, rt.applyReadings parseTs cfg battery readings =
        rt'.applyReadings parseTs cfg battery readings) ↔
      PumpsOutWithin cfg readings ∧ ProjectsAlone parseTs cfg battery readings :=
  ⟨fun h => ⟨.of_forgets hdrop h, .of_forgets hbad h⟩,
    fun h => forgetsStart_of h.1 h.2⟩

namespace Sample

/-- Midnight on the first days of June, in seconds. -/
def midnights (ts : String) : Option ℤ :=
  if ts = "2026-06-08T00:00:00+02:00" then some 1780869600
  else if ts = "2026-06-09T00:00:00+02:00" then some 1780956000
  else if ts = "2026-06-10T00:00:00+02:00" then some 1781042400
  else none

/-- The tank is emptied and begins to fill again. -/
def refillingRun : List Runtime.Stamped :=
  emptiedRun ++ [(reading 160, "2026-06-10T00:00:00+02:00")]

def shortWindow : Config := { config with historyMaxLen := 2 }

end Sample

open Aquilo.Runtime Sample in
theorem refillingRun_forgets :
    ForgetsStart midnights shortWindow BatteryCurve.default refillingRun := by
  refine (forgets_start_iff midnights shortWindow BatteryCurve.default refillingRun
    (show midnights "" = none by decide) (by decide)).mpr ⟨?_, ?_⟩
  · exact ⟨[], _, _, _, rfl, by decide +kernel⟩
  · exact ⟨refillingRun, List.prefix_refl _, by decide, by decide +kernel⟩

end Aquilo
