/-
The days-left estimate after a pump-out.  The fit runs over the whole retained
window, so it is a projection since the last pump-out exactly when the window
holds nothing older.
-/
import Aquilo.RollingWindow
import Aquilo.Runtime

namespace Aquilo

open ExactFloat LeastSquares RollingWindow

namespace Runtime

section Run

variable (parseTs : String → Option ℤ) (cfg : Config) (battery : BatteryCurve)

/-- The record a stamped reading leaves. -/
def recordOf (r : Stamped) : ReadingRecord := record battery r.1 r.2

/-- No reading of the run is detected as a pump-out. -/
def NoPumpOut : Runtime → List Stamped → Prop
  | _, [] => True
  | rt, r :: rest =>
      rt.detectsPumpOut cfg r.1 = false ∧
        NoPumpOut (rt.applyReading parseTs cfg battery r.1 r.2) rest

/-- The last pump-out of the run `before ++ latest :: after` is at `latest`. -/
def LastPumpOutAt (rt : Runtime) (before : List Stamped) (latest : Stamped)
    (after : List Stamped) : Prop :=
  let prior := rt.applyReadings parseTs cfg battery before
  prior.detectsPumpOut cfg latest.1 = true ∧
    NoPumpOut parseTs cfg battery
      (prior.applyReading parseTs cfg battery latest.1 latest.2) after

/-- The published estimate is the projection of the records retained since the
last pump-out, whenever those support one. -/
def ProjectsSincePumpOut (rt : Runtime) (before : List Stamped)
    (latest : Stamped) (after : List Stamped) : Prop :=
  let final := rt.applyReadings parseTs cfg battery (before ++ latest :: after)
  ∀ d, daysLeft parseTs (final.history.rtake (after.length + 1))
      cfg.calibration.fullDist = some d →
    final.current.daysLeft = d

theorem applyReadings_history_eq_pushAll (rt : Runtime)
    (readings : List Stamped) :
    (rt.applyReadings parseTs cfg battery readings).history =
      pushAll cfg.historyMaxLen rt.history
        (readings.map (recordOf battery)) := by
  induction readings generalizing rt with
  | nil => rfl
  | cons r rest ih =>
      rw [applyReadings_cons, ih, applyReading_history, trimHistory_eq_rtake]
      rfl

/-- The history after a nonempty run is the tail of all records. -/
theorem applyReadings_history (rt : Runtime) {readings : List Stamped}
    (hne : readings ≠ []) :
    (rt.applyReadings parseTs cfg battery readings).history =
      (rt.history ++ readings.map (recordOf battery)).rtake
        cfg.historyMaxLen := by
  rw [applyReadings_history_eq_pushAll, pushAll_eq_rtake]
  simpa using hne

/-- After a nonempty run the estimate is the projection of the window, when
the window supports one. -/
theorem applyReadings_daysLeft_of_window (rt : Runtime)
    {readings : List Stamped} (hne : readings ≠ []) {d : ℤ}
    (hwindow : daysLeft parseTs
      (rt.applyReadings parseTs cfg battery readings).history
      cfg.calibration.fullDist = some d) :
    (rt.applyReadings parseTs cfg battery readings).current.daysLeft = d := by
  induction readings using List.reverseRecOn with
  | nil => contradiction
  | append_singleton pre r _ =>
      simp only [applyReadings_append, applyReadings_cons, applyReadings_nil,
        applyReading_history, applyReading_daysLeft] at hwindow ⊢
      rw [hwindow, Option.getD_some]

/-- While no window supports a projection, the starting estimate is kept. -/
theorem applyReadings_daysLeft_kept (rt : Runtime) (readings : List Stamped)
    (hnone : ∀ pre, pre <+: readings → pre ≠ [] →
      daysLeft parseTs (rt.applyReadings parseTs cfg battery pre).history
        cfg.calibration.fullDist = none) :
    (rt.applyReadings parseTs cfg battery readings).current.daysLeft =
      rt.current.daysLeft := by
  induction readings using List.reverseRecOn with
  | nil => rfl
  | append_singleton pre r ih =>
      have hlast := hnone (pre ++ [r]) (List.prefix_refl _) (by simp)
      have hpre := ih fun p hp hne =>
        hnone p (hp.trans (List.prefix_append pre [r])) hne
      simp only [applyReadings_append, applyReadings_cons, applyReadings_nil,
        applyReading_history, applyReading_daysLeft] at hlast ⊢
      rw [hlast, Option.getD_none, hpre]

/-- A window with nothing older than the last pump-out projects since it. -/
theorem projectsSincePumpOut_of_length_le (rt : Runtime)
    (before : List Stamped) (latest : Stamped) (after : List Stamped)
    (hlen : (rt.applyReadings parseTs cfg battery
      (before ++ latest :: after)).history.length ≤ after.length + 1) :
    ProjectsSincePumpOut parseTs cfg battery rt before latest after := by
  intro d hd
  rw [rtake_eq_self hlen] at hd
  exact applyReadings_daysLeft_of_window parseTs cfg battery rt (by simp) hd

end Run

end Runtime

namespace StraddlingWindow

open Aquilo.Runtime

/-- Three instants a day apart, as the timestamp parser reads them. -/
structure KnownInstants (parseTs : String → Option ℤ) : Prop where
  day0 : parseTs "2026-06-01T00:00:00+02:00" = some 1780264800
  day1 : parseTs "2026-06-02T00:00:00+02:00" = some 1780351200
  day2 : parseTs "2026-06-03T00:00:00+02:00" = some 1780437600

def config (maxLen : ℕ) : Config :=
  { Sample.config with
    historyMaxLen := maxLen
    calibration := ⟨0, 100⟩ }

def battery : BatteryCurve := BatteryCurve.default

/-- A full tank on the first day. -/
def full : Stamped := (Sample.reading 0, "2026-06-01T00:00:00+02:00")

/-- The tank emptied on the second day. -/
def emptied : Stamped := (Sample.reading 100, "2026-06-02T00:00:00+02:00")

/-- The tank half full again on the third day. -/
def half : Stamped := (Sample.reading 50, "2026-06-03T00:00:00+02:00")

/-- A server that has seen a full tank `h` times and estimates seven days. -/
def start (h : ℕ) : Runtime where
  current := { seedState (config 0) "" with pct := 100, daysLeft := 7 }
  history := List.replicate h (recordOf battery full)
  lstEmpty := ""

theorem pct_full (maxLen : ℕ) :
    (config maxLen).calibration.pct full.1.levelCm = 100 := by
  change Calibration.pct ⟨0, 100⟩ 0 = 100
  decide +kernel

theorem pct_emptied (maxLen : ℕ) :
    (config maxLen).calibration.pct emptied.1.levelCm = 0 := by
  change Calibration.pct ⟨0, 100⟩ 100 = 0
  decide +kernel

theorem pct_half (maxLen : ℕ) :
    (config maxLen).calibration.pct half.1.levelCm = 50 := by
  change Calibration.pct ⟨0, 100⟩ 50 = 50
  decide +kernel

variable {parseTs : String → Option ℤ}

theorem pct_after_full (maxLen h a : ℕ) :
    ((start h).applyReadings parseTs (config maxLen) battery
      (List.replicate a full)).current.pct = 100 := by
  cases a with
  | zero => rfl
  | succ a =>
      rw [List.replicate_succ', applyReadings_append, applyReadings_cons,
        applyReadings_nil, applyReading_pct, pct_full]

theorem noPumpOut_half {maxLen : ℕ} {rt : Runtime}
    (hpct : 0 ≤ rt.current.pct ∧ rt.current.pct ≤ 50) (b : ℕ) :
    NoPumpOut parseTs (config maxLen) battery rt (List.replicate b half) := by
  induction b generalizing rt with
  | zero => trivial
  | succ b ih =>
      rw [List.replicate_succ]
      constructor
      · have hwrap : wrap (rt.current.pct - 50) = rt.current.pct - 50 := by
          apply wrap_eq_self
          simp only [InI64, i64Min, i64Max]
          omega
        have hdrop : (config maxLen).pumpOutDropPct = 25 := rfl
        rw [detectsPumpOut, pct_half, isPumpOut, hwrap, hdrop,
          decide_eq_false_iff_not]
        omega
      · apply ih
        rw [applyReading_pct, pct_half]
        omega

theorem lastPumpOutAt (maxLen h a b : ℕ) :
    LastPumpOutAt parseTs (config maxLen) battery (start h)
      (List.replicate a full) emptied (List.replicate b half) := by
  constructor
  · rw [detectsPumpOut, pct_after_full, pct_emptied]
    change isPumpOut 100 0 25 = true
    decide
  · apply noPumpOut_half
    rw [applyReading_pct, pct_emptied]
    omega

theorem fitPoints_replicate (t0 : ℤ) {t : ℤ} {r : ReadingRecord}
    (ht : parseTs r.ts = some t) (n : ℕ) :
    fitPoints parseTs t0 (List.replicate n r) =
      some (List.replicate n (((t - t0 : ℤ) : ℚ) / 86400, r.lvl)) := by
  induction n with
  | zero => rfl
  | succ n ih => simp [List.replicate_succ, fitPoints, ht, ih]

/-- Full days before the emptying turn the falling trend into a rising one. -/
theorem sxy_straddling_nonneg (p j : ℕ) :
    0 ≤ sxy (List.replicate (p + 1) ((0, 0) : ℚ × ℚ) ++
      (1, 100) :: List.replicate j (2, 50)) := by
  have hne : List.replicate (p + 1) ((0, 0) : ℚ × ℚ) ++
      (1, 100) :: List.replicate j (2, 50) ≠ [] := by simp
  have h := length_mul_sxy hne
  simp only [List.map_append, List.map_replicate, List.map_cons,
    List.sum_append, List.sum_replicate, List.sum_cons, List.length_append,
    List.length_replicate, List.length_cons, nsmul_eq_mul] at h
  push_cast at h
  have hlen : (0 : ℚ) < p + 1 + (j + 1) := by positivity
  refine nonneg_of_mul_nonneg_right ?_ hlen
  rw [h]
  have hsum : (p + 1 + (j + 1) : ℚ) *
        ((p + 1) * (0 * 0) + (1 * 100 + j * (2 * 50))) -
      ((p + 1) * 0 + (1 + j * 2)) * ((p + 1) * 0 + (100 + j * 50)) =
      100 * p + 100 + 100 * p * j + 50 * j := by ring
  rw [hsum]
  positivity

theorem sxy_constant (n : ℕ) :
    sxy (List.replicate (n + 1) ((0, 0) : ℚ × ℚ)) = 0 := by
  simp [sxy, meanX, meanY]

/-- Since the emptying the level falls fifty centimetres a day. -/
theorem slope_since (b : ℕ) (hb : 0 < b) :
    sxx (((0, 100) : ℚ × ℚ) :: List.replicate b (1, 50)) ≠ 0 ∧
      -(sxy (((0, 100) : ℚ × ℚ) :: List.replicate b (1, 50)) /
        sxx (((0, 100) : ℚ × ℚ) :: List.replicate b (1, 50))) = 50 := by
  have hne : ((0, 100) : ℚ × ℚ) :: List.replicate b (1, 50) ≠ [] := by simp
  have hxx := length_mul_sxx hne
  have hxy := length_mul_sxy hne
  simp only [List.map_replicate, List.map_cons, List.sum_replicate,
    List.sum_cons, List.length_replicate, List.length_cons,
    nsmul_eq_mul] at hxx hxy
  push_cast at hxx hxy
  generalize sxx (((0, 100) : ℚ × ℚ) :: List.replicate b (1, 50)) = u at *
  generalize sxy (((0, 100) : ℚ × ℚ) :: List.replicate b (1, 50)) = v at *
  have hbpos : (0 : ℚ) < b := by exact_mod_cast hb
  have hu : (b + 1) * u = b := by linear_combination hxx
  have hv : (b + 1) * v = -50 * b := by linear_combination hxy
  have hune : u ≠ 0 := by
    rintro rfl
    linarith
  refine ⟨hune, ?_⟩
  have hratio : v = -50 * u := by
    have hne : (b + 1 : ℚ) ≠ 0 := by positivity
    apply mul_left_cancel₀ hne
    linear_combination hv + 50 * hu
  rw [hratio, mul_div_assoc, div_self hune]
  norm_num

theorem daysLeft_full (hts : KnownInstants parseTs) (maxLen n : ℕ) :
    daysLeft parseTs (List.replicate (n + 1) (recordOf battery full))
      (config maxLen).calibration.fullDist = none := by
  have hpoints := fitPoints_replicate 1780264800
    (show parseTs (recordOf battery full).ts = _ from hts.day0) (n + 1)
  rw [List.replicate_succ] at hpoints ⊢
  apply daysLeft_eq_none_of_rising hts.day0 hpoints
  have hzero : (((1780264800 - 1780264800 : ℤ) : ℚ) / 86400,
      (recordOf battery full).lvl) = (0, 0) := by
    rw [sub_self, Int.cast_zero, zero_div]
    rfl
  rw [hzero, sxy_constant]

theorem daysLeft_straddling (hts : KnownInstants parseTs) (maxLen p j : ℕ) :
    daysLeft parseTs (List.replicate (p + 1) (recordOf battery full) ++
        recordOf battery emptied ::
          List.replicate j (recordOf battery half))
      (config maxLen).calibration.fullDist = none := by
  have hfull := fitPoints_replicate 1780264800
    (show parseTs (recordOf battery full).ts = _ from hts.day0) (p + 1)
  have hemptied := fitPoints_replicate 1780264800
    (show parseTs (recordOf battery emptied).ts = _ from hts.day1) 1
  have hhalf := fitPoints_replicate 1780264800
    (show parseTs (recordOf battery half).ts = _ from hts.day2) j
  have hpoints := fitPoints_append hfull (fitPoints_append hemptied hhalf)
  have hshape : List.replicate (p + 1) (((1780264800 - 1780264800 : ℤ) : ℚ) /
        86400, (recordOf battery full).lvl) ++
      (List.replicate 1 (((1780351200 - 1780264800 : ℤ) : ℚ) / 86400,
        (recordOf battery emptied).lvl) ++
      List.replicate j (((1780437600 - 1780264800 : ℤ) : ℚ) / 86400,
        (recordOf battery half).lvl)) =
      List.replicate (p + 1) ((0, 0) : ℚ × ℚ) ++
        (1, 100) :: List.replicate j (2, 50) := by
    norm_num
    rfl
  rw [hshape] at hpoints
  rw [List.replicate_succ, List.cons_append] at hpoints ⊢
  exact daysLeft_eq_none_of_rising hts.day0 hpoints
    (sxy_straddling_nonneg p j)

theorem daysLeft_since (hts : KnownInstants parseTs) (maxLen : ℕ) {b : ℕ}
    (hb : 0 < b) :
    daysLeft parseTs (recordOf battery emptied ::
        List.replicate b (recordOf battery half))
      (config maxLen).calibration.fullDist = some 1 := by
  have hemptied := fitPoints_replicate 1780351200
    (show parseTs (recordOf battery emptied).ts = _ from hts.day1) 1
  have hhalf := fitPoints_replicate 1780351200
    (show parseTs (recordOf battery half).ts = _ from hts.day2) b
  have hpoints := fitPoints_append hemptied hhalf
  have hshape : List.replicate 1 (((1780351200 - 1780351200 : ℤ) : ℚ) / 86400,
        (recordOf battery emptied).lvl) ++
      List.replicate b (((1780437600 - 1780351200 : ℤ) : ℚ) / 86400,
        (recordOf battery half).lvl) =
      (0, 100) :: List.replicate b (1, 50) := by
    norm_num
    exact ⟨rfl, Or.inr rfl⟩
  rw [hshape] at hpoints
  obtain ⟨hsxx, hslope⟩ := slope_since b hb
  have hlast : (recordOf battery emptied ::
      List.replicate b (recordOf battery half)).getLast? =
      some (recordOf battery half) := by
    cases b with
    | zero => omega
    | succ b =>
        rw [List.replicate_succ', ← List.cons_append, List.getLast?_concat]
  have hne : List.replicate b (recordOf battery half) ≠ [] := by
    simp [hb.ne']
  rw [daysLeft_eq_some_of_falling hne hts.day1 hpoints hlast hsxx
    (by rw [hslope]; norm_num), hslope]
  change some (saturate (max (roundHalfAway ((50 - 0) / 50)) 0)) = some 1
  decide +kernel

/-- The history of a run of full tanks. -/
theorem history_full (maxLen h a : ℕ) :
    ((start h).applyReadings parseTs (config maxLen) battery
      (List.replicate (a + 1) full)).history =
      List.replicate (min maxLen (h + (a + 1))) (recordOf battery full) := by
  rw [applyReadings_history _ _ _ _ (by simp)]
  change (List.replicate h (recordOf battery full) ++ _).rtake maxLen = _
  rw [List.map_replicate, List.replicate_append_replicate, rtake_replicate]

/-- The history once the tank was emptied, while full days are retained. -/
theorem history_straddling {maxLen h a j : ℕ} (hcap : j + 1 < maxLen)
    (hold : 0 < h + a) :
    ((start h).applyReadings parseTs (config maxLen) battery
      (List.replicate a full ++ emptied :: List.replicate j half)).history =
      List.replicate (min (maxLen - (j + 2)) (h + a - 1) + 1)
          (recordOf battery full) ++
        recordOf battery emptied ::
          List.replicate j (recordOf battery half) := by
  rw [applyReadings_history _ _ _ _ (by simp)]
  change (List.replicate h (recordOf battery full) ++ _).rtake maxLen = _
  rw [List.map_append, List.map_replicate, List.map_cons, List.map_replicate,
    ← List.append_assoc, List.replicate_append_replicate,
    rtake_append_of_length_le (by simp; omega), rtake_replicate]
  congr 2
  simp only [List.length_cons, List.length_replicate]
  omega

/-- Every window of the family is flat or rising, so the starting estimate is
published throughout. -/
theorem daysLeft_kept (hts : KnownInstants parseTs) {maxLen h a b : ℕ}
    (hcap : b + 1 < maxLen) (hold : 0 < h + a) :
    ((start h).applyReadings parseTs (config maxLen) battery
      (List.replicate a full ++
        emptied :: List.replicate b half)).current.daysLeft = 7 := by
  have hbefore : ((start h).applyReadings parseTs (config maxLen) battery
      (List.replicate a full)).current.daysLeft = 7 := by
    apply applyReadings_daysLeft_kept
    intro pre hpre hne
    obtain ⟨-, heq⟩ := List.prefix_replicate_iff.mp hpre
    obtain ⟨n, hn⟩ := Nat.exists_eq_succ_of_ne_zero
      (List.length_pos_iff.mpr hne).ne'
    rw [heq, hn, history_full]
    obtain ⟨m, hm⟩ : ∃ m, min maxLen (h + (n + 1)) = m + 1 :=
      ⟨min maxLen (h + (n + 1)) - 1, by omega⟩
    rw [hm]
    exact daysLeft_full hts maxLen m
  rw [applyReadings_append]
  rw [← hbefore]
  apply applyReadings_daysLeft_kept
  intro pre hpre hne
  obtain ⟨r, tail, rfl⟩ := List.exists_cons_of_ne_nil hne
  obtain ⟨rfl, htail⟩ := List.cons_prefix_cons.mp hpre
  obtain ⟨hlen, heq⟩ := List.prefix_replicate_iff.mp htail
  rw [heq, ← applyReadings_append,
    history_straddling (by omega) hold]
  exact daysLeft_straddling hts maxLen _ _

/-- A straddling window of any shape can publish an estimate other than the
projection since the pump-out. -/
theorem not_projectsSincePumpOut (hts : KnownInstants parseTs)
    {maxLen h a b : ℕ} (hb : 0 < b) (hcap : b + 1 < maxLen)
    (hold : 0 < h + a) :
    ¬ ProjectsSincePumpOut parseTs (config maxLen) battery (start h)
      (List.replicate a full) emptied (List.replicate b half) := by
  intro hprojects
  have hsince : daysLeft parseTs
      (((start h).applyReadings parseTs (config maxLen) battery
        (List.replicate a full ++ emptied :: List.replicate b half)).history.rtake
          ((List.replicate b half).length + 1))
      (config maxLen).calibration.fullDist = some 1 := by
    have hlen : (List.replicate b half).length + 1 =
        (recordOf battery emptied ::
          List.replicate b (recordOf battery half)).length := by simp
    rw [history_straddling hcap hold, hlen, rtake_append_length]
    exact daysLeft_since hts maxLen hb
  have hone := hprojects 1 hsince
  rw [daysLeft_kept hts hcap hold] at hone
  omega

/-- A table of the three instants. -/
def instants (ts : String) : Option ℤ :=
  [("2026-06-01T00:00:00+02:00", 1780264800),
    ("2026-06-02T00:00:00+02:00", 1780351200),
    ("2026-06-03T00:00:00+02:00", 1780437600)].lookup ts

theorem knownInstants : KnownInstants instants :=
  ⟨by decide, by decide, by decide⟩

end StraddlingWindow

open Aquilo.Runtime StraddlingWindow in
/-- The published estimate projects since the last pump-out in every run of a
given shape exactly when nothing older than that pump-out is still retained:
the readings since then fill the window, or there was nothing before them. -/
theorem projectsSincePumpOut_iff_nothing_older
    {parseTs : String → Option ℤ} (hts : KnownInstants parseTs)
    (maxLen h a b : ℕ) (hb : 0 < b) :
    (∀ (cfg : Config) (battery : BatteryCurve) (rt : Runtime)
        (before : List Stamped) (latest : Stamped) (after : List Stamped),
        cfg.historyMaxLen = maxLen → rt.history.length = h →
        before.length = a → after.length = b →
        LastPumpOutAt parseTs cfg battery rt before latest after →
        ProjectsSincePumpOut parseTs cfg battery rt before latest after) ↔
      maxLen ≤ b + 1 ∨ h + a = 0 := by
  constructor
  · intro hall
    by_contra hstraddles
    rw [not_or] at hstraddles
    exact not_projectsSincePumpOut hts hb (by omega) (by omega)
      (hall (config maxLen) battery (start h) (List.replicate a full) emptied
        (List.replicate b half) rfl (by simp [start]) (by simp) (by simp)
        (lastPumpOutAt maxLen h a b))
  · intro hshape cfg battery rt before latest after hcap hstart hbefore
      hafter _
    apply projectsSincePumpOut_of_length_le
    rw [applyReadings_history _ _ _ _ (by simp), length_rtake]
    simp only [List.length_append, List.length_map, List.length_cons]
    omega

open Aquilo.Runtime StraddlingWindow in
/-- The default window, one reading on each side of the pump-out. -/
theorem projectsSincePumpOut_fails_at_default_window :
    ¬ ∀ (cfg : Config) (battery : BatteryCurve) (rt : Runtime)
        (before : List Stamped) (latest : Stamped) (after : List Stamped),
        cfg.historyMaxLen = 500 → rt.history.length = 0 →
        before.length = 1 → after.length = 1 →
        LastPumpOutAt instants cfg battery rt before latest after →
        ProjectsSincePumpOut instants cfg battery rt before latest after := by
  rw [projectsSincePumpOut_iff_nothing_older knownInstants 500 0 1 1 (by decide)]
  decide

open Aquilo.Runtime StraddlingWindow in
/-- A full tank, then an emptied one, then one half full: the estimate from
before the pump-out is still published. -/
theorem straddling_run_keeps_old_estimate :
    LastPumpOutAt instants (config 500) battery (start 0) [full] emptied
        [half] ∧
      ¬ ProjectsSincePumpOut instants (config 500) battery (start 0) [full]
        emptied [half] :=
  ⟨lastPumpOutAt 500 0 1 1,
    not_projectsSincePumpOut (a := 1) (b := 1) knownInstants (by decide)
      (by decide) (by decide)⟩

end Aquilo
