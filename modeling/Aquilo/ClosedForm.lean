/-
The server state after a run of readings, in closed form: what the window
holds, which reading set the baseline, and where the estimate comes from.
-/
import Aquilo.PumpOutWindow

namespace Aquilo

open ExactFloat RollingWindow

namespace Runtime

section ClosedForm

variable (parseTs : String → Option ℤ) (cfg : Config) (battery : BatteryCurve)

/-- The percentage in force before each reading of a run, and after the last. -/
def pcts (rt : Runtime) (readings : List Stamped) : List ℤ :=
  rt.current.pct :: readings.map fun r => cfg.calibration.pct r.1.levelCm

/-- The readings at least the threshold below the percentage before them. -/
def pumpOuts (rt : Runtime) (readings : List Stamped) : List Stamped :=
  (((pcts cfg rt readings).zip readings).filter fun (prev, r) =>
    decide (cfg.pumpOutDropPct ≤
      prev - cfg.calibration.pct r.1.levelCm)).map Prod.snd

/-- The starting history followed by one record for each reading. -/
def allRecords (rt : Runtime) (readings : List Stamped) : List ReadingRecord :=
  rt.history ++ readings.map (recordOf battery)

/-- The window after each reading, oldest first. -/
def windows (rt : Runtime) (readings : List Stamped) :
    List (List ReadingRecord) :=
  readings.inits.tail.map fun pre =>
    (allRecords battery rt pre).rtake cfg.historyMaxLen

/-- The projections the windows support, oldest first. -/
def estimates (rt : Runtime) (readings : List Stamped) : List ℤ :=
  (windows cfg battery rt readings).filterMap fun window =>
    daysLeft parseTs window cfg.calibration.fullDist

/-- Within 0–100 the detector's 64-bit subtraction is an ordinary one. -/
theorem detectsPumpOut_iff {rt : Runtime} (hlo : 0 ≤ rt.current.pct)
    (hhi : rt.current.pct ≤ 100) (reading : Reading) :
    rt.detectsPumpOut cfg reading = true ↔
      cfg.pumpOutDropPct ≤
        rt.current.pct - cfg.calibration.pct reading.levelCm := by
  apply isPumpOut_iff
  have hnew := cfg.calibration.zero_le_pct reading.levelCm
  have hnew' := cfg.calibration.pct_le_hundred reading.levelCm
  simp only [InI64, i64Min, i64Max]
  omega

theorem pumpOuts_cons (rt : Runtime) (r : Stamped) (rest : List Stamped) :
    pumpOuts cfg rt (r :: rest) =
      (if cfg.pumpOutDropPct ≤
          rt.current.pct - cfg.calibration.pct r.1.levelCm then [r] else []) ++
        pumpOuts cfg (rt.applyReading parseTs cfg battery r.1 r.2) rest := by
  simp only [pumpOuts, pcts, List.map_cons, List.zip_cons_cons,
    List.filter_cons, applyReading_pct, decide_eq_true_eq]
  split <;> rfl

/-- The baseline is the time of the latest pump-out. -/
theorem applyReadings_lstEmpty {rt : Runtime} (hlo : 0 ≤ rt.current.pct)
    (hhi : rt.current.pct ≤ 100) (readings : List Stamped) :
    (rt.applyReadings parseTs cfg battery readings).lstEmpty =
      ((pumpOuts cfg rt readings).getLast?.map Prod.snd).getD rt.lstEmpty := by
  induction readings generalizing rt with
  | nil => rfl
  | cons r rest ih =>
      have hnext := @ih (rt.applyReading parseTs cfg battery r.1 r.2)
        (cfg.calibration.zero_le_pct _) (cfg.calibration.pct_le_hundred _)
      rw [applyReadings_cons, hnext, pumpOuts_cons parseTs cfg battery,
        List.getLast?_append, applyReading_lstEmpty]
      cases (pumpOuts cfg _ rest).getLast? with
      | some latest => rfl
      | none =>
          by_cases hdrop : cfg.pumpOutDropPct ≤
              rt.current.pct - cfg.calibration.pct r.1.levelCm
          · rw [if_pos hdrop, if_pos ((detectsPumpOut_iff cfg hlo hhi _).mpr hdrop)]
            rfl
          · rw [if_neg hdrop,
              if_neg ((detectsPumpOut_iff cfg hlo hhi _).not.mpr hdrop)]
            rfl

theorem estimates_concat (rt : Runtime) (pre : List Stamped) (r : Stamped) :
    estimates parseTs cfg battery rt (pre ++ [r]) =
      estimates parseTs cfg battery rt pre ++
        (daysLeft parseTs
          ((allRecords battery rt (pre ++ [r])).rtake cfg.historyMaxLen)
          cfg.calibration.fullDist).toList := by
  have hne : pre.inits ≠ [] := by
    cases pre <;> simp
  rw [estimates, windows, List.inits_append, List.tail_append_of_ne_nil hne,
    List.map_append, List.filterMap_append, estimates, windows]
  congr 1

/-- The estimate is the latest projection any window supported. -/
theorem applyReadings_daysLeft (rt : Runtime) (readings : List Stamped) :
    (rt.applyReadings parseTs cfg battery readings).current.daysLeft =
      (estimates parseTs cfg battery rt readings).getLast?.getD
        rt.current.daysLeft := by
  induction readings using List.reverseRecOn with
  | nil => rfl
  | append_singleton pre r ih =>
      have hne : pre ++ [r] ≠ [] := by simp
      have hwindow := applyReadings_history parseTs cfg battery rt hne
      simp only [applyReadings_append, applyReadings_cons, applyReadings_nil,
        applyReading_history, applyReading_daysLeft] at hwindow ⊢
      rw [hwindow, ← allRecords, estimates_concat, List.getLast?_append, ih]
      cases daysLeft parseTs
        ((allRecords battery rt (pre ++ [r])).rtake cfg.historyMaxLen)
        cfg.calibration.fullDist <;> rfl

/-- The current state is the one computed from the last reading. -/
theorem applyReadings_current (rt : Runtime) {readings : List Stamped}
    (hne : readings ≠ []) :
    let final := rt.applyReadings parseTs cfg battery readings
    let last := readings.getLast hne
    final.current = SensorState.compute last.1 cfg.calibration battery
      (statics cfg final.lstEmpty final.current.daysLeft) last.2 := by
  intro final last
  rcases List.eq_nil_or_concat' readings with rfl | ⟨pre, r, rfl⟩
  · contradiction
  · simp only [final, last, applyReadings_append, applyReadings_cons,
      applyReadings_nil, List.getLast_append_singleton]
    rfl

end ClosedForm

end Runtime

open Aquilo.Runtime in
/-- The state after any run: the window is the last records of all, the
baseline the time of the latest pump-out whatever was trimmed, and the current
state that of the last reading with the latest projection. -/
theorem applyReadings_closed_form (parseTs : String → Option ℤ) (cfg : Config)
    (battery : BatteryCurve) (rt : Runtime) (readings : List Stamped)
    (hne : readings ≠ []) (hlo : 0 ≤ rt.current.pct)
    (hhi : rt.current.pct ≤ 100) :
    let final := rt.applyReadings parseTs cfg battery readings
    let total := allRecords battery rt readings
    let last := readings.getLast hne
    final.history =
        total.drop (total.length - min cfg.historyMaxLen total.length) ∧
      final.lstEmpty =
        ((pumpOuts cfg rt readings).getLast?.map Prod.snd).getD rt.lstEmpty ∧
      final.current =
        { id := cfg.sensorId
          name := cfg.sensorName
          lvl := last.1.levelCm
          pct := cfg.calibration.pct last.1.levelCm
          bat := battery.percent last.1.batteryMv
          lstRead := last.2
          lstEmpty := final.lstEmpty
          daysLeft := (estimates parseTs cfg battery rt readings).getLast?.getD
            rt.current.daysLeft
          lvlToFull := cfg.calibration.lvlToFull last.1.levelCm
          «from» := cfg.state.from } := by
  intro final total last
  refine ⟨?_, applyReadings_lstEmpty parseTs cfg battery hlo hhi readings, ?_⟩
  · have hwindow := applyReadings_history parseTs cfg battery rt hne
    rw [← allRecords, List.rtake] at hwindow
    have hcut : total.length - cfg.historyMaxLen =
        total.length - min cfg.historyMaxLen total.length := by omega
    rw [← hcut]
    exact hwindow
  · rw [← applyReadings_daysLeft]
    exact applyReadings_current parseTs cfg battery rt hne

namespace Sample

/-- A nearly full tank, then a nearly empty one. -/
def emptiedRun : List Runtime.Stamped :=
  [ (reading 50, "2026-06-08T00:00:00+02:00"),
    (reading 170, "2026-06-09T00:00:00+02:00") ]

end Sample

theorem emptiedRun_resets_lstEmpty :
    let seeded := seedRuntime Sample.config "2026-06-07T00:00:00+02:00"
    let final := seeded.applyReadings Sample.codec.parseTs Sample.config
      BatteryCurve.default Sample.emptiedRun
    final.lstEmpty = "2026-06-09T00:00:00+02:00" ∧ final.current.pct = 6 ∧
      final.current.lvlToFull = 130 ∧ final.history.length = 2 := by
  intro seeded final
  obtain ⟨hhistory, hempty, hcurrent⟩ := applyReadings_closed_form
    Sample.codec.parseTs Sample.config BatteryCurve.default seeded
    Sample.emptiedRun (by decide) (by decide) (by decide)
  refine ⟨hempty.trans ?_, ?_, ?_, ?_⟩
  · decide +kernel
  · rw [show final.current.pct = _ from congrArg SensorState.pct hcurrent]
    decide +kernel
  · rw [show final.current.lvlToFull = _ from
      congrArg SensorState.lvlToFull hcurrent]
    decide +kernel
  · rw [show final.history = _ from hhistory]
    decide +kernel

end Aquilo
