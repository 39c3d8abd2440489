/-
The evolving server state: how it is loaded, seeded, persisted, and what one
reading does to it.
-/
import Aquilo.Config
import Aquilo.State

namespace Aquilo

/-- The server state; `lstEmpty` is the baseline a pump-out advances. -/
structure Runtime where
  current : SensorState
  history : List ReadingRecord
  lstEmpty : String
deriving DecidableEq, Repr

/-- Identity and origin carried into every computed reading. -/
def statics (cfg : Config) (lstEmpty : String) (daysLeft : ℤ) :
    StaticFields where
  sensorId := cfg.sensorId
  name := cfg.sensorName
  lstEmpty := lstEmpty
  daysLeft := daysLeft
  «from» := cfg.state.from

/-- The last-known state to serve before the first live reading. -/
def seedState (cfg : Config) (lstRead : String) : SensorState :=
  let s := cfg.state
  { id := cfg.sensorId
    name := cfg.sensorName
    lvl := s.lvl
    pct := s.pct
    bat := s.bat
    lstRead
    lstEmpty := s.lstEmpty
    daysLeft := s.daysLeft
    lvlToFull := s.lvlToFull
    «from» := s.from }

def seedRuntime (cfg : Config) (now : String) : Runtime where
  current := seedState cfg now
  history := []
  lstEmpty := cfg.state.lstEmpty

/-- The initial runtime from the store, falling back to the config seed. -/
def loadRuntime (cfg : Config)
    (load : Except LoadError (Option PersistedState)) (now : String) :
    Runtime :=
  match load with
  | .ok (some p) =>
      { current := p.lastState.getD (seedState cfg now)
        history := p.history
        lstEmpty := if p.lstEmpty = "" then cfg.state.lstEmpty else p.lstEmpty }
  | .ok none => seedRuntime cfg now
  | .error _ => seedRuntime cfg now

/-- The snapshot `persist` hands to the store. -/
def snapshot (cfg : Config) (rt : Runtime) : PersistedState where
  history := rt.history
  lstEmpty := rt.lstEmpty
  lastState := some rt.current
  calibration := cfg.calibration

/-- Drop the oldest records past the cap. -/
def trimHistory (maxLen : ℕ) (history : List ReadingRecord) :
    List ReadingRecord :=
  if maxLen < history.length then history.drop (history.length - maxLen)
  else history

namespace Runtime

/-- Whether a reading counts as a pump-out against the current state. -/
def detectsPumpOut (cfg : Config) (reading : Reading) (rt : Runtime) : Bool :=
  isPumpOut rt.current.pct (cfg.calibration.pct reading.levelCm)
    cfg.pumpOutDropPct

/-- The record a reading leaves in the history. -/
def record (battery : BatteryCurve) (reading : Reading) (now : String) :
    ReadingRecord where
  ts := now
  lvl := reading.levelCm
  bat := battery.percent reading.batteryMv

/-- The transition for one reading: detect a pump-out, append to the history,
reproject the days left, recompute the state. -/
def applyReading (parseTs : String → Option ℤ) (cfg : Config)
    (battery : BatteryCurve) (reading : Reading) (now : String)
    (rt : Runtime) : Runtime :=
  let lstEmpty := if detectsPumpOut cfg reading rt then now else rt.lstEmpty
  let history :=
    trimHistory cfg.historyMaxLen (rt.history ++ [record battery reading now])
  -- A window that supports no projection keeps the prior estimate.
  let daysLeft :=
    (daysLeft parseTs history cfg.calibration.fullDist).getD
      rt.current.daysLeft
  { current := SensorState.compute reading cfg.calibration battery
      (statics cfg lstEmpty daysLeft) now
    history
    lstEmpty }

/-- A reading together with the time it was received. -/
abbrev Stamped := Reading × String

/-- Readings folded in arrival order. -/
def applyReadings (parseTs : String → Option ℤ) (cfg : Config)
    (battery : BatteryCurve) (rt : Runtime) (readings : List Stamped) :
    Runtime :=
  readings.foldl
    (fun rt r => rt.applyReading parseTs cfg battery r.1 r.2) rt

section Fields

variable (parseTs : String → Option ℤ) (cfg : Config) (battery : BatteryCurve)
variable (reading : Reading) (now : String) (rt : Runtime)

@[simp] theorem applyReading_history :
    (rt.applyReading parseTs cfg battery reading now).history =
      trimHistory cfg.historyMaxLen
        (rt.history ++ [record battery reading now]) := rfl

@[simp] theorem applyReading_lstEmpty :
    (rt.applyReading parseTs cfg battery reading now).lstEmpty =
      if rt.detectsPumpOut cfg reading then now else rt.lstEmpty := rfl

@[simp] theorem applyReading_pct :
    (rt.applyReading parseTs cfg battery reading now).current.pct =
      cfg.calibration.pct reading.levelCm := rfl

@[simp] theorem applyReading_daysLeft :
    (rt.applyReading parseTs cfg battery reading now).current.daysLeft =
      (Aquilo.daysLeft parseTs
        (trimHistory cfg.historyMaxLen
          (rt.history ++ [record battery reading now]))
        cfg.calibration.fullDist).getD rt.current.daysLeft := rfl

@[simp] theorem applyReadings_nil :
    rt.applyReadings parseTs cfg battery [] = rt := rfl

@[simp] theorem applyReadings_cons (r : Stamped) (rest : List Stamped) :
    rt.applyReadings parseTs cfg battery (r :: rest) =
      (rt.applyReading parseTs cfg battery r.1 r.2).applyReadings parseTs cfg
        battery rest := rfl

theorem applyReadings_append (xs ys : List Stamped) :
    rt.applyReadings parseTs cfg battery (xs ++ ys) =
      (rt.applyReadings parseTs cfg battery xs).applyReadings parseTs cfg
        battery ys := List.foldl_append

end Fields

end Runtime

/-- Trimming keeps the last records up to the cap. -/
theorem trimHistory_eq_rtake (maxLen : ℕ) (history : List ReadingRecord) :
    trimHistory maxLen history = history.rtake maxLen := by
  rw [trimHistory, List.rtake]
  split
  · rfl
  · rw [Nat.sub_eq_zero_of_le (by omega), List.drop_zero]

end Aquilo
