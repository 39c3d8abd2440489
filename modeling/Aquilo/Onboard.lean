/-
What the onboarding modes write: the values of the generated configuration and
the initial state file, and when they are written.
-/
import Aquilo.Facts
import Aquilo.State

namespace Aquilo

structure OnboardOptions where
  bindAddr : String
  listenPort : ℕ
  outConfig : String
  dataDir : String
deriving DecidableEq, Repr

/-- The seed values a sensor state carries. -/
def SensorState.seed (s : SensorState) : Seed where
  lvl := s.lvl
  pct := s.pct
  bat := s.bat
  daysLeft := s.daysLeft
  lvlToFull := s.lvlToFull
  lstEmpty := s.lstEmpty
  «from» := s.from

/-- The recovered values that are spelled out in the generated configuration. -/
structure GeneratedConfig where
  receiverId : String
  sensorId : String
  mqttUser : String
  mqttPass : String
  firmwareVersion : String
  sensorName : String
  radarSkip : ℤ
  radarRepeat : ℤ
  dataDir : String
  calibration : Calibration
  seed : Seed
deriving DecidableEq, Repr

/-- The values of the configuration, or the message that names what is
missing. -/
def generatedConfig (facts : Facts) (opts : OnboardOptions) :
    Except String GeneratedConfig :=
  match facts.receiverId, facts.mqttUser, facts.mqttPass, facts.firmware,
    facts.sensorId, facts.seed with
  | some rid, some user, some pass, some fw, some sid, some seed =>
      .ok {
        receiverId := rid
        sensorId := sid
        mqttUser := user
        mqttPass := pass
        firmwareVersion := fw
        sensorName := facts.sensorName.getD sid
        radarSkip := facts.radarSkip.getD 9
        radarRepeat := facts.radarRepeat.getD 9
        dataDir := opts.dataDir
        calibration := Calibration.default
        seed }
  | _, _, _, _, _, _ =>
      .error ("cannot write config; still missing: " ++
        ", ".intercalate facts.missing)

/-- The state file that goes with a configuration. -/
def initialState (g : GeneratedConfig) (now : String) : PersistedState where
  history := []
  lstEmpty := g.seed.lstEmpty
  lastState := some
    { id := g.sensorId
      name := g.sensorName
      lvl := g.seed.lvl
      pct := g.seed.pct
      bat := g.seed.bat
      lstRead := now
      lstEmpty := g.seed.lstEmpty
      daysLeft := g.seed.daysLeft
      lvlToFull := g.seed.lvlToFull
      «from» := g.seed.from }
  calibration := Calibration.default

theorem generatedConfig_ok_iff {facts : Facts} (opts : OnboardOptions) :
    (∃ g, generatedConfig facts opts = .ok g) ↔ facts.isComplete = true := by
  simp only [generatedConfig, Facts.isComplete]
  cases facts.receiverId <;> cases facts.mqttUser <;> cases facts.mqttPass <;>
    cases facts.firmware <;> cases facts.sensorId <;> cases facts.seed <;> simp

/-- Each value of a generated configuration is a collected fact or its
default. -/
theorem generatedConfig_eq_ok {facts : Facts} {opts : OnboardOptions}
    {g : GeneratedConfig} (h : generatedConfig facts opts = .ok g) :
    facts.receiverId = some g.receiverId ∧ facts.mqttUser = some g.mqttUser ∧
      facts.mqttPass = some g.mqttPass ∧
      facts.firmware = some g.firmwareVersion ∧
      facts.sensorId = some g.sensorId ∧ facts.seed = some g.seed ∧
      g.sensorName = facts.sensorName.getD g.sensorId ∧
      g.radarSkip = facts.radarSkip.getD 9 ∧
      g.radarRepeat = facts.radarRepeat.getD 9 ∧ g.dataDir = opts.dataDir ∧
      g.calibration = Calibration.default := by
  simp only [generatedConfig] at h
  split at h
  · rename_i hrid huser hpass hfw hsid hseed
    cases h
    exact ⟨hrid, huser, hpass, hfw, hsid, hseed, rfl, rfl, rfl, rfl, rfl⟩
  · cases h

end Aquilo
