/-
Device configuration with its defaults, and the topics templated from the
receiver id.
-/
import Aquilo.Calibration

namespace Aquilo

/-- How to reach an external broker as a client. -/
structure BrokerSettings where
  host : String
  port : ℕ
  username : String
  password : String
deriving DecidableEq, Repr

/-- Seed values for the retained state published before the first reading. -/
structure StateSeed where
  lvl : ℚ
  pct : ℤ
  bat : ℤ
  daysLeft : ℤ
  lvlToFull : ℤ
  lstEmpty : String
  «from» : String
deriving DecidableEq, Repr

structure Config where
  receiverId : String
  sensorId : String
  mqttUser : String
  mqttPass : String
  firmwareVersion : String
  sensorName : String
  radarSkip : ℤ
  radarRepeat : ℤ
  bindAddr : String
  listenPort : ℕ
  pingIntervalSecs : ℕ
  dataDir : String
  historyMaxLen : ℕ
  pumpOutDropPct : ℤ
  calibration : Calibration
  broker : Option BrokerSettings
  state : StateSeed
deriving DecidableEq, Repr

namespace Defaults

def radarSkip : ℤ := 9
def radarRepeat : ℤ := 9
def bindAddr : String := "0.0.0.0"
def listenPort : ℕ := 1883
def pingIntervalSecs : ℕ := 1200
def dataDir : String := "/data"
def historyMaxLen : ℕ := 500
def pumpOutDropPct : ℤ := 25
def «from» : String := "node-4"
def seedLvl : ℚ := 751 / 5
def seedPct : ℤ := 20
def seedBat : ℤ := 83
def seedLvlToFull : ℤ := 110

end Defaults

protected def StateSeed.default : StateSeed where
  lvl := Defaults.seedLvl
  pct := Defaults.seedPct
  bat := Defaults.seedBat
  daysLeft := 0
  lvlToFull := Defaults.seedLvlToFull
  lstEmpty := ""
  «from» := Defaults.from

/-- Topic strings, all templated from the receiver id. -/
structure Topics where
  version : String
  state : String
  radarParams : String
  read : String
  log : String
  connection : String
  ping : String
deriving DecidableEq, Repr

def Topics.new (rid : String) : Topics where
  version := "/version/czujnik_szamba/" ++ rid
  state := "/users/" ++ rid ++ "/state"
  radarParams := "/users/" ++ rid ++ "/receivers/" ++ rid ++ "/radarParams"
  read := "/users/" ++ rid ++ "/sensors/" ++ rid ++ "/read"
  log := "/users/" ++ rid ++ "/sensors/" ++ rid ++ "/log"
  connection := "/users/" ++ rid ++ "/sensors/" ++ rid ++ "/connection"
  ping := "/ping"

namespace Topics

@[simp] theorem new_version (rid : String) :
    (Topics.new rid).version = "/version/czujnik_szamba/" ++ rid := rfl

@[simp] theorem new_state (rid : String) :
    (Topics.new rid).state = "/users/" ++ rid ++ "/state" := rfl

@[simp] theorem new_radarParams (rid : String) :
    (Topics.new rid).radarParams =
      "/users/" ++ rid ++ "/receivers/" ++ rid ++ "/radarParams" := rfl

@[simp] theorem new_read (rid : String) :
    (Topics.new rid).read =
      "/users/" ++ rid ++ "/sensors/" ++ rid ++ "/read" := rfl

@[simp] theorem new_log (rid : String) :
    (Topics.new rid).log =
      "/users/" ++ rid ++ "/sensors/" ++ rid ++ "/log" := rfl

/-- The version topic lives outside `/users`, so nothing else is published on
it. -/
theorem version_ne_state (rid : String) :
    (Topics.new rid).version ≠ (Topics.new rid).state := by
  rw [new_version, new_state]
  apply ne_of_apply_ne String.toList
  simp only [String.toList_append]
  simp

theorem version_ne_radarParams (rid : String) :
    (Topics.new rid).version ≠ (Topics.new rid).radarParams := by
  rw [new_version, new_radarParams]
  apply ne_of_apply_ne String.toList
  simp only [String.toList_append]
  simp

@[simp] theorem new_ping (rid : String) : (Topics.new rid).ping = "/ping" := rfl

theorem version_ne_ping (rid : String) :
    (Topics.new rid).version ≠ (Topics.new rid).ping := by
  rw [new_version, new_ping]
  apply ne_of_apply_ne String.toList
  simp only [String.toList_append]
  simp

theorem state_ne_radarParams (rid : String) :
    (Topics.new rid).state ≠ (Topics.new rid).radarParams := by
  rw [new_state, new_radarParams]
  apply ne_of_apply_ne String.toList
  simp only [String.toList_append, List.append_assoc]
  simp

theorem state_ne_ping (rid : String) :
    (Topics.new rid).state ≠ (Topics.new rid).ping := by
  rw [new_state, new_ping]
  apply ne_of_apply_ne String.toList
  simp only [String.toList_append]
  simp

theorem log_ne_read (rid : String) :
    (Topics.new rid).log ≠ (Topics.new rid).read := by
  rw [new_log, new_read]
  apply ne_of_apply_ne String.toList
  simp only [String.toList_append, List.append_assoc]
  simp

end Topics

namespace Sample

/-- The configuration the source's own tests run with. -/
def config : Config where
  receiverId := "ae83fc"
  sensorId := "ae5058"
  mqttUser := "ae83fc"
  mqttPass := "48007129"
  firmwareVersion := "1.7.1.9_sh_en"
  sensorName := "ae5058"
  radarSkip := 9
  radarRepeat := 9
  bindAddr := "127.0.0.1"
  listenPort := 1
  pingIntervalSecs := 1
  dataDir := "data"
  historyMaxLen := 500
  pumpOutDropPct := 25
  calibration := Calibration.default
  broker := none
  state :=
    { lvl := 751 / 5
      pct := 20
      bat := 83
      daysLeft := 51
      lvlToFull := 110
      lstEmpty := "2026-05-30T00:17:19+02:00"
      «from» := "node-4" }

end Sample

end Aquilo
