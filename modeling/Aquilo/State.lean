/-
The published sensor state, its vendor JSON shape, and the snapshot that is
persisted across restarts.
-/
import Aquilo.Calibration
import Aquilo.History
import Aquilo.Reading

namespace Aquilo

/-- Fields that do not derive from a single reading. -/
structure StaticFields where
  sensorId : String
  name : String
  lstEmpty : String
  daysLeft : ℤ
  «from» : String

/-- The computed sensor state, mirroring the vendor `/state` one-to-one. -/
structure SensorState where
  id : String
  name : String
  lvl : ℚ
  pct : ℤ
  bat : ℤ
  lstRead : String
  lstEmpty : String
  daysLeft : ℤ
  lvlToFull : ℤ
  «from» : String
deriving DecidableEq, Repr

/-- The integers of a state are 64-bit ones. -/
structure SensorState.InRange (s : SensorState) : Prop where
  pct : ExactFloat.InI64 s.pct
  bat : ExactFloat.InI64 s.bat
  daysLeft : ExactFloat.InI64 s.daysLeft
  lvlToFull : ExactFloat.InI64 s.lvlToFull

def SensorState.compute (reading : Reading) (calibration : Calibration)
    (battery : BatteryCurve) (statics : StaticFields) (lstRead : String) :
    SensorState :=
  let lvl := reading.levelCm
  { id := statics.sensorId
    name := statics.name
    lvl
    pct := calibration.pct lvl
    bat := battery.percent reading.batteryMv
    lstRead
    lstEmpty := statics.lstEmpty
    daysLeft := statics.daysLeft
    lvlToFull := calibration.lvlToFull lvl
    «from» := statics.from }

/-- The vendor `/state` shape. -/
def SensorState.toJson (s : SensorState) : Json :=
  .obj [
    ("sensors", .arr [.obj [
      ("id", .str s.id),
      ("lvl", .float s.lvl),
      ("pct", .int s.pct),
      ("bat", .int s.bat),
      ("lstRead", .str s.lstRead),
      ("lstEmpty", .str s.lstEmpty),
      ("daysLeft", .int s.daysLeft),
      ("name", .str s.name),
      ("lvlToFull", .int s.lvlToFull)]]),
    ("from", .str s.from)]

/-- Everything persisted across restarts. -/
structure PersistedState where
  history : List ReadingRecord
  lstEmpty : String
  lastState : Option SensorState
  calibration : Calibration
deriving DecidableEq, Repr

/-- Why a state file cannot be loaded. -/
inductive LoadError where
  | unreadable
  | corrupt
deriving DecidableEq, Repr

end Aquilo
