/-
The raw-reading parser.  A payload carries its measurement twice, as JSON
fields and packed into an underscore-delimited string; both are decoded.
-/
import Aquilo.Codec
import Aquilo.RustStr

namespace Aquilo

open RustStr

/-- The underscore-delimited telemetry string, decoded positionally. -/
structure RawFrame where
  version : String
  sensor : String
  levelMm : ℤ
  batteryMv : ℤ
  amp : ℤ
  temp : ℤ
  readNo : ℤ
  lastSent : ℤ
  rest : List ℤ
deriving DecidableEq, Repr

/-- A single measurement, ready for state computation. -/
structure Reading where
  sensor : String
  version : Option String
  levelCm : ℚ
  batteryMv : ℤ
  readNo : Option ℤ
  lastSent : Option ℤ
  amp1 : Option ℤ
  temp : Option ℤ
  raw : Option RawFrame
deriving DecidableEq, Repr

/-- Why a payload is refused, with what the message quotes. -/
inductive ReadError where
  | invalidJson
  | tooFewFields (count : Nat) (raw : String)
  | fieldNotInteger (idx : Nat) (field : String)
  | trailingNotInteger
  | noLevel
  | batteryNotInteger (battery : String)
  | noBattery
  | noSensor
deriving DecidableEq, Repr

/-- The numeric field at a position of the raw string. -/
def rawNum (idx : Nat) (field : String) : Except ReadError ℤ :=
  match parseI64 field with
  | some n => .ok n
  | none => .error (.fieldNotInteger idx field)

/-- The trailing numeric fields; the first bad one refuses the string. -/
def rawRest : List String → Except ReadError (List ℤ)
  | [] => .ok []
  | field :: fields =>
      match parseI64 field with
      | some n => (rawRest fields).map (n :: ·)
      | none => .error .trailingNotInteger

/-- The nonempty segments between underscores. -/
def rawParts (raw : String) : List String :=
  ((raw.toList.splitOn '_').filter (· ≠ [])).map String.ofList

def RawFrame.parse (raw : String) : Except ReadError RawFrame :=
  match rawParts raw with
  | version :: sensor :: p2 :: p3 :: p4 :: p5 :: p6 :: p7 :: trailing => do
      let levelMm ← rawNum 2 p2
      let batteryMv ← rawNum 3 p3
      let amp ← rawNum 4 p4
      let temp ← rawNum 5 p5
      let readNo ← rawNum 6 p6
      let lastSent ← rawNum 7 p7
      let rest ← rawRest trailing
      return { version, sensor, levelMm, batteryMv, amp, temp, readNo,
               lastSent, rest }
  | parts => .error (.tooFewFields parts.length raw)

/-- The raw string of a payload, when it has one. -/
def rawFrame? (p : ReadPayload) : Except ReadError (Option RawFrame) :=
  match p.raw with
  | none => .ok none
  | some raw => (RawFrame.parse raw).map some

/-- The level in centimetres: `read1`, else the raw millimetre field. -/
def levelOf (p : ReadPayload) (raw : Option RawFrame) : Except ReadError ℚ :=
  match p.read1, raw with
  | some read1, _ => .ok ((read1 : ℚ) / 100)
  | none, some frame => .ok ((frame.levelMm : ℚ) / 10)
  | none, none => .error .noLevel

def batteryOf (p : ReadPayload) (raw : Option RawFrame) :
    Except ReadError ℤ :=
  match p.battery, raw with
  | some b, _ =>
      match parseI64 b with
      | some mv => .ok mv
      | none => .error (.batteryNotInteger b)
  | none, some frame => .ok frame.batteryMv
  | none, none => .error .noBattery

def sensorOf (p : ReadPayload) (raw : Option RawFrame) :
    Except ReadError String :=
  match p.sensor.or (raw.map RawFrame.sensor) with
  | some sensor => .ok sensor
  | none => .error .noSensor

/-- The reading a decoded payload denotes. -/
def Reading.ofPayload (p : ReadPayload) : Except ReadError Reading := do
  let raw ← rawFrame? p
  let levelCm ← levelOf p raw
  let batteryMv ← batteryOf p raw
  let sensor ← sensorOf p raw
  return {
    sensor
    version := p.version.or (raw.map RawFrame.version)
    levelCm
    batteryMv
    readNo := p.readNo.or (raw.map RawFrame.readNo)
    lastSent := p.lastSent.or (raw.map RawFrame.lastSent)
    amp1 := p.amp1.or (raw.map RawFrame.amp)
    temp := p.temp.or (raw.map RawFrame.temp)
    raw }

theorem bind_eq_ok {ε α β : Type} {x : Except ε α} {f : α → Except ε β} {b : β}
    (h : (x >>= f) = .ok b) : ∃ a, x = .ok a ∧ f a = .ok b := by
  cases x with
  | error e => cases h
  | ok a => exact ⟨a, rfl, h⟩

/-- What a reading's required fields come from; the frame is kept. -/
theorem Reading.ofPayload_eq_ok {p : ReadPayload} {r : Reading}
    (h : Reading.ofPayload p = .ok r) :
    ∃ raw, rawFrame? p = .ok raw ∧ levelOf p raw = .ok r.levelCm ∧
      batteryOf p raw = .ok r.batteryMv ∧ sensorOf p raw = .ok r.sensor ∧
      r.raw = raw := by
  obtain ⟨raw, hraw, h⟩ := bind_eq_ok h
  obtain ⟨level, hlevel, h⟩ := bind_eq_ok h
  obtain ⟨battery, hbattery, h⟩ := bind_eq_ok h
  obtain ⟨sensor, hsensor, h⟩ := bind_eq_ok h
  cases h
  exact ⟨raw, hraw, hlevel, hbattery, hsensor, rfl⟩

def Reading.parse (codec : Codec) (payload : List UInt8) :
    Except ReadError Reading :=
  match codec.readPayload payload with
  | some p => Reading.ofPayload p
  | none => .error .invalidJson

/-- A reading of a given level, as the source's tests build them. -/
def Sample.reading (levelCm : ℚ) : Reading where
  sensor := "ae5058"
  version := none
  levelCm := levelCm
  batteryMv := 3770
  readNo := none
  lastSent := none
  amp1 := none
  temp := none
  raw := none

/-- The captured telemetry string. -/
example : RawFrame.parse "_e23_ae5058_1502_3770_59_0_73044_72976_1_2" =
    .ok { version := "e23", sensor := "ae5058", levelMm := 1502,
          batteryMv := 3770, amp := 59, temp := 0, readNo := 73044,
          lastSent := 72976, rest := [1, 2] } := by
  decide +kernel

end Aquilo
