/-
The two encodings of a measurement.  A field the JSON leaves out is taken from
the raw string, so with both present and in agreement either may be missing.
-/
import Aquilo.Reading

namespace Aquilo

open RustStr

/-- The JSON fields that the raw string repeats. -/
inductive ReadField where
  | sensor
  | version
  | read1
  | battery
  | readNo
  | lastSent
  | amp1
  | temp
deriving DecidableEq, Repr

namespace ReadPayload

/-- A payload with some of the repeated fields left out. -/
def without (p : ReadPayload) (dropped : ReadField → Bool) : ReadPayload where
  sensor := if dropped .sensor then none else p.sensor
  version := if dropped .version then none else p.version
  read1 := if dropped .read1 then none else p.read1
  battery := if dropped .battery then none else p.battery
  readNo := if dropped .readNo then none else p.readNo
  lastSent := if dropped .lastSent then none else p.lastSent
  amp1 := if dropped .amp1 then none else p.amp1
  temp := if dropped .temp then none else p.temp
  raw := p.raw

/-- A payload with the raw string left out. -/
def withoutRaw (p : ReadPayload) : ReadPayload := { p with raw := none }

/-- No JSON field that is present contradicts a frame. -/
structure Consistent (p : ReadPayload) (f : RawFrame) : Prop where
  sensor : ∀ s ∈ p.sensor, s = f.sensor
  version : ∀ v ∈ p.version, v = f.version
  read1 : ∀ n ∈ p.read1, n = 10 * f.levelMm
  battery : ∀ b ∈ p.battery, parseI64 b = some f.batteryMv
  readNo : ∀ n ∈ p.readNo, n = f.readNo
  lastSent : ∀ n ∈ p.lastSent, n = f.lastSent
  amp1 : ∀ n ∈ p.amp1, n = f.amp
  temp : ∀ n ∈ p.temp, n = f.temp

/-- Every repeated field is there. -/
structure CarriesAll (p : ReadPayload) : Prop where
  sensor : p.sensor.isSome = true
  version : p.version.isSome = true
  read1 : p.read1.isSome = true
  battery : p.battery.isSome = true
  readNo : p.readNo.isSome = true
  lastSent : p.lastSent.isSome = true
  amp1 : p.amp1.isSome = true
  temp : p.temp.isSome = true

end ReadPayload

/-- The reading a frame denotes by itself. -/
def RawFrame.reading (f : RawFrame) : Reading where
  sensor := f.sensor
  version := some f.version
  levelCm := (f.levelMm : ℚ) / 10
  batteryMv := f.batteryMv
  readNo := some f.readNo
  lastSent := some f.lastSent
  amp1 := some f.amp
  temp := some f.temp
  raw := some f

/-- What a payload reads as, from its parts. -/
theorem Reading.ofPayload_of_parts {p : ReadPayload} {raw : Option RawFrame}
    {levelCm : ℚ} {batteryMv : ℤ} {sensor : String}
    (hraw : rawFrame? p = .ok raw) (hlevel : levelOf p raw = .ok levelCm)
    (hbattery : batteryOf p raw = .ok batteryMv)
    (hsensor : sensorOf p raw = .ok sensor) :
    Reading.ofPayload p = .ok {
      sensor
      version := p.version.or (raw.map RawFrame.version)
      levelCm
      batteryMv
      readNo := p.readNo.or (raw.map RawFrame.readNo)
      lastSent := p.lastSent.or (raw.map RawFrame.lastSent)
      amp1 := p.amp1.or (raw.map RawFrame.amp)
      temp := p.temp.or (raw.map RawFrame.temp)
      raw } := by
  rw [Reading.ofPayload, hraw]
  change (levelOf p raw >>= _) = _
  rw [hlevel]
  change (batteryOf p raw >>= _) = _
  rw [hbattery]
  change (sensorOf p raw >>= _) = _
  rw [hsensor]
  rfl

theorem rawFrame?_of_parse {p : ReadPayload} {raw : String} {f : RawFrame}
    (hraw : p.raw = some raw) (hparse : RawFrame.parse raw = .ok f) :
    rawFrame? p = .ok (some f) := by
  rw [rawFrame?, hraw]
  simp only [hparse, Except.map]

theorem or_some_of_forall_mem {α : Type} {o : Option α} {a : α}
    (h : ∀ x ∈ o, x = a) : o.or (some a) = some a := by
  cases o with
  | none => rfl
  | some x => rw [Option.some_or, h x rfl]

theorem eq_some_of_forall_mem {α : Type} {o : Option α} {a : α}
    (h : ∀ x ∈ o, x = a) (hsome : o.isSome = true) : o = some a := by
  obtain ⟨x, rfl⟩ := Option.isSome_iff_exists.mp hsome
  rw [h x rfl]

theorem forall_mem_ite_none {α : Type} {P : α → Prop} {o : Option α}
    (h : ∀ x ∈ o, P x) (c : Bool) : ∀ x ∈ (if c then none else o), P x := by
  cases c with
  | false => exact h
  | true => exact fun x hx => absurd hx (by simp)

namespace ReadPayload

variable {p : ReadPayload} {f : RawFrame}

theorem Consistent.without (h : p.Consistent f) (dropped : ReadField → Bool) :
    (p.without dropped).Consistent f where
  sensor := forall_mem_ite_none h.sensor _
  version := forall_mem_ite_none h.version _
  read1 := forall_mem_ite_none h.read1 _
  battery := forall_mem_ite_none h.battery _
  readNo := forall_mem_ite_none h.readNo _
  lastSent := forall_mem_ite_none h.lastSent _
  amp1 := forall_mem_ite_none h.amp1 _
  temp := forall_mem_ite_none h.temp _

/-- The level of `read1` is that of the millimetre field. -/
theorem levelOf_consistent (h : p.Consistent f) :
    levelOf p (some f) = .ok ((f.levelMm : ℚ) / 10) := by
  cases hread : p.read1 with
  | none => simp only [levelOf, hread]
  | some n =>
      have hn := h.read1 n hread
      simp only [levelOf, hread, hn]
      push_cast
      congr 1
      ring

theorem batteryOf_consistent (h : p.Consistent f) :
    batteryOf p (some f) = .ok f.batteryMv := by
  cases hbattery : p.battery with
  | none => simp only [batteryOf, hbattery]
  | some b => simp only [batteryOf, hbattery, h.battery b hbattery]

/-- A payload that does not contradict its raw string reads as that string
does. -/
theorem ofPayload_consistent (h : p.Consistent f) {raw : String}
    (hraw : p.raw = some raw) (hparse : RawFrame.parse raw = .ok f) :
    Reading.ofPayload p = .ok f.reading := by
  have hframe := rawFrame?_of_parse hraw hparse
  have hsensor : sensorOf p (some f) = .ok f.sensor := by
    simp only [sensorOf, Option.map_some, or_some_of_forall_mem h.sensor]
  rw [Reading.ofPayload_of_parts hframe (levelOf_consistent h)
    (batteryOf_consistent h) hsensor]
  simp only [Option.map_some, or_some_of_forall_mem h.version,
    or_some_of_forall_mem h.readNo, or_some_of_forall_mem h.lastSent,
    or_some_of_forall_mem h.amp1, or_some_of_forall_mem h.temp]
  rfl

/-- With all fields there the raw string adds nothing but itself. -/
theorem ofPayload_withoutRaw (h : p.Consistent f) (hall : p.CarriesAll) :
    Reading.ofPayload p.withoutRaw = .ok { f.reading with raw := none } := by
  have hsensor := eq_some_of_forall_mem h.sensor hall.sensor
  have hread1 := eq_some_of_forall_mem h.read1 hall.read1
  obtain ⟨b, hb⟩ := Option.isSome_iff_exists.mp hall.battery
  have hlevel : levelOf p.withoutRaw none = .ok ((f.levelMm : ℚ) / 10) := by
    simp only [levelOf, withoutRaw, hread1]
    push_cast
    congr 1
    ring
  have hbattery : batteryOf p.withoutRaw none = .ok f.batteryMv := by
    simp only [batteryOf, withoutRaw, hb, h.battery b hb]
  have hid : sensorOf p.withoutRaw none = .ok f.sensor := by
    simp only [sensorOf, withoutRaw, hsensor, Option.some_or]
  have hframe : rawFrame? p.withoutRaw = .ok none := rfl
  rw [Reading.ofPayload_of_parts hframe hlevel hbattery hid]
  simp only [withoutRaw, Option.map_none, Option.or_none,
    eq_some_of_forall_mem h.version hall.version,
    eq_some_of_forall_mem h.readNo hall.readNo,
    eq_some_of_forall_mem h.lastSent hall.lastSent,
    eq_some_of_forall_mem h.amp1 hall.amp1,
    eq_some_of_forall_mem h.temp hall.temp]
  rfl

end ReadPayload

open ReadPayload

/-- Where the JSON fields and the raw string of a payload agree, leaving out any
of the fields changes nothing, and leaving out the raw string changes only the
decoded raw string. -/
theorem jsonFields_raw_interchangeable (codec : Codec) (payload : List UInt8)
    (p : ReadPayload) (raw : String) (f : RawFrame)
    (hpayload : codec.readPayload payload = some p) (hraw : p.raw = some raw)
    (hparse : RawFrame.parse raw = .ok f) (hconsistent : p.Consistent f)
    (hall : p.CarriesAll) :
    (∀ dropped payload',
        codec.readPayload payload' = some (p.without dropped) →
          Reading.parse codec payload' = Reading.parse codec payload) ∧
      ∀ payload', codec.readPayload payload' = some p.withoutRaw →
        ∃ reading, Reading.parse codec payload = .ok reading ∧
          Reading.parse codec payload' = .ok { reading with raw := none } := by
  have hboth : Reading.parse codec payload = .ok f.reading := by
    simp only [Reading.parse, hpayload]
    exact ofPayload_consistent hconsistent hraw hparse
  constructor
  · intro dropped payload' hpayload'
    rw [hboth]
    simp only [Reading.parse, hpayload']
    exact ofPayload_consistent (hconsistent.without dropped) hraw hparse
  · intro payload' hpayload'
    refine ⟨f.reading, hboth, ?_⟩
    simp only [Reading.parse, hpayload']
    exact ofPayload_withoutRaw hconsistent hall

namespace Sample

def capturedRaw : String := "_e23_ae5058_1502_3770_59_0_73044_72976_1_2_1_0_0_0"

/-- The captured payload, with the fields that are read. -/
def captured : ReadPayload where
  sensor := some "ae5058"
  version := some "e23"
  read1 := some 15020
  battery := some "3770"
  readNo := some 73044
  lastSent := some 72976
  amp1 := some 59
  temp := some 0
  raw := some capturedRaw

def jsonPart : String :=
  "\"v\":\"e23\",\"sensor\":\"ae5058\",\"read1\":15020,\"battery\":\"3770\"," ++
    "\"amp1\":59,\"temp\":0,\"readNo\":73044,\"lastSent\":72976"

def rawPart : String := "\"raw\":\"" ++ capturedRaw ++ "\""

/-- The payload with both parts, with the raw string only and without it. -/
def bothPayload : List UInt8 :=
  Utf8.encode ("\x7b" ++ rawPart ++ "," ++ jsonPart ++ "\x7d")

def rawPayload : List UInt8 := Utf8.encode ("\x7b" ++ rawPart ++ "\x7d")

def jsonPayload : List UInt8 := Utf8.encode ("\x7b" ++ jsonPart ++ "\x7d")

/-- Codecs that read the three payloads. -/
def capturedCodec : Codec :=
  { codec with
    readPayload := fun payload =>
      if payload = bothPayload then some captured
      else if payload = rawPayload then some (captured.without fun _ => true)
      else if payload = jsonPayload then some captured.withoutRaw
      else none }

end Sample

open Sample in
/-- Of the captured payload either part may be missing. -/
theorem captured_interchangeable :
    Reading.parse capturedCodec rawPayload = Reading.parse capturedCodec bothPayload ∧
      ∃ reading, Reading.parse capturedCodec bothPayload = .ok reading ∧
        Reading.parse capturedCodec jsonPayload =
          .ok { reading with raw := none } := by
  have hparse : RawFrame.parse capturedRaw =
      .ok { version := "e23", sensor := "ae5058", levelMm := 1502,
            batteryMv := 3770, amp := 59, temp := 0, readNo := 73044,
            lastSent := 72976, rest := [1, 2, 1, 0, 0, 0] } := by
    decide +kernel
  have hboth : capturedCodec.readPayload bothPayload = some captured := by
    decide +kernel
  have hraw : capturedCodec.readPayload rawPayload =
      some (captured.without fun _ => true) := by decide +kernel
  have hjson : capturedCodec.readPayload jsonPayload =
      some captured.withoutRaw := by decide +kernel
  have h := jsonFields_raw_interchangeable capturedCodec bothPayload captured
    capturedRaw _ hboth rfl hparse
    ⟨by decide, by decide, by decide, by decide, by decide, by decide,
      by decide, by decide⟩
    ⟨rfl, rfl, rfl, rfl, rfl, rfl, rfl, rfl⟩
  exact ⟨h.1 _ rawPayload hraw, h.2 jsonPayload hjson⟩

end Aquilo
