/-
The raw string beside the JSON fields.  Both copies of a measurement are
decoded, but nothing compares them: what the JSON says is served, and a
contradicting raw string is only kept.
-/
import Aquilo.ReadFallbacks
import Aquilo.Serve

namespace Aquilo

open RustStr

namespace ReadPayload

/-- The JSON fields that are there agree with a frame, the level to within a
millimetre. -/
structure CopiesAgree (p : ReadPayload) (f : RawFrame) : Prop where
  read1 : ∀ n ∈ p.read1, |n - 10 * f.levelMm| < 10
  battery : ∀ b ∈ p.battery, parseI64 b = some f.batteryMv
  sensor : ∀ s ∈ p.sensor, s = f.sensor

/-- Every required field can be read from one of the copies, and what is there
is well formed. -/
structure Readable (p : ReadPayload) : Prop where
  raw : ∀ raw ∈ p.raw, ∃ f, RawFrame.parse raw = .ok f
  level : p.read1.isSome = true ∨ p.raw.isSome = true
  battery : (∃ b ∈ p.battery, (parseI64 b).isSome = true) ∨
    p.battery = none ∧ p.raw.isSome = true
  sensor : p.sensor.isSome = true ∨ p.raw.isSome = true

end ReadPayload

/-- An accepted payload carries two copies that agree. -/
def CrossChecked (codec : Codec) (payload : List UInt8) : Prop :=
  ∀ p raw f r, codec.readPayload payload = some p → p.raw = some raw →
    RawFrame.parse raw = .ok f → Reading.parse codec payload = .ok r →
    p.CopiesAgree f

theorem levelOf_isOk_iff {p : ReadPayload} {raw : Option RawFrame} :
    (∃ level, levelOf p raw = .ok level) ↔
      p.read1.isSome = true ∨ raw.isSome = true := by
  cases hread : p.read1 <;> cases raw <;> simp [levelOf, hread]

theorem batteryOf_isOk_iff {p : ReadPayload} {raw : Option RawFrame} :
    (∃ mv, batteryOf p raw = .ok mv) ↔
      (∃ b ∈ p.battery, (parseI64 b).isSome = true) ∨
        p.battery = none ∧ raw.isSome = true := by
  cases hbattery : p.battery with
  | none => cases raw <;> simp [batteryOf, hbattery]
  | some b => cases hmv : parseI64 b <;> simp [batteryOf, hbattery, hmv]

theorem sensorOf_isOk_iff {p : ReadPayload} {raw : Option RawFrame} :
    (∃ sensor, sensorOf p raw = .ok sensor) ↔
      p.sensor.isSome = true ∨ raw.isSome = true := by
  cases hsensor : p.sensor <;> cases raw <;> simp [sensorOf, hsensor]

theorem isSome_of_rawFrame? {p : ReadPayload} {raw : Option RawFrame}
    (h : rawFrame? p = .ok raw) : raw.isSome = p.raw.isSome := by
  rw [rawFrame?] at h
  cases hraw : p.raw with
  | none =>
      rw [hraw] at h
      cases h
      rfl
  | some s =>
      rw [hraw] at h
      cases hparse : RawFrame.parse s with
      | error e => simp [hparse, Except.map] at h
      | ok f =>
          simp only [hparse, Except.map] at h
          cases h
          rfl

/-- A payload is accepted for what its fields are, not for what they say. -/
theorem ofPayload_isOk_iff {p : ReadPayload} :
    (∃ r, Reading.ofPayload p = .ok r) ↔ p.Readable := by
  constructor
  · rintro ⟨r, h⟩
    obtain ⟨raw, hraw, hlevel, hbattery, hsensor, -⟩ := Reading.ofPayload_eq_ok h
    have hsome := isSome_of_rawFrame? hraw
    refine ⟨?_, ?_, ?_, ?_⟩
    · intro s hs
      rw [rawFrame?, hs] at hraw
      cases hparse : RawFrame.parse s with
      | error e => simp [hparse, Except.map] at hraw
      | ok f => exact ⟨f, rfl⟩
    · rw [← hsome]
      exact levelOf_isOk_iff.mp ⟨_, hlevel⟩
    · rw [← hsome]
      exact batteryOf_isOk_iff.mp ⟨_, hbattery⟩
    · rw [← hsome]
      exact sensorOf_isOk_iff.mp ⟨_, hsensor⟩
  · intro h
    have hraw : ∃ raw, rawFrame? p = .ok raw := by
      cases hp : p.raw with
      | none => exact ⟨none, by rw [rawFrame?, hp]⟩
      | some s =>
          obtain ⟨f, hf⟩ := h.raw s hp
          exact ⟨some f, rawFrame?_of_parse hp hf⟩
    obtain ⟨raw, hraw⟩ := hraw
    have hsome := isSome_of_rawFrame? hraw
    obtain ⟨level, hlevel⟩ := levelOf_isOk_iff.mpr (hsome ▸ h.level)
    obtain ⟨mv, hbattery⟩ := batteryOf_isOk_iff.mpr (hsome ▸ h.battery)
    obtain ⟨sensor, hsensor⟩ := sensorOf_isOk_iff.mpr (hsome ▸ h.sensor)
    exact ⟨_, Reading.ofPayload_of_parts hraw hlevel hbattery hsensor⟩

theorem levelOf_beside_frame (p : ReadPayload) (f : RawFrame) :
    levelOf p (some f) =
      .ok (p.read1.elim ((f.levelMm : ℚ) / 10) fun n => (n : ℚ) / 100) := by
  cases hread : p.read1 <;> simp [levelOf, hread]

theorem batteryOf_beside_frame {p : ReadPayload} {f : RawFrame} {mv : ℤ} :
    batteryOf p (some f) = .ok mv ↔
      p.battery.elim (some f.batteryMv) parseI64 = some mv := by
  cases hbattery : p.battery with
  | none => simp [batteryOf, hbattery]
  | some b => cases hmv : parseI64 b <;> simp [batteryOf, hbattery, hmv]

theorem sensorOf_beside_frame (p : ReadPayload) (f : RawFrame) :
    sensorOf p (some f) = .ok (p.sensor.getD f.sensor) := by
  cases hsensor : p.sensor <;> simp [sensorOf, hsensor]

/-- With a frame beside them the JSON fields still come first, and the frame is
kept as it is. -/
theorem ofPayload_beside_frame {p : ReadPayload} {raw : String} {f : RawFrame}
    {r : Reading} (hraw : p.raw = some raw) (hparse : RawFrame.parse raw = .ok f)
    (h : Reading.ofPayload p = .ok r) :
    r.raw = some f ∧
      r.levelCm = p.read1.elim ((f.levelMm : ℚ) / 10) (fun n => (n : ℚ) / 100) ∧
      some r.batteryMv = p.battery.elim (some f.batteryMv) parseI64 ∧
      r.sensor = p.sensor.getD f.sensor := by
  obtain ⟨frame, hframe, hlevel, hbattery, hsensor, hkept⟩ :=
    Reading.ofPayload_eq_ok h
  rw [rawFrame?_of_parse hraw hparse] at hframe
  cases hframe
  rw [levelOf_beside_frame] at hlevel
  rw [batteryOf_beside_frame] at hbattery
  rw [sensorOf_beside_frame] at hsensor
  exact ⟨hkept, (Except.ok.inj hlevel).symm, hbattery.symm,
    (Except.ok.inj hsensor).symm⟩

/-- Two payloads whose JSON measures the same, whatever their raw strings say. -/
structure ReadPayload.SameJson (p p' : ReadPayload) : Prop where
  read1 : p.read1.isSome = true ∧ p'.read1 = p.read1
  battery : p.battery.isSome = true ∧ p'.battery = p.battery

/-- Two such payloads read as the same level and voltage. -/
theorem ReadPayload.SameJson.measured {p p' : ReadPayload} {r r' : Reading}
    (hsame : p.SameJson p') (h : Reading.ofPayload p = .ok r)
    (h' : Reading.ofPayload p' = .ok r') :
    r'.levelCm = r.levelCm ∧ r'.batteryMv = r.batteryMv := by
  obtain ⟨frame, -, hlevel, hbattery, -, -⟩ := Reading.ofPayload_eq_ok h
  obtain ⟨frame', -, hlevel', hbattery', -, -⟩ := Reading.ofPayload_eq_ok h'
  obtain ⟨n, hn⟩ := Option.isSome_iff_exists.mp hsame.read1.1
  obtain ⟨b, hb⟩ := Option.isSome_iff_exists.mp hsame.battery.1
  have hn' := hsame.read1.2.trans hn
  have hb' := hsame.battery.2.trans hb
  constructor
  · simp only [levelOf, hn, hn'] at hlevel hlevel'
    exact Except.ok.inj (hlevel'.symm.trans hlevel)
  · simp only [batteryOf, hb] at hbattery
    simp only [batteryOf, hb'] at hbattery'
    exact Except.ok.inj (hbattery'.symm.trans hbattery)

/-- What a reading does to the state depends on its level and its voltage. -/
theorem Runtime.applyReading_congr {r r' : Reading}
    (hlevel : r'.levelCm = r.levelCm) (hbattery : r'.batteryMv = r.batteryMv)
    (parseTs : String → Option ℤ) (cfg : Config) (battery : BatteryCurve)
    (now : String) (rt : Runtime) :
    rt.applyReading parseTs cfg battery r' now =
      rt.applyReading parseTs cfg battery r now := by
  have hdetects : rt.detectsPumpOut cfg r' = rt.detectsPumpOut cfg r := by
    rw [detectsPumpOut, detectsPumpOut, hlevel]
  have hrecord : record battery r' now = record battery r now := by
    rw [record, record, hlevel, hbattery]
  have hcompute : ∀ statics, SensorState.compute r' cfg.calibration battery
      statics now = SensorState.compute r cfg.calibration battery statics now := by
    intro statics
    rw [SensorState.compute, SensorState.compute, hlevel, hbattery]
  rw [applyReading, applyReading, hdetects, hrecord]
  simp only [hcompute]

theorem Reading.parse_eq {codec : Codec} {payload : List UInt8} {p : ReadPayload}
    (hp : codec.readPayload payload = some p) :
    Reading.parse codec payload = Reading.ofPayload p := by
  rw [Reading.parse, hp]

section Serve

variable (codec : Codec) (cfg : Config) (topics : Topics)
variable (battery : BatteryCurve) (now : String) (saved : Bool) (s : Server)

/-- The state served for a payload is that of its JSON fields, whatever the raw
string says. -/
theorem handlePublish_sameJson {payload payload' : List UInt8}
    {p p' : ReadPayload} (hp : codec.readPayload payload = some p)
    (hp' : codec.readPayload payload' = some p') (hread : p.Readable)
    (hread' : p'.Readable) (hsame : p.SameJson p') :
    handlePublish codec cfg topics battery topics.read payload' now saved s =
      handlePublish codec cfg topics battery topics.read payload now saved s := by
  obtain ⟨r, hr⟩ := ofPayload_isOk_iff.mpr hread
  obtain ⟨r', hr'⟩ := ofPayload_isOk_iff.mpr hread'
  obtain ⟨hlevel, hbattery⟩ := hsame.measured hr hr'
  rw [← Reading.parse_eq hp] at hr
  rw [← Reading.parse_eq hp'] at hr'
  rw [handlePublish_read_ok codec cfg topics battery now saved s hr,
    handlePublish_read_ok codec cfg topics battery now saved s hr', handleRead,
    handleRead, Runtime.applyReading_congr hlevel hbattery]

end Serve

/-- The copies of a payload are not compared.  It is refused, and then changes
nothing, exactly when a required field is missing or malformed; otherwise each
JSON field that is there is taken, the frame is kept beside it, and the state
served is that of the JSON fields. -/
theorem raw_not_compared (codec : Codec) (payload : List UInt8) (p : ReadPayload)
    (hp : codec.readPayload payload = some p) :
    ((∃ r, Reading.parse codec payload = .ok r) ↔ p.Readable) ∧
    (∀ raw f r, p.raw = some raw → RawFrame.parse raw = .ok f →
      Reading.parse codec payload = .ok r →
        r.raw = some f ∧
          r.levelCm =
            p.read1.elim ((f.levelMm : ℚ) / 10) (fun n => (n : ℚ) / 100) ∧
          some r.batteryMv = p.battery.elim (some f.batteryMv) parseI64 ∧
          r.sensor = p.sensor.getD f.sensor) ∧
    (∀ cfg topics battery now saved s, ¬ p.Readable →
      handlePublish codec cfg topics battery topics.read payload now saved s =
        (s, [])) ∧
    ∀ payload' p', codec.readPayload payload' = some p' → p.Readable →
      p'.Readable → p.SameJson p' → ∀ cfg topics battery now saved s,
        handlePublish codec cfg topics battery topics.read payload' now saved s =
          handlePublish codec cfg topics battery topics.read payload now saved
            s := by
  have hparse := Reading.parse_eq hp
  refine ⟨?_, ?_, ?_, ?_⟩
  · rw [hparse]
    exact ofPayload_isOk_iff
  · intro raw f r hraw hframe hr
    rw [hparse] at hr
    exact ofPayload_beside_frame hraw hframe hr
  · intro cfg topics battery now saved s hunreadable
    cases hr : Reading.parse codec payload with
    | error e => exact handlePublish_read_error codec cfg topics battery now saved s hr
    | ok r =>
        rw [hparse] at hr
        exact absurd (ofPayload_isOk_iff.mp ⟨r, hr⟩) hunreadable
  · intro payload' p' hp' hread hread' hsame cfg topics battery now saved s
    exact handlePublish_sameJson codec cfg topics battery now saved s hp hp' hread
      hread' hsame

namespace Sample

/-- The captured raw string beside a JSON that measures something else. -/
def contradicting : ReadPayload :=
  { captured.without (fun _ => true) with
    sensor := some "ae5059"
    read1 := some 15280
    battery := some "3700" }

def contradictingJson : String :=
  "\"sensor\":\"ae5059\",\"read1\":15280,\"battery\":\"3700\""

/-- The payload with and without the raw string. -/
def contradictingPayload : List UInt8 :=
  Utf8.encode ("\x7b" ++ rawPart ++ "," ++ contradictingJson ++ "\x7d")

def plainPayload : List UInt8 :=
  Utf8.encode ("\x7b" ++ contradictingJson ++ "\x7d")

/-- Codecs that read the two payloads. -/
def contradictingCodec : Codec :=
  { codec with
    readPayload := fun payload =>
      if payload = contradictingPayload then some contradicting
      else if payload = plainPayload then some contradicting.withoutRaw
      else none }

/-- What the captured raw string says. -/
def capturedFrame : RawFrame where
  version := "e23"
  sensor := "ae5058"
  levelMm := 1502
  batteryMv := 3770
  amp := 59
  temp := 0
  readNo := 73044
  lastSent := 72976
  rest := [1, 2, 1, 0, 0, 0]

theorem parse_capturedRaw : RawFrame.parse capturedRaw = .ok capturedFrame := by
  decide +kernel

theorem parse_battery : parseI64 "3700" = some 3700 := by decide +kernel

theorem readPayload_contradicting :
    contradictingCodec.readPayload contradictingPayload = some contradicting := by
  decide +kernel

theorem contradicting_readable : contradicting.Readable :=
  ⟨fun _ hraw => ⟨capturedFrame, Option.some.inj hraw ▸ parse_capturedRaw⟩,
    Or.inl rfl, Or.inl ⟨_, rfl, by rw [parse_battery]; rfl⟩, Or.inl rfl⟩

theorem withoutRaw_readable : contradicting.withoutRaw.Readable :=
  ⟨fun _ hraw => absurd hraw (by simp [ReadPayload.withoutRaw]), Or.inl rfl,
    Or.inl ⟨_, rfl, by rw [parse_battery]; rfl⟩, Or.inl rfl⟩

/-- What it reads as: the JSON, and the frame beside it. -/
theorem parse_contradicting :
    ∃ r, Reading.parse contradictingCodec contradictingPayload = .ok r ∧
      r.levelCm = 764 / 5 := by
  obtain ⟨r, hr⟩ := ofPayload_isOk_iff.mpr contradicting_readable
  refine ⟨r, (Reading.parse_eq readPayload_contradicting).trans hr, ?_⟩
  have hlevel := (ofPayload_beside_frame rfl parse_capturedRaw hr).2.1
  rw [hlevel]
  change ((15280 : ℤ) : ℚ) / 100 = 764 / 5
  norm_num

end Sample

open Sample

/-- Level, battery and sensor of the two copies all differ; the payload is
accepted and its JSON level served. -/
theorem contradicting_served :
    ¬ CrossChecked contradictingCodec contradictingPayload ∧
      let s := Server.start config (.ok none) "2026-06-10T20:44:35+02:00" true
      let topics := Topics.new config.receiverId
      s.rt.current.lvl = 751 / 5 ∧
        (handlePublish contradictingCodec config topics BatteryCurve.default
          topics.read contradictingPayload "2026-06-10T20:44:36+02:00" true
          s).1.rt.current.lvl = 764 / 5 := by
  obtain ⟨r, hr, hlevel⟩ := parse_contradicting
  refine ⟨?_, rfl, ?_⟩
  · intro hchecked
    have hagree := hchecked contradicting capturedRaw capturedFrame r
      readPayload_contradicting rfl parse_capturedRaw hr
    exact absurd (hagree.read1 15280 rfl) (by decide)
  · rw [handlePublish_read_ok _ _ _ _ _ _ _ hr]
    exact hlevel

/-- Of the contradicting payload the JSON is taken and the frame kept, and
without the raw string the same is served. -/
theorem contradicting_not_compared :
    (∃ r, Reading.parse contradictingCodec contradictingPayload = .ok r ∧
      r.raw = some capturedFrame ∧ r.levelCm = 15280 / 100 ∧
        r.batteryMv = 3700 ∧ r.sensor = "ae5059") ∧
      let s := Server.start config (.ok none) "2026-06-10T20:44:35+02:00" true
      let topics := Topics.new config.receiverId
      handlePublish contradictingCodec config topics BatteryCurve.default
          topics.read plainPayload "2026-06-10T20:44:36+02:00" true s =
        handlePublish contradictingCodec config topics BatteryCurve.default
          topics.read contradictingPayload "2026-06-10T20:44:36+02:00" true s := by
  have h := raw_not_compared contradictingCodec contradictingPayload contradicting
    readPayload_contradicting
  have hplain : contradictingCodec.readPayload plainPayload =
      some contradicting.withoutRaw := by decide +kernel
  refine ⟨?_, h.2.2.2 plainPayload contradicting.withoutRaw hplain
    contradicting_readable withoutRaw_readable ⟨⟨rfl, rfl⟩, ⟨rfl, rfl⟩⟩
    _ _ _ _ _ _⟩
  obtain ⟨r, hr⟩ := h.1.mpr contradicting_readable
  obtain ⟨hraw, hlevel, hbattery, hsensor⟩ :=
    h.2.1 capturedRaw capturedFrame r rfl parse_capturedRaw hr
  refine ⟨r, hr, hraw, hlevel, ?_, hsensor⟩
  exact Option.some.inj (hbattery.trans parse_battery)

end Aquilo
