/-
The configuration generated from collected facts: its numbers always survive the
file, so whether it loads back as the facts depends on the recovered strings
alone.
-/
import Aquilo.ConfigSplicing
import Aquilo.Learn

namespace Aquilo

open DecimalText ExactFloat

namespace Json

/-- A float stands somewhere in a value. -/
inductive Occurs (q : ℚ) : Json → Prop
  | here : Occurs q (.float q)
  | item {items : List Json} {v : Json} (hv : v ∈ items) (h : Occurs q v) :
      Occurs q (.arr items)
  | field {fields : List (String × Json)} {key : String} {v : Json}
      (hv : (key, v) ∈ fields) (h : Occurs q v) : Occurs q (.obj fields)

theorem Occurs.of_get? {q : ℚ} {v w : Json} {key : String}
    (hget : v.get? key = some w) (h : Occurs q w) : Occurs q v := by
  cases v with
  | obj fields =>
      obtain ⟨l, r, heq, -⟩ := List.lookup_eq_some_iff.mp hget
      exact .field (show (key, w) ∈ fields by rw [heq]; simp) h
  | _ => cases hget

theorem Occurs.of_index {q : ℚ} {v : Json} {key : String}
    (h : Occurs q (v.index key)) : Occurs q v := by
  rw [index] at h
  cases hget : v.get? key with
  | none =>
      rw [hget] at h
      cases h
  | some w =>
      rw [hget] at h
      exact h.of_get? hget

theorem Occurs.of_item? {q : ℚ} {v w : Json} {i : ℕ} (hitem : v.item? i = some w)
    (h : Occurs q w) : Occurs q v := by
  cases v with
  | arr items => exact .item (List.mem_of_getElem? hitem) h
  | _ => cases hitem

@[simp] theorem occurs_str {q : ℚ} {s : String} : ¬ Occurs q (.str s) := nofun

@[simp] theorem occurs_int {q : ℚ} {n : ℤ} : ¬ Occurs q (.int n) := nofun

@[simp] theorem occurs_float {q r : ℚ} : Occurs q (.float r) ↔ q = r :=
  ⟨fun h => by cases h; rfl, fun h => h ▸ .here⟩

@[simp] theorem occurs_arr {q : ℚ} {items : List Json} :
    Occurs q (.arr items) ↔ ∃ v ∈ items, Occurs q v :=
  ⟨fun h => by cases h with | item hv h => exact ⟨_, hv, h⟩,
    fun ⟨_, hv, h⟩ => .item hv h⟩

@[simp] theorem occurs_obj {q : ℚ} {fields : List (String × Json)} :
    Occurs q (.obj fields) ↔ ∃ field ∈ fields, Occurs q field.2 :=
  ⟨fun h => by cases h with | field hv h => exact ⟨_, hv, h⟩,
    fun ⟨_, hv, h⟩ => .field hv h⟩

end Json

/-- The text of a JSON number has finitely many decimals. -/
def Codec.DecimalFloats (codec : Codec) : Prop :=
  ∀ payload v q, codec.jsonValue payload = some v → v.Occurs q → IsDecimal q

theorem isDecimal_intCast (n : ℤ) : IsDecimal n := ⟨n, 0, by simp⟩

theorem isDecimal_asF64 {v : Json} (h : ∀ q, v.Occurs q → IsDecimal q) :
    IsDecimal (v.asF64.getD 0) := by
  cases v with
  | int n => exact isDecimal_intCast n
  | float q => exact h q .here
  | _ => exact isDecimal_intCast 0

theorem inI64_asI64 (v : Json) : InI64 (v.asI64.getD 0) := by
  cases h : v.asI64 with
  | none => decide
  | some n => exact Json.asI64_inI64 h

/-- Numbers that a file can hold. -/
structure Seed.Writable (s : Seed) : Prop where
  lvl : IsDecimal s.lvl
  pct : InI64 s.pct
  bat : InI64 s.bat
  daysLeft : InI64 s.daysLeft
  lvlToFull : InI64 s.lvlToFull

/-- Levels are whole millimetres or hundredths of a millimetre. -/
theorem levelOf_isDecimal {p : ReadPayload} {raw : Option RawFrame} {level : ℚ}
    (h : levelOf p raw = .ok level) : IsDecimal level := by
  unfold levelOf at h
  split at h
  · rename_i read1 _
    cases h
    exact ⟨read1, 2, by norm_num⟩
  · rename_i frame _
    cases h
    exact ⟨frame.levelMm, 1, by norm_num⟩
  · cases h

theorem Reading.parse_isDecimal {codec : Codec} {payload : List UInt8}
    {r : Reading} (h : Reading.parse codec payload = .ok r) :
    IsDecimal r.levelCm := by
  rw [Reading.parse] at h
  split at h
  · obtain ⟨raw, -, hlevel, -⟩ := Reading.ofPayload_eq_ok h
    exact levelOf_isDecimal hlevel
  · cases h

namespace Facts

theorem seedOfReading_writable {r : Reading} (h : IsDecimal r.levelCm)
    (now : String) : (seedOfReading r now).Writable where
  lvl := h
  pct := Calibration.pct_inI64 _ _
  bat := BatteryCurve.percent_inI64 (by decide) _
  daysLeft := (by decide : InI64 0)
  lvlToFull := saturate_inI64 _

theorem seedOfState_writable {v s : Json} (hsensor : stateSensor v = some s)
    (h : ∀ q, v.Occurs q → IsDecimal q) : (seedOfState v s).Writable where
  lvl := isDecimal_asF64 fun q hq =>
    h q ((hq.of_index.of_item? hsensor).of_index)
  pct := inI64_asI64 _
  bat := inI64_asI64 _
  daysLeft := inI64_asI64 _
  lvlToFull := inI64_asI64 _

section Collect

variable {codec : Codec} {sources : List Source}

/-- A device's reading was parsed from one of its payloads. -/
theorem isDecimal_of_deviceReading {src : Source} {r : Reading} {now : String}
    (h : src.deviceReading codec = some (r, now)) : IsDecimal r.levelCm := by
  cases src with
  | devicePublish topic payload clock =>
      simp only [Source.deviceReading, Option.ite_none_left_eq_some,
        Option.ite_none_right_eq_some, Option.map_eq_some_iff,
        Prod.mk.injEq] at h
      obtain ⟨-, -, r', hread, rfl, -⟩ := h
      cases hparse : Reading.parse codec payload with
      | error e => simp [hparse, Except.toOption] at hread
      | ok r'' =>
          simp only [hparse, Except.toOption, Option.some.injEq] at hread
          exact hread ▸ Reading.parse_isDecimal hparse
  | _ => cases h

/-- A cloud's sensor stands in a value read from one of its payloads. -/
theorem stateSensor_of_cloudSensor {src : Source} {v s : Json}
    (h : src.cloudSensor codec = some (v, s)) :
    stateSensor v = some s ∧ ∃ payload, codec.jsonValue payload = some v := by
  cases src with
  | cloudPublish topic payload =>
      simp only [Source.cloudSensor, Option.ite_none_left_eq_some,
        Option.ite_none_right_eq_some, Option.bind_eq_some_iff,
        Option.map_eq_some_iff, Prod.mk.injEq] at h
      obtain ⟨-, -, v', hvalue, s', hsensor, rfl, rfl⟩ := h
      exact ⟨hsensor, payload, hvalue⟩
  | _ => cases h

theorem collect_seed_writable (hcodec : codec.DecimalFloats) {seed : Seed}
    (h : (collect codec sources).seed = some seed) : seed.Writable := by
  rw [collect_seed] at h
  obtain ⟨src, -, hoffer⟩ := List.exists_of_findSome?_eq_some h
  simp only [Source.offer, Option.or_eq_some_iff, Option.map_eq_some_iff] at hoffer
  rcases hoffer with ⟨⟨r, now⟩, hreading, rfl⟩ | ⟨-, ⟨v, s⟩, hsensor, rfl⟩
  · exact seedOfReading_writable (isDecimal_of_deviceReading hreading) now
  · obtain ⟨hfirst, payload, hvalue⟩ := stateSensor_of_cloudSensor hsensor
    exact seedOfState_writable hfirst fun q hq => hcodec payload v q hvalue hq

/-- What is offered as an integer of the cloud's JSON fits 64 bits, and so does
the default. -/
theorem findSome?_asI64_inI64 {value : Source → Option Json} (key : String) :
    InI64 ((sources.findSome? fun src =>
      (value src).bind fun v => (v.get? key).bind Json.asI64).getD 9) := by
  cases h : sources.findSome? fun src =>
      (value src).bind fun v => (v.get? key).bind Json.asI64 with
  | none => decide
  | some n =>
      obtain ⟨src, -, hoffer⟩ := List.exists_of_findSome?_eq_some h
      obtain ⟨v, -, hv⟩ := Option.bind_eq_some_iff.mp hoffer
      obtain ⟨w, -, hw⟩ := Option.bind_eq_some_iff.mp hv
      exact Json.asI64_inI64 hw

theorem collect_radarSkip_inI64 :
    InI64 ((collect codec sources).radarSkip.getD 9) := by
  rw [collect_radarSkip]
  exact findSome?_asI64_inI64 "skip"

theorem collect_radarRepeat_inI64 :
    InI64 ((collect codec sources).radarRepeat.getD 9) := by
  rw [collect_radarRepeat]
  exact findSome?_asI64_inI64 "repeat"

theorem generatedConfig_writable (hcodec : codec.DecimalFloats)
    {opts : OnboardOptions} {g : GeneratedConfig}
    (h : generatedConfig (collect codec sources) opts = .ok g) : g.Writable := by
  obtain ⟨-, -, -, -, -, hseed, -, hskip, hrepeat, -, hcalibration⟩ :=
    generatedConfig_eq_ok h
  have hwritable := collect_seed_writable hcodec hseed
  exact
    { radarSkip := hskip ▸ collect_radarSkip_inI64
      radarRepeat := hrepeat ▸ collect_radarRepeat_inI64
      fullDist := hcalibration ▸ isDecimal_intCast 40
      emptyDist := hcalibration ▸ isDecimal_intCast 178
      lvl := hwritable.lvl
      pct := hwritable.pct
      bat := hwritable.bat
      daysLeft := hwritable.daysLeft
      lvlToFull := hwritable.lvlToFull }

end Collect

/-- The strings that go into the generated configuration. -/
def strings (facts : Facts) (opts : OnboardOptions) : List String :=
  facts.receiverId.toList ++ facts.sensorId.toList ++ facts.mqttUser.toList ++
    facts.mqttPass.toList ++ facts.firmware.toList ++ facts.sensorName.toList ++
    [opts.dataDir] ++
    facts.seed.toList.flatMap fun s => [s.lstEmpty, s.from]

theorem forall_strings_iff {facts : Facts} {opts : OnboardOptions}
    {g : GeneratedConfig} (h : generatedConfig facts opts = .ok g)
    (p : String → Prop) :
    (∀ s ∈ g.strings, p s) ↔ ∀ s ∈ facts.strings opts, p s := by
  obtain ⟨hrid, huser, hpass, hfw, hsid, hseed, hname, -, -, hdir, -⟩ :=
    generatedConfig_eq_ok h
  simp only [strings, GeneratedConfig.strings, hrid, huser, hpass, hfw, hsid,
    hseed, hname, hdir, Option.toList_some, List.flatMap_cons, List.flatMap_nil,
    List.append_nil, List.forall_mem_append, List.forall_mem_cons,
    List.not_mem_nil, false_implies, implies_true, and_true, and_assoc]
  cases facts.sensorName with
  | none => simp; tauto
  | some name => simp

end Facts

/-- Whatever messages the facts were collected from, the generated configuration
is loaded back as those facts exactly when none of their strings holds a
character that a quoted string cannot hold as it is. -/
theorem generatedConfig_loads_iff_plain (codec : Codec)
    (hcodec : codec.DecimalFloats) (opts : OnboardOptions)
    (sources : List Source)
    (hcomplete : (Facts.collect codec sources).isComplete = true) :
    ∃ g, generatedConfig (Facts.collect codec sources) opts = .ok g ∧
      renderConfig (Facts.collect codec sources) opts = .ok g.text ∧
      (Config.parse g.text = some g.toConfig ↔
        ∀ s ∈ (Facts.collect codec sources).strings opts,
          ∀ c ∈ s.toList, Toml.Plain c) := by
  obtain ⟨g, hg⟩ := (generatedConfig_ok_iff opts).mpr hcomplete
  refine ⟨g, hg, by rw [renderConfig, hg]; rfl, ?_⟩
  rw [GeneratedConfig.parse_text_iff (Facts.generatedConfig_writable hcodec hg),
    Facts.forall_strings_iff hg]

namespace Sample

theorem onboardCodec_decimalFloats : onboardCodec.DecimalFloats := by
  intro payload v q hvalue hq
  simp only [onboardCodec] at hvalue
  split at hvalue
  · cases hvalue
    have hlvl : q = 751 / 5 := by simpa [stateJson] using hq
    exact ⟨1502, 1, by rw [hlvl]; norm_num⟩
  · split at hvalue
    · cases hvalue
      simp [radarJson] at hq
    · cases hvalue

/-- The device connects with a password, sends a reading, and the cloud
answers. -/
def onboarding (password : String) : List Source :=
  [ .deviceConnect
      { clientId := "CieczSensorae83fc", username := some "ae83fc",
        password := some password },
    .devicePublish topics.read (Utf8.encode readText) tick.now,
    .cloudPublish topics.version (Utf8.encode "1.7.1.9_sh_en") ]

end Sample

/-- The captured password loads back. -/
theorem generatedConfig_loads_captured :
    ∃ g, generatedConfig (Facts.collect Sample.onboardCodec
        (Sample.onboarding "48007129")) Sample.onboardOptions = .ok g ∧
      Config.parse g.text = some g.toConfig := by
  obtain ⟨g, hg, -, hiff⟩ := generatedConfig_loads_iff_plain
    Sample.onboardCodec Sample.onboardCodec_decimalFloats Sample.onboardOptions
    (Sample.onboarding "48007129") (by decide +kernel)
  have hplain : ((Facts.collect Sample.onboardCodec
      (Sample.onboarding "48007129")).strings Sample.onboardOptions).all (fun s =>
        s.toList.all fun c => decide (Toml.Plain c)) = true := by decide +kernel
  simp only [List.all_eq_true, decide_eq_true_eq] at hplain
  exact ⟨g, hg, hiff.mpr hplain⟩

/-- A quote in the device's password ends the string it is spliced into. -/
theorem quotedPassword_does_not_load :
    ∃ g, generatedConfig (Facts.collect Sample.onboardCodec
        (Sample.onboarding "48\"07129")) Sample.onboardOptions = .ok g ∧
      Config.parse g.text ≠ some g.toConfig := by
  obtain ⟨g, hg⟩ := (generatedConfig_ok_iff Sample.onboardOptions).mpr
    (show (Facts.collect Sample.onboardCodec
      (Sample.onboarding "48\"07129")).isComplete = true by decide +kernel)
  refine ⟨g, hg, fun hload => ?_⟩
  have hplain := (GeneratedConfig.parse_text_iff (Facts.generatedConfig_writable
    Sample.onboardCodec_decimalFloats hg)).mp hload
  have hpass : g.mqttPass = "48\"07129" := by
    have hfact : (Facts.collect Sample.onboardCodec
        (Sample.onboarding "48\"07129")).mqttPass = some "48\"07129" := by
      decide +kernel
    have heq := (generatedConfig_eq_ok hg).2.2.1
    rw [hfact] at heq
    exact (Option.some.inj heq).symm
  have hquote := hplain g.mqttPass (by simp [GeneratedConfig.strings]) '"'
    (by rw [hpass]; decide)
  exact absurd hquote (by decide)

end Aquilo
