/-
The serve loop with its arithmetic in binary64.  As long as no exact figure lies
halfway between two whole numbers, what it publishes is what exact arithmetic
gives, but for the projection.
-/
import Aquilo.Agreement
import Aquilo.BinaryReadings
import Aquilo.BrokerClient

namespace Aquilo

open ExactFloat Binary64 Aquilo.Runtime

namespace BinaryServe

section Model

def ofPayload (p : ReadPayload) : Except ReadError Reading := do
  let raw ← rawFrame? p
  let levelCm ← levelOf p raw
  let batteryMv ← batteryOf p raw
  let sensor ← sensorOf p raw
  return {
    sensor
    version := p.version.or (raw.map RawFrame.version)
    levelCm
    batteryMv
    readNo := p.readNo.or (raw.map RawFrame.readNo)
    lastSent := p.lastSent.or (raw.map RawFrame.lastSent)
    amp1 := p.amp1.or (raw.map RawFrame.amp)
    temp := p.temp.or (raw.map RawFrame.temp)
    raw }

def parse (codec : Codec) (payload : List UInt8) : Except ReadError Reading :=
  match codec.readPayload payload with
  | some p => ofPayload p
  | none => .error .invalidJson

def fitPoints (parseTs : String → Option ℤ) (t0 : ℤ) :
    List ReadingRecord → Option (List (ℚ × ℚ))
  | [] => some []
  | r :: rest => do
      let t ← parseTs r.ts
      let points ← fitPoints parseTs t0 rest
      return (nearest (ofInt (t - t0) / 86400), r.lvl) :: points

def mean (xs : List ℚ) : F64 := div (sum xs) (.fin (ofInt xs.length))

/-- The two sums of the fit, in the order in which the loop adds. -/
def fit (meanX meanY : F64) (points : List (ℚ × ℚ)) : F64 × F64 :=
  points.foldl
    (fun sums p =>
      let dx := sub (.fin p.1) meanX
      (add sums.1 (mul dx dx), add sums.2 (mul dx (sub (.fin p.2) meanY))))
    (.fin 0, .fin 0)

def daysLeft (parseTs : String → Option ℤ) (history : List ReadingRecord)
    (fullDist : ℚ) : Option ℤ :=
  if history.length < 2 then none
  else do
    let first ← history.head?
    let t0 ← parseTs first.ts
    let points ← fitPoints parseTs t0 history
    let meanX := mean (points.map Prod.fst)
    let meanY := mean (points.map Prod.snd)
    let sums := fit meanX meanY points
    if sums.1 = .fin 0 then none
    else
      let slope := div sums.2 sums.1
      let fillRate := neg slope
      if isNonpos fillRate then none
      else
        let current ← history.getLast?
        let days := div (sub (.fin current.lvl) (.fin fullDist)) fillRate
        return max days.roundToI64 0

def compute (reading : Reading) (calibration : Calibration) (battery : BatteryCurve)
    (statics : StaticFields) (lstRead : String) : SensorState :=
  let lvl := reading.levelCm
  { id := statics.sensorId
    name := statics.name
    lvl
    pct := pct calibration lvl
    bat := percent battery reading.batteryMv
    lstRead
    lstEmpty := statics.lstEmpty
    daysLeft := statics.daysLeft
    lvlToFull := lvlToFull calibration lvl
    «from» := statics.from }

def applyReading (parseTs : String → Option ℤ) (cfg : Config)
    (battery : BatteryCurve) (reading : Reading) (now : String)
    (rt : Runtime) : Runtime :=
  let newPct := pct cfg.calibration reading.levelCm
  let lstEmpty :=
    if isPumpOut rt.current.pct newPct cfg.pumpOutDropPct then now else rt.lstEmpty
  let record : ReadingRecord :=
    ⟨now, reading.levelCm, percent battery reading.batteryMv⟩
  let history := trimHistory cfg.historyMaxLen (rt.history ++ [record])
  let daysLeft :=
    (daysLeft parseTs history cfg.calibration.fullDist).getD rt.current.daysLeft
  { current := compute reading cfg.calibration battery
      (statics cfg lstEmpty daysLeft) now
    history
    lstEmpty }

variable (codec : Codec) (cfg : Config)

def handleRead (topics : Topics) (battery : BatteryCurve) (reading : Reading)
    (now : String) (saved : Bool) (s : Server) : Server × List Request :=
  let rt := applyReading codec.parseTs cfg battery reading now s.rt
  (⟨rt, persist cfg rt saved s.disk⟩, [publishState codec topics rt.current])

def handlePublish (topics : Topics) (battery : BatteryCurve) (topic : String)
    (payload : List UInt8) (now : String) (saved : Bool) (s : Server) :
    Server × List Request :=
  if topic = topics.read then
    match parse codec payload with
    | .ok reading => handleRead codec cfg topics battery reading now saved s
    | .error _ => (s, [])
  else Aquilo.handlePublish codec cfg topics battery topic payload now saved s

/-- One turn of the loop; only a reading needs arithmetic. -/
def handleEvent (s : Server) (e : Event) : Server × List Request :=
  match e with
  | .publish topic payload now saved =>
      handlePublish codec cfg (Topics.new cfg.receiverId) BatteryCurve.default topic
        payload now saved s
  | e => Aquilo.handleEvent codec cfg s e

def afterEvents (s : Server) (events : List Event) : Server :=
  events.foldl (fun s e => (handleEvent codec cfg s e).1) s

/-- The configuration as its fields hold it. -/
def config (cfg : Config) : Config :=
  { cfg with
    calibration := calibration cfg.calibration
    state := { cfg.state with lvl := nearest cfg.state.lvl } }

end Model

end BinaryServe

open BinaryServe

section Readings

/-- A reading whose level is rounded to binary64. -/
def Reading.binary (r : Reading) : Reading := { r with levelCm := nearest r.levelCm }

theorem levelOf_cases {p : ReadPayload} {raw : Option RawFrame} {level : ℚ}
    (h : levelOf p raw = .ok level) :
    Hundredths level ∧
      (|level| ≤ 10 ^ 13 → BinaryServe.levelOf p raw = .ok (nearest level)) := by
  have hkept : ∀ (n : ℤ) (d : ℚ), 0 < d → d ≤ 100 → |(n : ℚ) / d| ≤ 10 ^ 13 →
      ofInt n = n := by
    intro n d hd hle hbound
    rw [abs_div, abs_of_pos hd, div_le_iff₀ hd] at hbound
    have hn : |(n : ℚ)| < 2 ^ 53 := by
      calc |(n : ℚ)| ≤ 10 ^ 13 * d := hbound
        _ ≤ 10 ^ 13 * 100 := by gcongr
        _ < 2 ^ 53 := by norm_num
    exact ofInt_eq (by exact_mod_cast hn)
  cases hread : p.read1 with
  | some read1 =>
      simp only [levelOf, BinaryServe.levelOf, hread, Except.ok.injEq] at h ⊢
      refine ⟨⟨read1, h.symm⟩, fun hbound => ?_⟩
      rw [← h] at hbound ⊢
      rw [hkept read1 100 (by norm_num) le_rfl hbound]
  | none =>
      cases raw with
      | none => simp [levelOf, hread] at h
      | some frame =>
          simp only [levelOf, BinaryServe.levelOf, hread, Except.ok.injEq] at h ⊢
          refine ⟨⟨10 * frame.levelMm, ?_⟩, fun hbound => ?_⟩
          · rw [← h]
            push_cast
            ring
          · rw [← h] at hbound ⊢
            rw [hkept frame.levelMm 10 (by norm_num) (by norm_num) hbound]

theorem levelOf_ok_iff {p : ReadPayload} {raw : Option RawFrame} :
    (∃ level, levelOf p raw = .ok level) ↔
      ∃ level, BinaryServe.levelOf p raw = .ok level := by
  cases hread : p.read1 with
  | some read1 => simp [levelOf, BinaryServe.levelOf, hread]
  | none => cases raw <;> simp [levelOf, BinaryServe.levelOf, hread]

theorem ofPayload_ok {p : ReadPayload} {r : Reading} (h : Reading.ofPayload p = .ok r) :
    Hundredths r.levelCm ∧
      (|r.levelCm| ≤ 10 ^ 13 → BinaryServe.ofPayload p = .ok r.binary) := by
  obtain ⟨raw, hraw, h⟩ := bind_eq_ok h
  obtain ⟨level, hlevel, h⟩ := bind_eq_ok h
  obtain ⟨battery, hbattery, h⟩ := bind_eq_ok h
  obtain ⟨sensor, hsensor, h⟩ := bind_eq_ok h
  cases h
  obtain ⟨hhundredths, hbinary⟩ := levelOf_cases hlevel
  refine ⟨hhundredths, fun hbound => ?_⟩
  simp only [BinaryServe.ofPayload, hraw, bind, Except.bind, hbinary hbound, hbattery,
    hsensor]
  rfl

theorem ofPayload_of_binary {p : ReadPayload} {r : Reading}
    (h : BinaryServe.ofPayload p = .ok r) : ∃ r', Reading.ofPayload p = .ok r' := by
  obtain ⟨raw, hraw, h⟩ := bind_eq_ok h
  obtain ⟨level, hlevel, h⟩ := bind_eq_ok h
  obtain ⟨battery, hbattery, h⟩ := bind_eq_ok h
  obtain ⟨sensor, hsensor, h⟩ := bind_eq_ok h
  obtain ⟨level', hlevel'⟩ := levelOf_ok_iff.mpr ⟨level, hlevel⟩
  simp only [Reading.ofPayload, hraw, bind, Except.bind, hlevel', hbattery, hsensor]
  exact ⟨_, rfl⟩

variable {codec : Codec} {payload : List UInt8}

theorem parse_ok {r : Reading} (h : Reading.parse codec payload = .ok r) :
    Hundredths r.levelCm ∧
      (|r.levelCm| ≤ 10 ^ 13 → BinaryServe.parse codec payload = .ok r.binary) := by
  rw [Reading.parse] at h
  rw [BinaryServe.parse]
  cases hread : codec.readPayload payload with
  | none => simp [hread] at h
  | some p =>
      rw [hread] at h
      exact ofPayload_ok h

theorem parse_error {e : ReadError} (h : Reading.parse codec payload = .error e) :
    ∃ e', BinaryServe.parse codec payload = .error e' := by
  rw [Reading.parse] at h
  rw [BinaryServe.parse]
  cases hread : codec.readPayload payload with
  | none => exact ⟨_, rfl⟩
  | some p =>
      rw [hread] at h
      dsimp only at h ⊢
      cases hbinary : BinaryServe.ofPayload p with
      | error e' => exact ⟨e', rfl⟩
      | ok r =>
          obtain ⟨r', hr'⟩ := ofPayload_of_binary hbinary
          rw [hr'] at h
          cases h

end Readings

/-- No exact figure of a level lies halfway between two whole numbers, a distance
to full that is a whole one apart. -/
structure Undisputed (cal : Calibration) (levelCm : ℚ) : Prop where
  bound : |levelCm| ≤ 10 ^ 13
  pct : ¬ Halfway (cal.exactPct levelCm)
  lvlToFull : (∃ n : ℤ, cal.fullDist = n) ∨ ¬ Halfway (levelCm - cal.fullDist)

/-- The same state but for the rounding of the level and for the projection. -/
def SensorState.Rounds (exact binary : SensorState) : Prop :=
  ∃ daysLeft, binary = { exact with lvl := nearest exact.lvl, daysLeft }

def ReadingRecord.binary (r : ReadingRecord) : ReadingRecord :=
  { r with lvl := nearest r.lvl }

structure Runtime.Rounds (exact binary : Runtime) : Prop where
  current : exact.current.Rounds binary.current
  history : binary.history = exact.history.map ReadingRecord.binary
  lstEmpty : binary.lstEmpty = exact.lstEmpty

section Run

variable {codec : Codec} {cfg : Config}

theorem trimHistory_map (f : ReadingRecord → ReadingRecord) (maxLen : ℕ)
    (history : List ReadingRecord) :
    trimHistory maxLen (history.map f) = (trimHistory maxLen history).map f := by
  rw [trimHistory, trimHistory, List.length_map]
  split_ifs with hlong
  · rw [List.map_drop]
  · rfl

theorem compute_rounds (hcal : cfg.calibration.Measured) {r : Reading}
    (hlevel : Hundredths r.levelCm) (hties : Undisputed cfg.calibration r.levelCm)
    (lstEmpty : String) (days days' : ℤ) (now : String) :
    (SensorState.compute r cfg.calibration BatteryCurve.default
      (statics cfg lstEmpty days) now).Rounds
      (compute r.binary (calibration cfg.calibration) BatteryCurve.default
        (statics cfg lstEmpty days') now) := by
  have hpct := pct_eq hcal hlevel hties.bound hties.pct
  have hfull := lvlToFull_eq hcal hlevel hties.bound hties.lvlToFull
  have hbat := percent_eq r.batteryMv
  refine ⟨days', ?_⟩
  simp only [compute, Reading.binary, hpct, hfull, hbat]
  rfl

theorem Runtime.Rounds.applyReading (hcal : cfg.calibration.Measured) {rt rt' : Runtime}
    (h : rt.Rounds rt') {r : Reading} (hlevel : Hundredths r.levelCm)
    (hties : Undisputed cfg.calibration r.levelCm) (now : String) :
    (rt.applyReading codec.parseTs cfg BatteryCurve.default r now).Rounds
      (BinaryServe.applyReading codec.parseTs (BinaryServe.config cfg)
        BatteryCurve.default r.binary now rt') := by
  have hpct := pct_eq hcal hlevel hties.bound hties.pct
  have hbat := percent_eq r.batteryMv
  obtain ⟨days, hcurrent⟩ := h.current
  have hprev : rt'.current.pct = rt.current.pct := by rw [hcurrent]
  have hempty : (BinaryServe.applyReading codec.parseTs (BinaryServe.config cfg)
      BatteryCurve.default r.binary now rt').lstEmpty =
      (rt.applyReading codec.parseTs cfg BatteryCurve.default r now).lstEmpty := by
    simp only [BinaryServe.applyReading, BinaryServe.config, Reading.binary, hpct,
      hprev, h.lstEmpty, applyReading_lstEmpty, detectsPumpOut]
    rfl
  have hrecord : ⟨now, nearest r.levelCm,
      BinaryServe.percent BatteryCurve.default r.batteryMv⟩ =
        (record BatteryCurve.default r now).binary := by
    rw [hbat]
    rfl
  constructor
  · change SensorState.Rounds _ (compute r.binary (calibration cfg.calibration)
      BatteryCurve.default (statics cfg (BinaryServe.applyReading codec.parseTs
        (BinaryServe.config cfg) BatteryCurve.default r.binary now rt').lstEmpty _) now)
    rw [hempty]
    exact compute_rounds hcal hlevel hties _ _ _ now
  · simp only [BinaryServe.applyReading, BinaryServe.config, Reading.binary, hrecord,
      h.history, applyReading_history, ← List.map_singleton, ← List.map_append,
      trimHistory_map]
  · exact hempty

theorem hundredths_of_accepted {e : Event} {r : Stamped}
    (h : acceptedReading codec cfg e = some r) : Hundredths r.1.levelCm := by
  cases e with
  | publish topic payload now saved =>
      rw [acceptedReading, Option.ite_none_right_eq_some] at h
      obtain ⟨-, h⟩ := h
      cases hparse : Reading.parse codec payload with
      | error err => simp [hparse, Except.toOption] at h
      | ok reading =>
          obtain rfl : (reading, now) = r := by
            simpa [hparse, Except.toOption] using h
          exact (parse_ok hparse).1
  | _ => cases h

/-- An event changes the runtime by the reading it brings, rounded. -/
theorem handleEvent_binary_rt (t : Server) {e : Event}
    (hbound : ∀ r, acceptedReading codec cfg e = some r → |r.1.levelCm| ≤ 10 ^ 13) :
    (BinaryServe.handleEvent codec (BinaryServe.config cfg) t e).1.rt =
      (acceptedReading codec cfg e).elim t.rt fun r =>
        BinaryServe.applyReading codec.parseTs (BinaryServe.config cfg)
          BatteryCurve.default r.1.binary r.2 t.rt := by
  cases e with
  | connAck => rfl
  | other => rfl
  | error => rfl
  | ping => rfl
  | publish topic payload now saved =>
      have htopics : Topics.new (BinaryServe.config cfg).receiverId =
          Topics.new cfg.receiverId := rfl
      rw [BinaryServe.handleEvent, BinaryServe.handlePublish, htopics]
      by_cases hread : topic = (Topics.new cfg.receiverId).read
      · rw [if_pos hread]
        cases hparse : Reading.parse codec payload with
        | error err =>
            obtain ⟨err', hbinary⟩ := parse_error hparse
            have hnone : acceptedReading codec cfg
                (.publish topic payload now saved) = none := by
              rw [acceptedReading, if_pos hread, hparse]
              rfl
            rw [hnone, hbinary, Option.elim_none]
        | ok r =>
            have haccepted : acceptedReading codec cfg
                (.publish topic payload now saved) = some (r, now) := by
              rw [acceptedReading, if_pos hread, hparse]
              rfl
            have hlevel : |r.levelCm| ≤ 10 ^ 13 := hbound (r, now) haccepted
            rw [haccepted, (parse_ok hparse).2 hlevel, Option.elim_some]
            rfl
      · -- the other topics bring no reading
        have hexact : acceptedReading codec cfg
            (.publish topic payload now saved) = none := if_neg hread
        have hbinary : acceptedReading codec (BinaryServe.config cfg)
            (.publish topic payload now saved) = none := if_neg hread
        have hkept := handleEvent_of_not_accepted t hbinary
        rw [handleEvent, htopics] at hkept
        rw [if_neg hread, hexact, hkept, Option.elim_none]

theorem handleEvent_rounds (hcal : cfg.calibration.Measured) {s t : Server}
    (h : s.rt.Rounds t.rt) {e : Event}
    (hties : ∀ r, acceptedReading codec cfg e = some r →
      Undisputed cfg.calibration r.1.levelCm) :
    (handleEvent codec cfg s e).1.rt.Rounds
      (BinaryServe.handleEvent codec (BinaryServe.config cfg) t e).1.rt := by
  rw [Client.handleEvent_rt, handleEvent_binary_rt t fun r hr => (hties r hr).bound]
  cases hread : acceptedReading codec cfg e with
  | none => exact h
  | some r =>
      exact h.applyReading hcal (hundredths_of_accepted hread) (hties r hread) r.2

end Run

/-- In whole millimetres no percentage of the program's own calibration is halfway. -/
theorem default_undisputed {n : ℤ} (hn : |n| ≤ 10 ^ 14) :
    Undisputed Calibration.default (n / 10) where
  bound := by
    have hn' : |(n : ℚ)| ≤ 10 ^ 14 := by exact_mod_cast hn
    rw [abs_div, abs_of_pos (show (0 : ℚ) < 10 by norm_num), div_le_iff₀ (by norm_num)]
    norm_num at hn' ⊢
    exact hn'
  pct := by
    rintro ⟨m, hm⟩
    rw [Calibration.exactPct, Calibration.default, Calibration.defaultEmptyDist,
      Calibration.defaultFullDist] at hm
    have hcast : ((10 * (1780 - n) : ℤ) : ℚ) = ((69 * (2 * m + 1) : ℤ) : ℚ) := by
      push_cast
      linarith
    have hint := Int.cast_injective hcast
    omega
  lvlToFull := Or.inl ⟨40, rfl⟩

/-- Rounding keeps levels in hundredths apart. -/
theorem nearest_injOn {x y : ℚ} (hx : Hundredths x) (hy : Hundredths y)
    (hx_le : |x| ≤ 10 ^ 13) (hy_le : |y| ≤ 10 ^ 13) (h : nearest x = nearest y) :
    x = y := by
  obtain ⟨j, rfl⟩ := hx
  obtain ⟨k, rfl⟩ := hy
  have hj := abs_nearest_sub_le ((j : ℚ) / 100)
  have hk := abs_nearest_sub_le ((k : ℚ) / 100)
  have hulp : ∀ z : ℚ, |z| ≤ 10 ^ 13 → (|z| + 1) * ulp ≤ 2 / 1000 := by
    intro z hz
    calc (|z| + 1) * ulp ≤ (10 ^ 13 + 1) * (12 / 10 ^ 17) :=
          mul_le_mul (by linarith) (by norm_num [ulp]) (by norm_num [ulp]) (by norm_num)
      _ ≤ 2 / 1000 := by norm_num
  -- both are within 2/1000 of the same number
  obtain ⟨hj_low, hj_high⟩ := abs_le.mp (hj.trans (hulp _ hx_le))
  obtain ⟨hk_low, hk_high⟩ := abs_le.mp (hk.trans (hulp _ hy_le))
  rw [h] at hj_low hj_high
  have hlt : (j : ℚ) < k + 1 := by linarith
  have hgt : (k : ℚ) < j + 1 := by linarith
  have hlt' : j < k + 1 := by exact_mod_cast hlt
  have hgt' : k < j + 1 := by exact_mod_cast hgt
  rw [show j = k by omega]

/-- Binary rounding in the serve loop.  From states that match, over any events
whose readings have no figure halfway between two whole numbers, every published
percentage, distance and pump-out is that of exact arithmetic; with the program's
own calibration no reading in whole millimetres has such a figure; a percentage is
never off by more than one; and no two levels are rounded to one. -/
theorem binary_serve_rounds (codec : Codec) (cfg : Config)
    (hcal : cfg.calibration.Measured) :
    (∀ (s t : Server) (events : List Event), s.rt.Rounds t.rt →
      (∀ e ∈ events, ∀ r, acceptedReading codec cfg e = some r →
        Undisputed cfg.calibration r.1.levelCm) →
      (afterEvents codec cfg s events).rt.Rounds
        (BinaryServe.afterEvents codec (BinaryServe.config cfg) t events).rt) ∧
      (∀ n : ℤ, |n| ≤ 10 ^ 14 → Undisputed Calibration.default (n / 10)) ∧
      (∀ levelCm : ℚ, |levelCm| ≤ 10 ^ 13 →
        |BinaryServe.pct (calibration cfg.calibration) (nearest levelCm) -
          cfg.calibration.pct levelCm| ≤ 1) ∧
      ∀ x y : ℚ, Hundredths x → Hundredths y → |x| ≤ 10 ^ 13 → |y| ≤ 10 ^ 13 →
        nearest x = nearest y → x = y := by
  refine ⟨?_, fun n hn => ?_, fun levelCm hbound => pct_within_one hcal hbound,
    fun x y => nearest_injOn⟩
  · intro s t events h hties
    induction events using List.reverseRecOn with
    | nil => exact h
    | append_singleton pre e ih =>
        have hpre := ih fun e' he' => hties e' (List.mem_append_left _ he')
        have he := hties e (List.mem_append_right _ List.mem_cons_self)
        rw [afterEvents_concat, BinaryServe.afterEvents, List.foldl_concat]
        exact handleEvent_rounds hcal hpre he
  · exact default_undisputed hn

namespace Sample

theorem config_measured : config.calibration.Measured where
  full := ⟨4000, by decide +kernel⟩
  empty := ⟨17800, by decide +kernel⟩
  full_le := by decide +kernel
  empty_le := by decide +kernel
  span := by decide +kernel

def startedOn (cfg : Config) : Server :=
  Server.start cfg (.ok none) "2026-06-10T20:00:00+02:00" true

theorem oneReading_level : ∀ e ∈ oneReading, ∀ r,
    acceptedReading printingCodec config e = some r → r.1.levelCm = ((1528 : ℤ) : ℚ) / 10 := by
  have hall : oneReading.all (fun e =>
      ((acceptedReading printingCodec config e).map fun r => r.1.levelCm).all
        (· = ((1528 : ℤ) : ℚ) / 10)) = true := by decide +kernel
  intro e he r hr
  have hlevel := List.all_eq_true.mp hall e he
  simpa [hr] using hlevel

end Sample

open Sample in
/-- The captured reading. -/
theorem oneReading_rounds :
    let exact := afterEvents printingCodec config (startedOn config) oneReading
    let binary := BinaryServe.afterEvents printingCodec (BinaryServe.config config)
      (startedOn (BinaryServe.config config)) oneReading
    binary.rt.current.pct = exact.rt.current.pct ∧
      binary.rt.current.lvlToFull = exact.rt.current.lvlToFull ∧
      exact.rt.current.pct = 18 ∧ exact.rt.current.lvlToFull = 113 := by
  intro exact binary
  obtain ⟨hrun, hmillimetres, -, -⟩ :=
    binary_serve_rounds printingCodec config config_measured
  have hties : ∀ e ∈ oneReading, ∀ r, acceptedReading printingCodec config e = some r →
      Undisputed config.calibration r.1.levelCm := by
    intro e he r hr
    rw [oneReading_level e he r hr]
    exact hmillimetres 1528 (by decide)
  obtain ⟨days, hdays⟩ := (hrun (startedOn config) (startedOn (BinaryServe.config config))
    oneReading ⟨⟨_, rfl⟩, rfl, rfl⟩ hties).current
  refine ⟨by rw [hdays], by rw [hdays], ?_, ?_⟩
  · decide +kernel
  · decide +kernel

/-- In hundredths of a centimetre a level can be halfway, and is then off by one. -/
example : Calibration.default.pct (17731 / 100) = 1 ∧
    BinaryServe.pct (calibration Calibration.default) (nearest (17731 / 100)) = 0 := by
  decide +kernel

end Aquilo
