/-
The configuration file: how it is loaded, and what the onboarding modes write
into it.
-/
import Aquilo.Config
import Aquilo.Onboard
import Aquilo.TomlTemplate

namespace Aquilo

open DecimalText ExactFloat

/-- The types of a configuration's fields, read from a value. -/
def asStr : Toml.Value → Option String
  | .str s => some (String.ofList s)
  | .num _ => none

/-- An integer within the bounds of its type. -/
def asIntWithin (lo hi : ℤ) : Toml.Value → Option ℤ
  | .num (.int n) => if lo ≤ n ∧ n ≤ hi then some n else none
  | _ => none

def asI64 : Toml.Value → Option ℤ := asIntWithin i64Min i64Max

def asU16 (v : Toml.Value) : Option ℕ := (asIntWithin 0 65535 v).map Int.toNat

/-- Wider unsigned fields: every integer of a document is a signed one. -/
def asU64 (v : Toml.Value) : Option ℕ := (asIntWithin 0 i64Max v).map Int.toNat

def asF64 : Toml.Value → Option ℚ
  | .num (.int n) => some n
  | .num (.float q) => some q
  | .str _ => none

section Fields

variable {α : Type} (d : Toml.Document) (table : String)

def required (read : Toml.Value → Option α) (key : String) : Option α :=
  (d.find table.toList key.toList).bind read

/-- A field that is absent has its default; one of another type is an error. -/
def defaulted (read : Toml.Value → Option α) (default : α) (key : String) :
    Option α :=
  match d.find table.toList key.toList with
  | some v => read v
  | none => some default

/-- A field that is itself a table. -/
def nested (read : Option α) (default : α) : Option α :=
  if (d.find [] table.toList).isSome then none
  else if table.toList ∈ d.tables then read
  else some default

variable {d table} {read : Toml.Value → Option α} {key : String}

theorem required_of_find {v : Toml.Value} {a : α}
    (h : d.find table.toList key.toList = some v) (hread : read v = some a) :
    required d table read key = some a := by
  rw [required, h, Option.bind_some, hread]

theorem defaulted_of_find {v : Toml.Value} {a default : α}
    (h : d.find table.toList key.toList = some v) (hread : read v = some a) :
    defaulted d table read default key = some a := by
  rw [defaulted, h]
  exact hread

theorem nested_of_mem {a default : α} {r : Option α}
    (hroot : d.find [] table.toList = none) (htable : table.toList ∈ d.tables)
    (hr : r = some a) : nested d table r default = some a := by
  rw [nested, hroot, if_neg (by simp), if_pos htable, hr]

theorem nested_of_not_mem {a : α} {r : Option α}
    (hroot : d.find [] table.toList = none) (htable : table.toList ∉ d.tables) :
    nested d table r a = some a := by
  rw [nested, hroot, if_neg (by simp), if_neg htable]

/-- A table that has a header is read from its entries. -/
theorem eq_of_nested {a default : α} {r : Option α}
    (h : nested d table r default = some a) (htable : table.toList ∈ d.tables) :
    r = some a := by
  rw [nested, if_pos htable] at h
  split at h
  · cases h
  · exact h

end Fields

theorem asStr_toList (s : String) : asStr (.str s.toList) = some s := by
  rw [asStr, String.ofList_toList]

theorem asStr_eq_some {v : Toml.Value} {s : String} (h : asStr v = some s) :
    v = .str s.toList := by
  cases v with
  | str t =>
      cases h
      rw [String.toList_ofList]
  | num n => cases h

theorem asI64_int {n : ℤ} (h : InI64 n) : asI64 (.num (.int n)) = some n :=
  if_pos h

/-- What a string field was read from. -/
theorem eq_str_of_required {d : Toml.Document} {table key s : String}
    (h : required d table asStr key = some s) {v : Toml.Value}
    (hv : d.find table.toList key.toList = some v) : v = .str s.toList := by
  rw [required, hv] at h
  exact asStr_eq_some h

theorem eq_str_of_defaulted {d : Toml.Document} {table key s default : String}
    (h : defaulted d table asStr default key = some s) {v : Toml.Value}
    (hv : d.find table.toList key.toList = some v) : v = .str s.toList := by
  rw [defaulted, hv] at h
  exact asStr_eq_some h

def Calibration.ofDocument (d : Toml.Document) : Option Calibration := do
  let fullDist ← defaulted d "calibration" asF64 defaultFullDist "full_dist"
  let emptyDist ← defaulted d "calibration" asF64 defaultEmptyDist "empty_dist"
  return { fullDist, emptyDist }

def BrokerSettings.ofDocument (d : Toml.Document) : Option BrokerSettings := do
  let host ← required d "broker" asStr "host"
  let port ← defaulted d "broker" asU16 Defaults.listenPort "port"
  let username ← required d "broker" asStr "username"
  let password ← required d "broker" asStr "password"
  return { host, port, username, password }

def StateSeed.ofDocument (d : Toml.Document) : Option StateSeed := do
  let lvl ← defaulted d "state" asF64 Defaults.seedLvl "lvl"
  let pct ← defaulted d "state" asI64 Defaults.seedPct "pct"
  let bat ← defaulted d "state" asI64 Defaults.seedBat "bat"
  let daysLeft ← defaulted d "state" asI64 0 "days_left"
  let lvlToFull ← defaulted d "state" asI64 Defaults.seedLvlToFull "lvl_to_full"
  let lstEmpty ← defaulted d "state" asStr "" "lst_empty"
  let from' ← defaulted d "state" asStr Defaults.from "from"
  return { lvl, pct, bat, daysLeft, lvlToFull, lstEmpty, «from» := from' }

def Config.ofDocument (d : Toml.Document) : Option Config := do
  let receiverId ← required d "" asStr "receiver_id"
  let sensorId ← required d "" asStr "sensor_id"
  let mqttUser ← required d "" asStr "mqtt_user"
  let mqttPass ← required d "" asStr "mqtt_pass"
  let firmwareVersion ← required d "" asStr "firmware_version"
  let sensorName ← required d "" asStr "sensor_name"
  let radarSkip ← defaulted d "" asI64 Defaults.radarSkip "radar_skip"
  let radarRepeat ← defaulted d "" asI64 Defaults.radarRepeat "radar_repeat"
  let bindAddr ← defaulted d "" asStr Defaults.bindAddr "bind_addr"
  let listenPort ← defaulted d "" asU16 Defaults.listenPort "listen_port"
  let pingIntervalSecs ←
    defaulted d "" asU64 Defaults.pingIntervalSecs "ping_interval_secs"
  let dataDir ← defaulted d "" asStr Defaults.dataDir "data_dir"
  let historyMaxLen ←
    defaulted d "" asU64 Defaults.historyMaxLen "history_max_len"
  let pumpOutDropPct ←
    defaulted d "" asI64 Defaults.pumpOutDropPct "pump_out_drop_pct"
  let calibration ←
    nested d "calibration" (Calibration.ofDocument d) Calibration.default
  let broker ← nested d "broker" ((BrokerSettings.ofDocument d).map some) none
  let state ← nested d "state" (StateSeed.ofDocument d) StateSeed.default
  return {
    receiverId, sensorId, mqttUser, mqttPass, firmwareVersion, sensorName,
    radarSkip, radarRepeat, bindAddr, listenPort, pingIntervalSecs, dataDir,
    historyMaxLen, pumpOutDropPct, calibration, broker, state }

theorem Config.ofDocument_eq_some_iff {d : Toml.Document} {c : Config} :
    Config.ofDocument d = some c ↔
      required d "" asStr "receiver_id" = some c.receiverId ∧
      required d "" asStr "sensor_id" = some c.sensorId ∧
      required d "" asStr "mqtt_user" = some c.mqttUser ∧
      required d "" asStr "mqtt_pass" = some c.mqttPass ∧
      required d "" asStr "firmware_version" = some c.firmwareVersion ∧
      required d "" asStr "sensor_name" = some c.sensorName ∧
      defaulted d "" asI64 Defaults.radarSkip "radar_skip" = some c.radarSkip ∧
      defaulted d "" asI64 Defaults.radarRepeat "radar_repeat" =
        some c.radarRepeat ∧
      defaulted d "" asStr Defaults.bindAddr "bind_addr" = some c.bindAddr ∧
      defaulted d "" asU16 Defaults.listenPort "listen_port" =
        some c.listenPort ∧
      defaulted d "" asU64 Defaults.pingIntervalSecs "ping_interval_secs" =
        some c.pingIntervalSecs ∧
      defaulted d "" asStr Defaults.dataDir "data_dir" = some c.dataDir ∧
      defaulted d "" asU64 Defaults.historyMaxLen "history_max_len" =
        some c.historyMaxLen ∧
      defaulted d "" asI64 Defaults.pumpOutDropPct "pump_out_drop_pct" =
        some c.pumpOutDropPct ∧
      nested d "calibration" (Calibration.ofDocument d) Calibration.default =
        some c.calibration ∧
      nested d "broker" ((BrokerSettings.ofDocument d).map some) none =
        some c.broker ∧
      nested d "state" (StateSeed.ofDocument d) StateSeed.default =
        some c.state := by
  constructor
  · intro h
    obtain ⟨_, hrid, h⟩ := Option.bind_eq_some_iff.mp h
    obtain ⟨_, hsid, h⟩ := Option.bind_eq_some_iff.mp h
    obtain ⟨_, huser, h⟩ := Option.bind_eq_some_iff.mp h
    obtain ⟨_, hpass, h⟩ := Option.bind_eq_some_iff.mp h
    obtain ⟨_, hfw, h⟩ := Option.bind_eq_some_iff.mp h
    obtain ⟨_, hname, h⟩ := Option.bind_eq_some_iff.mp h
    obtain ⟨_, hskip, h⟩ := Option.bind_eq_some_iff.mp h
    obtain ⟨_, hrep, h⟩ := Option.bind_eq_some_iff.mp h
    obtain ⟨_, hbind, h⟩ := Option.bind_eq_some_iff.mp h
    obtain ⟨_, hport, h⟩ := Option.bind_eq_some_iff.mp h
    obtain ⟨_, hping, h⟩ := Option.bind_eq_some_iff.mp h
    obtain ⟨_, hdir, h⟩ := Option.bind_eq_some_iff.mp h
    obtain ⟨_, hlen, h⟩ := Option.bind_eq_some_iff.mp h
    obtain ⟨_, hdrop, h⟩ := Option.bind_eq_some_iff.mp h
    obtain ⟨_, hcal, h⟩ := Option.bind_eq_some_iff.mp h
    obtain ⟨_, hbroker, h⟩ := Option.bind_eq_some_iff.mp h
    obtain ⟨_, hstate, h⟩ := Option.bind_eq_some_iff.mp h
    cases h
    exact ⟨hrid, hsid, huser, hpass, hfw, hname, hskip, hrep, hbind, hport, hping,
      hdir, hlen, hdrop, hcal, hbroker, hstate⟩
  · rintro ⟨hrid, hsid, huser, hpass, hfw, hname, hskip, hrep, hbind, hport, hping,
    hdir, hlen, hdrop, hcal, hbroker, hstate⟩
    simp only [Config.ofDocument, hrid, hsid, huser, hpass, hfw, hname, hskip, hrep,
      hbind, hport, hping, hdir, hlen, hdrop, hcal, hbroker, hstate,
      Option.bind_eq_bind, Option.bind_some]
    rfl

theorem StateSeed.ofDocument_eq_some_iff {d : Toml.Document} {s : StateSeed} :
    StateSeed.ofDocument d = some s ↔
      defaulted d "state" asF64 Defaults.seedLvl "lvl" = some s.lvl ∧
      defaulted d "state" asI64 Defaults.seedPct "pct" = some s.pct ∧
      defaulted d "state" asI64 Defaults.seedBat "bat" = some s.bat ∧
      defaulted d "state" asI64 0 "days_left" = some s.daysLeft ∧
      defaulted d "state" asI64 Defaults.seedLvlToFull "lvl_to_full" =
        some s.lvlToFull ∧
      defaulted d "state" asStr "" "lst_empty" = some s.lstEmpty ∧
      defaulted d "state" asStr Defaults.from "from" = some s.from := by
  constructor
  · intro h
    obtain ⟨_, hlvl, h⟩ := Option.bind_eq_some_iff.mp h
    obtain ⟨_, hpct, h⟩ := Option.bind_eq_some_iff.mp h
    obtain ⟨_, hbat, h⟩ := Option.bind_eq_some_iff.mp h
    obtain ⟨_, hdays, h⟩ := Option.bind_eq_some_iff.mp h
    obtain ⟨_, hfull, h⟩ := Option.bind_eq_some_iff.mp h
    obtain ⟨_, hempty, h⟩ := Option.bind_eq_some_iff.mp h
    obtain ⟨_, hnode, h⟩ := Option.bind_eq_some_iff.mp h
    cases h
    exact ⟨hlvl, hpct, hbat, hdays, hfull, hempty, hnode⟩
  · rintro ⟨hlvl, hpct, hbat, hdays, hfull, hempty, hnode⟩
    simp only [StateSeed.ofDocument, hlvl, hpct, hbat, hdays, hfull, hempty, hnode,
      Option.bind_eq_bind, Option.bind_some]
    rfl

/-- What `Config::load` makes of a file's text. -/
def Config.parse (text : String) : Option Config :=
  (Toml.parse text.toList).bind Config.ofDocument

namespace GeneratedConfig

def comment (text : String) : Toml.Item := .comment text.toList

def header (table : String) : Toml.Item := .header table.toList

/-- A string between quotes, as it is. -/
def spliced (key value : String) : Toml.Item := .str key.toList value.toList

def integer (key : String) (n : ℤ) : Toml.Item :=
  .num key.toList (intText n) (.int n)

def float (key : String) (q : ℚ) : Toml.Item :=
  .num key.toList (floatText q) (.float q)

/-- The lines of the generated file. -/
def lines (g : GeneratedConfig) : List Toml.Item :=
  [ comment " Generated by aquilo-server onboarding — recovered from your live device.",
    comment " All topics derive from receiver_id; the firmware came from the device's own",
    comment " /log announcement. Calibration is the documented default (40/178); adjust",
    comment " full_dist/empty_dist if pct/lvlToFull don't match your tank.",
    .blank,
    spliced "receiver_id" g.receiverId,
    spliced "sensor_id" g.sensorId,
    spliced "mqtt_user" g.mqttUser,
    spliced "mqtt_pass" g.mqttPass,
    spliced "firmware_version" g.firmwareVersion,
    spliced "sensor_name" g.sensorName,
    .blank,
    integer "radar_skip" g.radarSkip,
    integer "radar_repeat" g.radarRepeat,
    .blank,
    spliced "bind_addr" "0.0.0.0",
    integer "listen_port" 1883,
    integer "ping_interval_secs" 1200,
    .blank,
    spliced "data_dir" g.dataDir,
    integer "history_max_len" 500,
    integer "pump_out_drop_pct" 25,
    .blank,
    header "calibration",
    float "full_dist" g.calibration.fullDist,
    float "empty_dist" g.calibration.emptyDist,
    .blank,
    header "state",
    float "lvl" g.seed.lvl,
    integer "pct" g.seed.pct,
    integer "bat" g.seed.bat,
    integer "days_left" g.seed.daysLeft,
    integer "lvl_to_full" g.seed.lvlToFull,
    spliced "lst_empty" g.seed.lstEmpty,
    spliced "from" g.seed.from ]

def text (g : GeneratedConfig) : String :=
  String.ofList (Toml.render g.lines)

/-- The configuration that the file is meant to hold. -/
def toConfig (g : GeneratedConfig) : Config where
  receiverId := g.receiverId
  sensorId := g.sensorId
  mqttUser := g.mqttUser
  mqttPass := g.mqttPass
  firmwareVersion := g.firmwareVersion
  sensorName := g.sensorName
  radarSkip := g.radarSkip
  radarRepeat := g.radarRepeat
  bindAddr := "0.0.0.0"
  listenPort := 1883
  pingIntervalSecs := 1200
  dataDir := g.dataDir
  historyMaxLen := 500
  pumpOutDropPct := 25
  calibration := g.calibration
  broker := none
  state :=
    { lvl := g.seed.lvl
      pct := g.seed.pct
      bat := g.seed.bat
      daysLeft := g.seed.daysLeft
      lvlToFull := g.seed.lvlToFull
      lstEmpty := g.seed.lstEmpty
      «from» := g.seed.from }

/-- The recovered strings that are spliced into the file. -/
def strings (g : GeneratedConfig) : List String :=
  [ g.receiverId, g.sensorId, g.mqttUser, g.mqttPass, g.firmwareVersion,
    g.sensorName, g.dataDir, g.seed.lstEmpty, g.seed.from ]

end GeneratedConfig

/-- The text of the generated configuration. -/
def renderConfig (facts : Facts) (opts : OnboardOptions) :
    Except String String :=
  (generatedConfig facts opts).map GeneratedConfig.text

end Aquilo
