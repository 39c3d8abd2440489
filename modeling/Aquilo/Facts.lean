/-
The facts the onboarding modes collect.  Each field is filled by whichever
message offers it first; `offer` functions say what a message offers.
-/
import Aquilo.Config
import Aquilo.Firmware
import Aquilo.FirstCome
import Aquilo.MqttWire
import Aquilo.Reading

namespace Aquilo

open RustStr

/-- The prefix the firmware puts in front of the receiver id. -/
def clientIdPrefix : String := "CieczSensor"

/-- The `/state` seed values. -/
structure Seed where
  lvl : ℚ
  pct : ℤ
  bat : ℤ
  daysLeft : ℤ
  lvlToFull : ℤ
  lstEmpty : String
  «from» : String
deriving DecidableEq, Repr

structure Facts where
  receiverId : Option String
  clientId : Option String
  mqttUser : Option String
  mqttPass : Option String
  firmware : Option String
  sensorId : Option String
  sensorName : Option String
  radarSkip : Option ℤ
  radarRepeat : Option ℤ
  seed : Option Seed
deriving DecidableEq, Repr

/-- A message that reaches the collector; a device publish comes with the
clock. -/
inductive Source where
  | deviceConnect (c : Connect)
  | devicePublish (topic : String) (payload : List UInt8) (now : String)
  | cloudPublish (topic : String) (payload : List UInt8)
deriving DecidableEq, Repr

namespace Facts

protected def default : Facts where
  receiverId := none
  clientId := none
  mqttUser := none
  mqttPass := none
  firmware := none
  sensorId := none
  sensorName := none
  radarSkip := none
  radarRepeat := none
  seed := none

/-- The receiver id a client id names. -/
def receiverOfClientId (clientId : String) : String :=
  (stripPrefix clientId clientIdPrefix).getD clientId

def applyDeviceConnect (f : Facts) (c : Connect) : Facts :=
  { f with
    clientId := f.clientId.or (some c.clientId)
    mqttUser := f.mqttUser.or c.username
    mqttPass := f.mqttPass.or c.password
    receiverId := (f.receiverId.or c.username).or
      (some (receiverOfClientId c.clientId)) }

/-- The seed computed from a reading: default calibration, no projection,
emptied now. -/
def seedOfReading (reading : Reading) (now : String) : Seed where
  lvl := reading.levelCm
  pct := Calibration.default.pct reading.levelCm
  bat := BatteryCurve.default.percent reading.batteryMv
  daysLeft := 0
  lvlToFull := Calibration.default.lvlToFull reading.levelCm
  lstEmpty := now
  «from» := "node-4"

section Codec

variable (codec : Codec)

def applyDevicePublish (f : Facts) (topic : String) (payload : List UInt8)
    (now : String) : Facts :=
  if endsWith topic "/log" then
    { f with firmware := f.firmware.or (firmwareFromLog codec payload) }
  else if endsWith topic "/read" then
    match Reading.parse codec payload with
    | .ok reading =>
        { f with
          sensorId := f.sensorId.or (some reading.sensor)
          sensorName := f.sensorName.or (some reading.sensor)
          seed := f.seed.or (some (seedOfReading reading now)) }
    | .error _ => f
  else f

/-- The first sensor of a `/state` value. -/
def stateSensor (v : Json) : Option Json := (v.index "sensors").item? 0

/-- The seed of a cloud state, missing fields read as zero or empty. -/
def seedOfState (v s : Json) : Seed where
  lvl := (s.index "lvl").asF64.getD 0
  pct := (s.index "pct").asI64.getD 0
  bat := (s.index "bat").asI64.getD 0
  daysLeft := (s.index "daysLeft").asI64.getD 0
  lvlToFull := (s.index "lvlToFull").asI64.getD 0
  lstEmpty := (s.index "lstEmpty").asStr.getD ""
  «from» := (v.index "from").asStr.getD "node-4"

def applyCloudState (f : Facts) (payload : List UInt8) : Facts :=
  match codec.jsonValue payload with
  | none => f
  | some v =>
      match stateSensor v with
      | none => f
      | some s =>
          { f with
            sensorId := f.sensorId.or (s.index "id").asStr
            sensorName := f.sensorName.or (s.index "name").asStr
            seed := f.seed.or (some (seedOfState v s)) }

/-- The version a cloud `/version` message carries; a blank one carries none. -/
def cloudVersion (payload : List UInt8) : Option String := do
  let s ← Utf8.fromUtf8 payload
  let s := trim s
  if s = "" then none else some s

/-- The sensor a `radarParams` value names, unless empty. -/
def radarSensor (v : Json) : Option String :=
  ((v.get? "sensor").bind Json.asStr).filter (· ≠ "")

def applyCloudPublish (f : Facts) (topic : String) (payload : List UInt8) :
    Facts :=
  if startsWith topic "/version/" then
    { f with firmware := f.firmware.or (cloudVersion payload) }
  else if endsWith topic "/state" then applyCloudState codec f payload
  else if endsWith topic "/radarParams" then
    match codec.jsonValue payload with
    | none => f
    | some v =>
        { f with
          sensorId := f.sensorId.or (radarSensor v)
          radarSkip := f.radarSkip.or ((v.get? "skip").bind Json.asI64)
          radarRepeat := f.radarRepeat.or ((v.get? "repeat").bind Json.asI64) }
  else f

def apply (f : Facts) : Source → Facts
  | .deviceConnect c => f.applyDeviceConnect c
  | .devicePublish topic payload now =>
      f.applyDevicePublish codec topic payload now
  | .cloudPublish topic payload => f.applyCloudPublish codec topic payload

/-- The facts collected from messages in their order of arrival. -/
def collect (sources : List Source) : Facts :=
  sources.foldl (apply codec) Facts.default

end Codec

/-- Everything a usable configuration needs has been recovered. -/
def isComplete (f : Facts) : Bool :=
  f.receiverId.isSome && f.mqttUser.isSome && f.mqttPass.isSome &&
    f.firmware.isSome && f.sensorId.isSome && f.seed.isSome

/-- What is still missing, in the order it is reported. -/
def missing (f : Facts) : List String :=
  (if f.receiverId.isNone then ["receiver_id"] else []) ++
  (if f.mqttUser.isNone then ["mqtt_user"] else []) ++
  (if f.mqttPass.isNone then ["mqtt_pass"] else []) ++
  (if f.firmware.isNone then ["firmware"] else []) ++
  (if f.sensorId.isNone then ["sensor_id"] else []) ++
  (if f.seed.isNone then ["state"] else [])

end Facts

/-- What one message offers to the fields a publish can fill. -/
structure Offer where
  firmware : Option String := none
  sensorId : Option String := none
  sensorName : Option String := none
  radarSkip : Option ℤ := none
  radarRepeat : Option ℤ := none
  seed : Option Seed := none

/-- The receiver id a CONNECT stands for. -/
def Connect.receiverId (c : Connect) : String :=
  c.username.getD (Facts.receiverOfClientId c.clientId)

namespace Source

variable (codec : Codec)

def connect? : Source → Option Connect
  | deviceConnect c => some c
  | _ => none

/-- The CONNECTs among messages, oldest first. -/
def connects (sources : List Source) : List Connect :=
  sources.filterMap connect?

/-- The firmware a device message announces. -/
def announcedFirmware : Source → Option String
  | devicePublish topic payload _ =>
      if endsWith topic "/log" then firmwareFromLog codec payload else none
  | _ => none

/-- The version a cloud message carries. -/
def cloudFirmware : Source → Option String
  | cloudPublish topic payload =>
      if startsWith topic "/version/" then Facts.cloudVersion payload else none
  | _ => none

/-- The value of a cloud `radarParams`. -/
def radarParams : Source → Option Json
  | cloudPublish topic payload =>
      if startsWith topic "/version/" then none
      else if endsWith topic "/state" then none
      else if endsWith topic "/radarParams" then codec.jsonValue payload
      else none
  | _ => none

/-- The value of a cloud `/state` and its first sensor. -/
def cloudSensor : Source → Option (Json × Json)
  | cloudPublish topic payload =>
      if startsWith topic "/version/" then none
      else if endsWith topic "/state" then
        (codec.jsonValue payload).bind fun v =>
          (Facts.stateSensor v).map fun s => (v, s)
      else none
  | _ => none

/-- The reading a device message carries, with its clock. -/
def deviceReading : Source → Option (Reading × String)
  | devicePublish topic payload now =>
      if endsWith topic "/log" then none
      else if endsWith topic "/read" then
        (Reading.parse codec payload).toOption.map fun reading => (reading, now)
      else none
  | _ => none

def offer (src : Source) : Offer where
  firmware := (src.announcedFirmware codec).or src.cloudFirmware
  sensorId :=
    ((src.deviceReading codec).map fun (r, _) => r.sensor).or
      (((src.cloudSensor codec).bind fun (_, s) => (s.index "id").asStr).or
        ((src.radarParams codec).bind Facts.radarSensor))
  sensorName :=
    ((src.deviceReading codec).map fun (r, _) => r.sensor).or
      ((src.cloudSensor codec).bind fun (_, s) => (s.index "name").asStr)
  radarSkip := (src.radarParams codec).bind fun v =>
    (v.get? "skip").bind Json.asI64
  radarRepeat := (src.radarParams codec).bind fun v =>
    (v.get? "repeat").bind Json.asI64
  seed :=
    ((src.deviceReading codec).map fun (r, now) => Facts.seedOfReading r now).or
      ((src.cloudSensor codec).map fun (v, s) => Facts.seedOfState v s)

end Source

namespace Facts

/-- Fields that are still empty take what is offered. -/
def take (f : Facts) (o : Offer) : Facts :=
  { f with
    firmware := f.firmware.or o.firmware
    sensorId := f.sensorId.or o.sensorId
    sensorName := f.sensorName.or o.sensorName
    radarSkip := f.radarSkip.or o.radarSkip
    radarRepeat := f.radarRepeat.or o.radarRepeat
    seed := f.seed.or o.seed }

variable (codec : Codec)

theorem applyDevicePublish_eq_take (f : Facts) (topic : String)
    (payload : List UInt8) (now : String) :
    f.applyDevicePublish codec topic payload now =
      f.take ((Source.devicePublish topic payload now).offer codec) := by
  simp only [applyDevicePublish, Source.offer, Source.announcedFirmware,
    Source.cloudFirmware, Source.radarParams, Source.cloudSensor,
    Source.deviceReading]
  split
  · simp [take]
  · split
    · cases Reading.parse codec payload <;> simp [take, Except.toOption]
    · simp [take]

theorem applyCloudPublish_eq_take (f : Facts) (topic : String)
    (payload : List UInt8) :
    f.applyCloudPublish codec topic payload =
      f.take ((Source.cloudPublish topic payload).offer codec) := by
  simp only [applyCloudPublish, applyCloudState, Source.offer,
    Source.announcedFirmware, Source.cloudFirmware, Source.radarParams,
    Source.cloudSensor, Source.deviceReading]
  split
  · simp [take]
  · split
    · cases codec.jsonValue payload with
      | none => simp [take]
      | some v => cases hsensor : stateSensor v <;> simp [take, hsensor]
    · split
      · cases codec.jsonValue payload <;> simp [take]
      · simp [take]

/-- A message fills the publish fields with its offer, whatever else it
does. -/
theorem take_offer_fields (f : Facts) (src : Source) :
    let f' := f.apply codec src
    let taken := f.take (src.offer codec)
    f'.firmware = taken.firmware ∧ f'.sensorId = taken.sensorId ∧
      f'.sensorName = taken.sensorName ∧ f'.radarSkip = taken.radarSkip ∧
      f'.radarRepeat = taken.radarRepeat ∧ f'.seed = taken.seed := by
  cases src with
  | deviceConnect c =>
      simp [apply, applyDeviceConnect, take, Source.offer,
        Source.announcedFirmware, Source.cloudFirmware, Source.radarParams,
        Source.cloudSensor, Source.deviceReading]
  | devicePublish topic payload now =>
      simp [apply, applyDevicePublish_eq_take]
  | cloudPublish topic payload => simp [apply, applyCloudPublish_eq_take]

/-- A CONNECT fills the credentials with its own; nothing else does. -/
theorem apply_credentials (f : Facts) (src : Source) :
    let f' := f.apply codec src
    f'.receiverId = f.receiverId.or (src.connect?.map Connect.receiverId) ∧
      f'.mqttUser = f.mqttUser.or (src.connect?.bind Connect.username) ∧
      f'.mqttPass = f.mqttPass.or (src.connect?.bind Connect.password) := by
  cases src with
  | deviceConnect c =>
      refine ⟨?_, rfl, rfl⟩
      simp only [apply, applyDeviceConnect, Source.connect?, Option.map_some,
        Connect.receiverId, Option.or_assoc]
      cases c.username <;> rfl
  | devicePublish topic payload now =>
      simp [apply, applyDevicePublish_eq_take, take, Source.connect?]
  | cloudPublish topic payload =>
      simp [apply, applyCloudPublish_eq_take, take, Source.connect?]

/-- Complete facts stay complete: a filled field is never emptied. -/
theorem isComplete_apply {f : Facts} (src : Source)
    (h : f.isComplete = true) : (f.apply codec src).isComplete = true := by
  have hkeep : ∀ {α : Type} {a : Option α} (b : Option α),
      a.isSome = true → (a.or b).isSome = true := by
    intro α a b ha
    rw [Option.isSome_or, ha, Bool.true_or]
  obtain ⟨hrid, huser, hpass⟩ := apply_credentials codec f src
  obtain ⟨hfw, hsid, -, -, -, hseed⟩ := take_offer_fields codec f src
  simp only [isComplete, Bool.and_eq_true] at h ⊢
  rw [hrid, huser, hpass, hfw, hsid, hseed]
  obtain ⟨⟨⟨⟨⟨h₁, h₂⟩, h₃⟩, h₄⟩, h₅⟩, h₆⟩ := h
  exact ⟨⟨⟨⟨⟨hkeep _ h₁, hkeep _ h₂⟩, hkeep _ h₃⟩, hkeep _ h₄⟩, hkeep _ h₅⟩,
    hkeep _ h₆⟩

section Collect

variable (sources : List Source)

/-- The receiver id is that of the first CONNECT. -/
theorem collect_receiverId : (collect codec sources).receiverId =
    (Source.connects sources).head?.map Connect.receiverId := by
  rw [Source.connects, List.head?_filterMap, List.map_findSome?]
  exact (FirstCome.slot_foldl
    (fun f src => (apply_credentials codec f src).1) Facts.default
    sources).trans Option.none_or

theorem collect_mqttUser : (collect codec sources).mqttUser =
    (Source.connects sources).findSome? Connect.username := by
  rw [Source.connects, FirstCome.findSome?_filterMap]
  exact (FirstCome.slot_foldl
    (fun f src => (apply_credentials codec f src).2.1) Facts.default
    sources).trans Option.none_or

theorem collect_mqttPass : (collect codec sources).mqttPass =
    (Source.connects sources).findSome? Connect.password := by
  rw [Source.connects, FirstCome.findSome?_filterMap]
  exact (FirstCome.slot_foldl
    (fun f src => (apply_credentials codec f src).2.2) Facts.default
    sources).trans Option.none_or

theorem collect_firmware : (collect codec sources).firmware =
    sources.findSome? fun src => (src.offer codec).firmware :=
  (FirstCome.slot_foldl
    (fun f src => (take_offer_fields codec f src).1) Facts.default sources).trans
    Option.none_or

theorem collect_sensorId : (collect codec sources).sensorId =
    sources.findSome? fun src => (src.offer codec).sensorId :=
  (FirstCome.slot_foldl
    (fun f src => (take_offer_fields codec f src).2.1) Facts.default
    sources).trans Option.none_or

theorem collect_sensorName : (collect codec sources).sensorName =
    sources.findSome? fun src => (src.offer codec).sensorName :=
  (FirstCome.slot_foldl
    (fun f src => (take_offer_fields codec f src).2.2.1) Facts.default
    sources).trans Option.none_or

theorem collect_radarSkip : (collect codec sources).radarSkip =
    sources.findSome? fun src => (src.offer codec).radarSkip :=
  (FirstCome.slot_foldl
    (fun f src => (take_offer_fields codec f src).2.2.2.1) Facts.default
    sources).trans Option.none_or

theorem collect_radarRepeat : (collect codec sources).radarRepeat =
    sources.findSome? fun src => (src.offer codec).radarRepeat :=
  (FirstCome.slot_foldl
    (fun f src => (take_offer_fields codec f src).2.2.2.2.1) Facts.default
    sources).trans Option.none_or

theorem collect_seed : (collect codec sources).seed =
    sources.findSome? fun src => (src.offer codec).seed :=
  (FirstCome.slot_foldl
    (fun f src => (take_offer_fields codec f src).2.2.2.2.2) Facts.default
    sources).trans Option.none_or

end Collect

end Facts

end Aquilo
