/-
The serve event loop: what it hands to the broker on each event.  Publishes are
taken as accepted; a refused one ends the loop, so its requests are then a
prefix of the ones here.
-/
import Aquilo.Firmware
import Aquilo.Runtime

namespace Aquilo

inductive QoS where
  | atMostOnce
  | atLeastOnce
deriving DecidableEq, Repr

/-- What the loop asks its broker client for. -/
inductive Request where
  | publish (topic : String) (qos : QoS) (retain : Bool) (payload : List UInt8)
  | subscribe (topic : String) (qos : QoS)
deriving DecidableEq, Repr

/-- The payload a request publishes on a topic. -/
def Request.payloadOn (topic : String) : Request → Option (List UInt8)
  | publish topic' _ _ payload => if topic' = topic then some payload else none
  | subscribe _ _ => none

@[simp] theorem Request.payloadOn_self (topic : String) (qos : QoS)
    (retain : Bool) (payload : List UInt8) :
    (publish topic qos retain payload).payloadOn topic = some payload :=
  if_pos rfl

theorem Request.payloadOn_of_ne {topic topic' : String} (h : topic ≠ topic')
    (qos : QoS) (retain : Bool) (payload : List UInt8) :
    (publish topic' qos retain payload).payloadOn topic = none :=
  if_neg h.symm

@[simp] theorem Request.payloadOn_subscribe (topic topic' : String) (qos : QoS) :
    (subscribe topic' qos).payloadOn topic = none := rfl

/-- The result of the store's next load. -/
abbrev Disk := Except LoadError (Option PersistedState)

structure Server where
  rt : Runtime
  disk : Disk

/-- What the loop and its ping task wake up for; a publish comes with the clock
and with whether the store would accept a save. -/
inductive Event where
  | connAck
  | publish (topic : String) (payload : List UInt8) (now : String)
      (saved : Bool)
  | other
  | error
  | ping

/-- A failed save is only logged. -/
def persist (cfg : Config) (rt : Runtime) (saved : Bool) (disk : Disk) : Disk :=
  if saved then .ok (some (snapshot cfg rt)) else disk

/-- What runs before the loop: the state is loaded and saved at once. -/
def Server.start (cfg : Config) (disk : Disk) (now : String) (saved : Bool) :
    Server :=
  let rt := loadRuntime cfg disk now
  ⟨rt, persist cfg rt saved disk⟩

section Loop

variable (codec : Codec) (cfg : Config)

def publishState (topics : Topics) (state : SensorState) : Request :=
  .publish topics.state .atLeastOnce true (codec.jsonBytes state.toJson)

/-- The three retained messages of every connect. -/
def seedRetained (topics : Topics) (state : SensorState) : List Request :=
  let radar : Json := .obj [
    ("sensor", .str cfg.sensorId),
    ("skip", .int cfg.radarSkip),
    ("repeat", .int cfg.radarRepeat)]
  [ .publish topics.version .atLeastOnce true (Utf8.encode cfg.firmwareVersion),
    .publish topics.radarParams .atLeastOnce true (codec.jsonBytes radar),
    publishState codec topics state ]

def handleRead (topics : Topics) (battery : BatteryCurve) (reading : Reading)
    (now : String) (saved : Bool) (s : Server) : Server × List Request :=
  let rt := s.rt.applyReading codec.parseTs cfg battery reading now
  (⟨rt, persist cfg rt saved s.disk⟩, [publishState codec topics rt.current])

def handlePublish (topics : Topics) (battery : BatteryCurve) (topic : String)
    (payload : List UInt8) (now : String) (saved : Bool) (s : Server) :
    Server × List Request :=
  if topic = topics.read then
    match Reading.parse codec payload with
    | .ok reading => handleRead codec cfg topics battery reading now saved s
    | .error _ => (s, [])
  else if topic = topics.log then
    -- The device's own firmware is echoed, whatever the configured one.
    match parseFirmware codec payload with
    | some fw =>
        (s, [.publish topics.version .atLeastOnce true (Utf8.encode fw)])
    | none => (s, [])
  else (s, [])

section Publish

variable (topics : Topics) (battery : BatteryCurve) (now : String)
variable (saved : Bool) (s : Server)

theorem handlePublish_read_ok {payload : List UInt8} {r : Reading}
    (h : Reading.parse codec payload = .ok r) :
    handlePublish codec cfg topics battery topics.read payload now saved s =
      handleRead codec cfg topics battery r now saved s := by
  rw [handlePublish, if_pos rfl, h]

theorem handlePublish_read_error {payload : List UInt8} {e : ReadError}
    (h : Reading.parse codec payload = .error e) :
    handlePublish codec cfg topics battery topics.read payload now saved s =
      (s, []) := by
  rw [handlePublish, if_pos rfl, h]

theorem handlePublish_log {topic : String} (hread : topic ≠ topics.read)
    (hlog : topic = topics.log) (payload : List UInt8) :
    handlePublish codec cfg topics battery topic payload now saved s =
      (s, (parseFirmware codec payload).toList.map fun fw =>
        .publish topics.version .atLeastOnce true (Utf8.encode fw)) := by
  rw [handlePublish, if_neg hread, if_pos hlog]
  cases parseFirmware codec payload <;> rfl

theorem handlePublish_other {topic : String} (hread : topic ≠ topics.read)
    (hlog : topic ≠ topics.log) (payload : List UInt8) :
    handlePublish codec cfg topics battery topic payload now saved s = (s, []) := by
  rw [handlePublish, if_neg hread, if_neg hlog]

end Publish

/-- One turn of the loop. -/
def handleEvent (s : Server) (e : Event) : Server × List Request :=
  let topics := Topics.new cfg.receiverId
  match e with
  | .connAck =>
      (s, seedRetained codec cfg topics s.rt.current ++
        [topics.read, topics.log, topics.connection].map
          (Request.subscribe · .atMostOnce))
  | .publish topic payload now saved =>
      handlePublish codec cfg topics BatteryCurve.default topic payload now
        saved s
  | .other => (s, [])
  | .error => (s, [])
  | .ping => (s, [.publish topics.ping .atMostOnce false (Utf8.encode "ping")])

/-- The server after a run of events. -/
def afterEvents (s : Server) (events : List Event) : Server :=
  events.foldl (fun s e => (handleEvent codec cfg s e).1) s

/-- What a run of events hands to the broker, in order. -/
def requests (s : Server) : List Event → List Request
  | [] => []
  | e :: rest =>
      let handled := handleEvent codec cfg s e
      handled.2 ++ requests handled.1 rest

theorem afterEvents_concat (s : Server) (pre : List Event) (e : Event) :
    afterEvents codec cfg s (pre ++ [e]) =
      (handleEvent codec cfg (afterEvents codec cfg s pre) e).1 :=
  List.foldl_concat ..

theorem requests_concat (s : Server) (pre : List Event) (e : Event) :
    requests codec cfg s (pre ++ [e]) =
      requests codec cfg s pre ++
        (handleEvent codec cfg (afterEvents codec cfg s pre) e).2 := by
  induction pre generalizing s with
  | nil => simp [requests, afterEvents]
  | cons e' rest ih =>
      rw [List.cons_append, requests, requests, ih, List.append_assoc]
      rfl

end Loop

end Aquilo
