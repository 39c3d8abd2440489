/-
The learn proxy: chunks of the two directions of a proxied connection are
decoded, collected, and written out the first time the facts are complete.  The
handling of a chunk contains no await, so chunks of the two directions do not
interleave with each other.
-/
import Aquilo.Onboard

namespace Aquilo

/-- How the two writes of the outputs end. -/
inductive WriteOutcome where
  | ok
  | configFailed
  | stateFailed
deriving DecidableEq, Repr

/-- The clock and the writes at one finalization check. -/
structure Tick where
  now : String
  outcome : WriteOutcome

/-- A written configuration, with the state file when that was written too, and
the messages collected before. -/
structure Written where
  seen : List Source
  config : GeneratedConfig
  state : Option PersistedState

/-- The facts and the one-shot flag, with what a reader of the disk would have
seen: the messages collected and the outputs written, oldest first. -/
structure Learn where
  facts : Facts
  written : Bool
  seen : List Source
  writes : List Written

/-- One step of the collector. -/
inductive LearnStep where
  | receive (src : Source)
  | finalize (tick : Tick)

/-- A chunk read from the proxied connection.  Each packet of the device's
stream has its own clocks; the cloud's stream is finalized once a chunk. -/
inductive ProxyEvent where
  | connect
  | device (chunk : List UInt8) (clock : ℕ → String) (ticks : ℕ → Tick)
  | cloud (chunk : List UInt8) (tick : Tick)

/-- The decoders of the two directions. -/
structure Taps where
  device : Decoder
  cloud : Decoder

def Taps.new : Taps := ⟨Decoder.new, Decoder.new⟩

/-- What a device packet brings. -/
def deviceSource (now : String) : Packet → Option Source
  | .connect c => some (.deviceConnect c)
  | .publish p => some (.devicePublish p.topic p.payload now)
  | _ => none

/-- What a cloud packet brings. -/
def cloudSource : Packet → Option Source
  | .publish p => some (.cloudPublish p.topic p.payload)
  | _ => none

/-- Device packets are collected and checked one by one. -/
def deviceSteps (clock : ℕ → String) (ticks : ℕ → Tick)
    (packets : List Packet) : List LearnStep :=
  packets.zipIdx.flatMap fun (packet, k) =>
    ((deviceSource (clock k) packet).map LearnStep.receive).toList ++
      [.finalize (ticks k)]

/-- Cloud packets of a chunk are collected, then checked once. -/
def cloudSteps (tick : Tick) (packets : List Packet) : List LearnStep :=
  (packets.filterMap cloudSource).map .receive ++ [.finalize tick]

/-- The steps a chunk gives rise to; a new connection has fresh decoders. -/
def Taps.tee (taps : Taps) : ProxyEvent → List LearnStep × Taps
  | .connect => ([], Taps.new)
  | .device chunk clock ticks =>
      let decoded := taps.device.push chunk
      (deviceSteps clock ticks decoded.1, { taps with device := decoded.2 })
  | .cloud chunk tick =>
      let decoded := taps.cloud.push chunk
      (cloudSteps tick decoded.1, { taps with cloud := decoded.2 })

def Taps.teeAll (taps : Taps) : List ProxyEvent → List LearnStep
  | [] => []
  | e :: rest => (taps.tee e).1 ++ (taps.tee e).2.teeAll rest

namespace Learn

def initial : Learn where
  facts := Facts.default
  written := false
  seen := []
  writes := []

section Run

variable (codec : Codec) (opts : OnboardOptions)

/-- Write the outputs the first time everything is present; a failed write lets
a later packet retry. -/
def maybeFinalize (tick : Tick) (s : Learn) : Learn :=
  if s.facts.isComplete = false then s
  else if s.written then s
  else
    match generatedConfig s.facts opts with
    | .error _ => { s with written := false }
    | .ok config =>
        match tick.outcome with
        | .configFailed => { s with written := false }
        | .stateFailed =>
            { s with
              written := false
              writes := s.writes ++ [⟨s.seen, config, none⟩] }
        | .ok =>
            { s with
              written := true
              writes := s.writes ++
                [⟨s.seen, config, some (initialState config tick.now)⟩] }

def step (s : Learn) : LearnStep → Learn
  | .receive src =>
      { s with facts := s.facts.apply codec src, seen := s.seen ++ [src] }
  | .finalize tick => s.maybeFinalize opts tick

def runSteps (steps : List LearnStep) : Learn :=
  steps.foldl (step codec opts) initial

/-- A whole run of the proxy. -/
def run (events : List ProxyEvent) : Learn :=
  runSteps codec opts (Taps.new.teeAll events)

/-- The outputs a write put on disk are made from the messages seen before. -/
structure Faithful (w : Written) : Prop where
  config : generatedConfig (Facts.collect codec w.seen) opts = .ok w.config
  state : ∀ st, w.state = some st → ∃ now, st = initialState w.config now

/-- What holds throughout a run. -/
structure Inv (s : Learn) : Prop where
  facts : s.facts = Facts.collect codec s.seen
  faithful : ∀ w ∈ s.writes, Faithful codec opts w
  prefixes : ∀ w ∈ s.writes, w.seen <+: s.seen
  flag : s.written = true → s.writes ≠ []

variable {codec}

/-- Everything a finalization check can do. -/
theorem maybeFinalize_cases (tick : Tick) (s : Learn) :
    (s.facts.isComplete = false ∧ s.maybeFinalize opts tick = s) ∨
    (s.written = true ∧ s.maybeFinalize opts tick = s) ∨
    (s.facts.isComplete = true ∧ s.written = false ∧
      ∃ config, generatedConfig s.facts opts = .ok config ∧
        ((tick.outcome = .configFailed ∧ s.maybeFinalize opts tick = s) ∨
        (tick.outcome = .stateFailed ∧ s.maybeFinalize opts tick =
          { s with writes := s.writes ++ [⟨s.seen, config, none⟩] }) ∨
        (tick.outcome = .ok ∧ s.maybeFinalize opts tick =
          { s with
            written := true
            writes := s.writes ++
              [⟨s.seen, config, some (initialState config tick.now)⟩] }))) := by
  by_cases hcomplete : s.facts.isComplete = true
  · by_cases hwritten : s.written = true
    · exact Or.inr (Or.inl ⟨hwritten, by simp [maybeFinalize, hwritten]⟩)
    · rw [Bool.not_eq_true] at hwritten
      obtain ⟨config, hconfig⟩ := (generatedConfig_ok_iff opts).mpr hcomplete
      have hself : { s with written := false } = s := by rw [← hwritten]
      refine Or.inr (Or.inr ⟨hcomplete, hwritten, config, hconfig, ?_⟩)
      cases houtcome : tick.outcome with
      | configFailed =>
          exact Or.inl ⟨rfl, by
            simp [maybeFinalize, hcomplete, hwritten, hconfig, houtcome, hself]⟩
      | stateFailed =>
          exact Or.inr (Or.inl ⟨rfl, by
            simp [maybeFinalize, hcomplete, hwritten, hconfig, houtcome]⟩)
      | ok =>
          exact Or.inr (Or.inr ⟨rfl, by
            simp [maybeFinalize, hcomplete, hwritten, hconfig, houtcome]⟩)
  · rw [Bool.not_eq_true] at hcomplete
    exact Or.inl ⟨hcomplete, by simp [maybeFinalize, hcomplete]⟩

variable {opts}

theorem inv_initial : Inv codec opts initial where
  facts := rfl
  faithful := by simp [initial]
  prefixes := by simp [initial]
  flag := by simp [initial]

/-- Writing out what has been seen. -/
theorem Inv.write {s : Learn} (h : Inv codec opts s) {config : GeneratedConfig}
    (hconfig : generatedConfig s.facts opts = .ok config)
    (state : Option PersistedState)
    (hstate : ∀ st, state = some st → ∃ now, st = initialState config now)
    (flag : Bool) :
    Inv codec opts { s with
      written := flag
      writes := s.writes ++ [⟨s.seen, config, state⟩] } where
  facts := h.facts
  faithful := by
    intro w hw
    rcases List.mem_append.mp hw with hw | hw
    · exact h.faithful w hw
    · rw [List.mem_singleton.mp hw]
      exact ⟨by rw [← h.facts, hconfig], hstate⟩
  prefixes := by
    intro w hw
    rcases List.mem_append.mp hw with hw | hw
    · exact h.prefixes w hw
    · rw [List.mem_singleton.mp hw]
  flag := by simp

theorem Inv.maybeFinalize {s : Learn} (h : Inv codec opts s) (tick : Tick) :
    Inv codec opts (s.maybeFinalize opts tick) := by
  rcases maybeFinalize_cases opts tick s with
    ⟨-, heq⟩ | ⟨-, heq⟩ | ⟨-, hwritten, config, hconfig,
      ⟨-, heq⟩ | ⟨-, heq⟩ | ⟨-, heq⟩⟩
  · rwa [heq]
  · rwa [heq]
  · rwa [heq]
  · rw [heq]
    simpa [hwritten] using h.write hconfig none (by simp) s.written
  · rw [heq]
    refine h.write hconfig _ ?_ true
    intro st hst
    exact ⟨tick.now, (Option.some.inj hst).symm⟩

theorem Inv.receive {s : Learn} (h : Inv codec opts s) (src : Source) :
    Inv codec opts { s with
      facts := s.facts.apply codec src
      seen := s.seen ++ [src] } where
  facts := by rw [h.facts, Facts.collect, Facts.collect, List.foldl_concat]
  faithful := h.faithful
  prefixes w hw := (h.prefixes w hw).trans (List.prefix_append _ _)
  flag := h.flag

theorem Inv.step {s : Learn} (h : Inv codec opts s) (a : LearnStep) :
    Inv codec opts (s.step codec opts a) := by
  cases a with
  | receive src => exact h.receive src
  | finalize tick => exact h.maybeFinalize tick

theorem Inv.foldl {s : Learn} (h : Inv codec opts s) (steps : List LearnStep) :
    Inv codec opts (steps.foldl (Learn.step codec opts) s) := by
  induction steps generalizing s with
  | nil => exact h
  | cons a rest ih => exact ih (h.step a)

@[simp] theorem maybeFinalize_seen (tick : Tick) (s : Learn) :
    (s.maybeFinalize opts tick).seen = s.seen := by
  rcases maybeFinalize_cases opts tick s with
    ⟨-, heq⟩ | ⟨-, heq⟩ | ⟨-, -, config, -, ⟨-, heq⟩ | ⟨-, heq⟩ | ⟨-, heq⟩⟩ <;>
    rw [heq]

@[simp] theorem maybeFinalize_facts (tick : Tick) (s : Learn) :
    (s.maybeFinalize opts tick).facts = s.facts := by
  rcases maybeFinalize_cases opts tick s with
    ⟨-, heq⟩ | ⟨-, heq⟩ | ⟨-, -, config, -, ⟨-, heq⟩ | ⟨-, heq⟩ | ⟨-, heq⟩⟩ <;>
    rw [heq]

/-- The messages among the steps. -/
def received (steps : List LearnStep) : List Source :=
  steps.filterMap fun
    | .receive src => some src
    | .finalize _ => none

theorem foldl_seen (s : Learn) (steps : List LearnStep) :
    (steps.foldl (Learn.step codec opts) s).seen = s.seen ++ received steps := by
  induction steps generalizing s with
  | nil => simp [received]
  | cons a rest ih =>
      rw [List.foldl_cons, ih]
      cases a with
      | receive src => simp [Learn.step, received]
      | finalize tick => simp [Learn.step, received]

theorem run_seen (events : List ProxyEvent) :
    (run codec opts events).seen = received (Taps.new.teeAll events) :=
  foldl_seen initial _

/-- The invariant holds after every run. -/
theorem inv_run (events : List ProxyEvent) :
    Inv codec opts (run codec opts events) := inv_initial.foldl _

end Run

end Learn

namespace Sample

def stateText : String :=
  "\x7b\"sensors\":[\x7b\"id\":\"ae5058\",\"lvl\":150.2,\"pct\":20,\"bat\":83," ++
  "\"lstRead\":\"2026-06-10T08:00:00+02:00\"," ++
  "\"lstEmpty\":\"2026-05-30T00:17:19+02:00\",\"daysLeft\":51," ++
  "\"name\":\"ae5058\",\"lvlToFull\":110\x7d],\"from\":\"node-4\"\x7d"

def stateJson : Json := .obj [
  ("sensors", .arr [.obj [
    ("id", .str "ae5058"), ("lvl", .float (751 / 5)), ("pct", .int 20),
    ("bat", .int 83), ("lstRead", .str "2026-06-10T08:00:00+02:00"),
    ("lstEmpty", .str "2026-05-30T00:17:19+02:00"), ("daysLeft", .int 51),
    ("name", .str "ae5058"), ("lvlToFull", .int 110)]]),
  ("from", .str "node-4")]

def radarText : String :=
  "\x7b\"sensor\":\"ae5058\",\"skip\":3,\"repeat\":4\x7d"

def radarJson : Json := .obj [
  ("sensor", .str "ae5058"), ("skip", .int 3), ("repeat", .int 4)]

/-- The JSON codecs on the payloads of the sample runs. -/
def onboardCodec : Codec where
  jsonValue payload :=
    if payload = Utf8.encode stateText then some stateJson
    else if payload = Utf8.encode radarText then some radarJson
    else none
  readPayload payload :=
    if payload = Utf8.encode readText then
      some { sensor := some "ae5058", version := none, read1 := some 15280,
             battery := some "3770", readNo := none, lastSent := none,
             amp1 := none, temp := none, raw := none }
    else none
  jsonBytes _ := []
  parseFromRfc3339 _ := none

def onboardOptions : OnboardOptions where
  bindAddr := "127.0.0.1"
  listenPort := 1883
  outConfig := "config.toml"
  dataDir := "data"

/-- The device's CONNECT as an MQTT 3.1.1 client sends it. -/
def connectBytes : List UInt8 :=
  MqttWire.frame 0x10
    ([0, 4] ++ Utf8.encode "MQTT" ++ [4, 0xc2, 0, 60] ++
      [0, 17] ++ Utf8.encode "CieczSensorae83fc" ++
      [0, 6] ++ Utf8.encode "ae83fc" ++ [0, 8] ++ Utf8.encode "48007129")

def tick : Tick := ⟨"2026-06-10T20:44:35+02:00", .ok⟩

def fromDevice (chunk : List UInt8) : ProxyEvent :=
  .device chunk (fun _ => tick.now) (fun _ => tick)

def deviceSays (topic text : String) : ProxyEvent :=
  fromDevice (MqttWire.publish topic (Utf8.encode text) false)

def cloudSays (topic text : String) : ProxyEvent :=
  .cloud (MqttWire.publish topic (Utf8.encode text) true) tick

def topics : Topics := Topics.new "ae83fc"

/-- The cloud delivers `radarParams` last. -/
def radarLast : List ProxyEvent :=
  [ .connect, fromDevice connectBytes, cloudSays topics.version "1.7.1.9_sh_en",
    cloudSays topics.state stateText, cloudSays topics.radarParams radarText ]

def radarBeforeState : List ProxyEvent :=
  [ .connect, fromDevice connectBytes, cloudSays topics.version "1.7.1.9_sh_en",
    cloudSays topics.radarParams radarText, cloudSays topics.state stateText ]

/-- The cloud's version arrives before the device's announcement. -/
def versionFirst : List ProxyEvent :=
  [ .connect, fromDevice connectBytes, cloudSays topics.version "1.7.1.9_sh_en",
    deviceSays topics.log "1.8.0.0_sh_en", cloudSays topics.state stateText ]

/-- A device reading arrives before the cloud state. -/
def readFirst : List ProxyEvent :=
  [ .connect, fromDevice connectBytes, deviceSays topics.read readText,
    cloudSays topics.state stateText, deviceSays topics.log "1.7.1.9_sh_en" ]

end Sample

end Aquilo
