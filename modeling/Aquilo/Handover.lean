/-
From onboarding to serve.  What learn or observe leaves on disk is all that serve
knows of the device when it starts: the configuration is parsed, the state file
loaded, and the retained messages of a connect are made from the two.
-/
import Aquilo.BrokerClient
import Aquilo.JsonStore
import Aquilo.ObserveSessions
import Aquilo.RecoveredConfig

namespace Aquilo

open Learn

/-- A run of either onboarding mode: where its outputs land, and what it writes. -/
inductive Onboarding (codec : Codec) (opts : OnboardOptions) :
    Option (List Source × String) → List Written → Prop where
  | learn (events : List ProxyEvent) :
      Onboarding codec opts (landing codec [] (Taps.new.teeAll events))
        (Learn.run codec opts events).writes
  | observe (visits : List ObserveSession) :
      Onboarding codec opts (visits.findSome? fun v => landing codec [] v.steps)
        ((Observe.sessions codec opts false visits).flatMap
          fun s => s.collector.writes)

section Handover

variable {codec : Codec} {opts : OnboardOptions}

theorem Onboarding.leaves {land : Option (List Source × String)}
    {writes : List Written} (h : Onboarding codec opts land writes) :
    Leaves codec opts land writes := by
  cases h with
  | learn events =>
      exact (foldl_landing inv_initial rfl (by simp [initial])
        (Taps.new.teeAll events)).2
  | observe visits => exact Observe.sessions_leave visits

namespace GeneratedConfig

/-- The state that goes with a generated configuration. -/
def state (g : GeneratedConfig) (now : String) : SensorState where
  id := g.sensorId
  name := g.sensorName
  lvl := g.seed.lvl
  pct := g.seed.pct
  bat := g.seed.bat
  lstRead := now
  lstEmpty := g.seed.lstEmpty
  daysLeft := g.seed.daysLeft
  lvlToFull := g.seed.lvlToFull
  «from» := g.seed.from

/-- The retained messages that carry the recovered values. -/
def messages (codec : Codec) (g : GeneratedConfig) (now : String) : List Request :=
  let topics := Topics.new g.receiverId
  let radar : Json := .obj [
    ("sensor", .str g.sensorId),
    ("skip", .int g.radarSkip),
    ("repeat", .int g.radarRepeat)]
  [ .publish topics.version .atLeastOnce true (Utf8.encode g.firmwareVersion),
    .publish topics.radarParams .atLeastOnce true (codec.jsonBytes radar),
    .publish topics.state .atLeastOnce true
      (codec.jsonBytes (g.state now).toJson) ]

/-- A server started on the outputs has the seed as its state. -/
theorem start_rt (g : GeneratedConfig) (now clock : String) (saved : Bool) :
    (Server.start g.toConfig (.ok (some (initialState g now))) clock saved).rt =
      { current := g.state now
        history := []
        lstEmpty := g.seed.lstEmpty } := by
  show Runtime.mk _ _ (if g.seed.lstEmpty = "" then g.seed.lstEmpty
    else g.seed.lstEmpty) = _
  rw [ite_self]
  rfl

end GeneratedConfig

/-- Until a reading is accepted the server keeps what it started with. -/
theorem afterEvents_of_no_reading {cfg : Config} (s : Server) {events : List Event}
    (hnone : ∀ e ∈ events, acceptedReading codec cfg e = none) :
    afterEvents codec cfg s events = s := by
  induction events using List.reverseRecOn with
  | nil => rfl
  | append_singleton pre e ih =>
      rw [afterEvents_concat, ih fun e' he' => hnone e' (List.mem_append_left _ he')]
      exact handleEvent_of_not_accepted s (hnone e (by simp))

end Handover

/-- What either mode recovers, serve publishes: whatever the run, once its outputs
have landed and their strings need no escaping, a server started on the two files
parses the configuration, loads the state, and on every connect until its first
reading publishes the recovered firmware, parameters and state. -/
theorem onboarding_hands_over (codec : Codec) (hcodec : codec.DecimalFloats)
    (serde : Serde) (opts : OnboardOptions)
    {seen : List Source} {now : String} {writes : List Written}
    (hrun : Onboarding codec opts (some (seen, now)) writes)
    (hplain : ∀ s ∈ (Facts.collect codec seen).strings opts,
      ∀ c ∈ s.toList, Toml.Plain c) :
    ∃ g cfg, generatedConfig (Facts.collect codec seen) opts = .ok g ∧
      writes.getLast? = some ⟨seen, g, some (initialState g now)⟩ ∧
      Config.parse g.text = some cfg ∧
      ∀ (contents : List UInt8) (synced saved : Bool) (clock : String)
        (events : List Event),
        serde.ReadsBack (initialState g now) →
        serde.toVecPretty (initialState g now) = some contents →
        (∀ e ∈ events, acceptedReading codec cfg e = none) →
        let server := Server.start cfg
          (JsonFileStore.load serde true (some ⟨contents, synced⟩)) clock saved
        server.rt.lstEmpty = g.seed.lstEmpty ∧
          g.messages codec now <+:
            (handleEvent codec cfg (afterEvents codec cfg server events)
              .connAck).2 := by
  obtain ⟨attempts, -, g, hg, hwrites⟩ := hrun.leaves
  have hwritable := Facts.generatedConfig_writable hcodec hg
  have hparse : Config.parse g.text = some g.toConfig :=
    (GeneratedConfig.parse_text_iff hwritable).mpr
      ((Facts.forall_strings_iff hg _).mpr hplain)
  refine ⟨g, g.toConfig, hg, by rw [hwrites, List.getLast?_concat], hparse, ?_⟩
  intro contents synced saved clock events hback hprint hnone server
  have hload : JsonFileStore.load serde true (some ⟨contents, synced⟩) =
      .ok (some (initialState g now)) := by
    rw [JsonFileStore.load]
    simp only [↓reduceIte, hback _ hprint]
  have hrt : server.rt = ⟨g.state now, [], g.seed.lstEmpty⟩ := by
    rw [show server = Server.start g.toConfig _ clock saved from rfl, hload]
    exact g.start_rt now clock saved
  refine ⟨by rw [hrt], ?_⟩
  rw [afterEvents_of_no_reading server hnone, Client.handleEvent_connAck, hrt]
  exact ⟨_, rfl⟩

namespace Sample

def handedNow : String := "2026-06-10T20:00:00+02:00"

/-- The cloud's state comes last. -/
def handedRun : List ProxyEvent :=
  [ .connect, fromDevice connectBytes, cloudSays topics.version "1.7.1.9_sh_en",
    .cloud (MqttWire.publish topics.state (Utf8.encode stateText) true)
      ⟨handedNow, .ok⟩ ]

/-- What is received in this run. -/
def handedSeen : List Source :=
  [ .deviceConnect
      { clientId := "CieczSensorae83fc", username := some "ae83fc",
        password := some "48007129" },
    .cloudPublish topics.version (Utf8.encode "1.7.1.9_sh_en"),
    .cloudPublish topics.state (Utf8.encode stateText) ]

theorem handedRun_lands : landing onboardCodec [] (Taps.new.teeAll handedRun) =
    some (handedSeen, handedNow) := by
  decide +kernel

theorem handedSeen_plain : ∀ s ∈ (Facts.collect onboardCodec handedSeen).strings
    onboardOptions, ∀ c ∈ s.toList, Toml.Plain c := by
  have hplain : ((Facts.collect onboardCodec handedSeen).strings
      onboardOptions).all (fun s =>
        s.toList.all fun c => decide (Toml.Plain c)) = true := by decide +kernel
  simpa only [List.all_eq_true, decide_eq_true_eq] using hplain

/-- The state file of this run is that of a server without a state. -/
theorem handedSeen_state {g : GeneratedConfig}
    (hg : generatedConfig (Facts.collect onboardCodec handedSeen) onboardOptions =
      .ok g) : initialState g handedNow = seeded := by
  have hstate : (generatedConfig (Facts.collect onboardCodec handedSeen)
      onboardOptions).toOption.map (initialState · handedNow) = some seeded := by
    decide +kernel
  rw [hg] at hstate
  exact Option.some.inj hstate

end Sample

open Sample in
theorem handedRun_served :
    ∃ (g : GeneratedConfig) (cfg : Config), Config.parse g.text = some cfg ∧
      ∀ clock, g.messages onboardCodec handedNow <+:
        (handleEvent onboardCodec cfg
          (Server.start cfg (JsonFileStore.load serde true
            (some ⟨Utf8.encode seededText, true⟩)) clock true) .connAck).2 := by
  have hrun : Onboarding onboardCodec onboardOptions _ _ := .learn handedRun
  rw [handedRun_lands] at hrun
  obtain ⟨g, cfg, hg, -, hparse, hserve⟩ := onboarding_hands_over onboardCodec
    onboardCodec_decimalFloats serde onboardOptions hrun handedSeen_plain
  have hprint : serde.toVecPretty (initialState g handedNow) =
      some (Utf8.encode seededText) := by
    have hne : seeded ≠ persisted := by decide +kernel
    rw [handedSeen_state hg]
    simp only [serde, if_neg hne, ↓reduceIte]
  refine ⟨g, cfg, hparse, fun clock => ?_⟩
  exact (hserve (Utf8.encode seededText) true true clock []
    (serde_roundTrips _) hprint (fun e he => absurd he List.not_mem_nil)).2

end Aquilo
