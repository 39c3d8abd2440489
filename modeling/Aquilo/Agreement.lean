/-
Memory, store and broker.  The loop keeps three copies of the state: the
runtime, what the store holds and what is retained on the state topic; every
handler that changes one brings the others up to date.
-/
import Aquilo.Serve

namespace Aquilo

open Aquilo.Runtime

/-- A save the event asks for succeeds. -/
def Event.Saves : Event → Prop
  | .publish _ _ _ saved => saved = true
  | _ => True

def Request.publishesOn (topic : String) : Request → Bool
  | publish topic' _ _ _ => decide (topic' = topic)
  | subscribe _ _ => false

/-- The last message published on a topic. -/
def lastOn (topic : String) (requests : List Request) : Option Request :=
  (requests.filter (Request.publishesOn topic)).getLast?

theorem lastOn_append (topic : String) (xs ys : List Request) :
    lastOn topic (xs ++ ys) = (lastOn topic ys).or (lastOn topic xs) := by
  rw [lastOn, List.filter_append, List.getLast?_append, lastOn, lastOn]

section Agreement

variable (codec : Codec) (cfg : Config)

/-- The reading an event brings: one the parser accepts, on the read topic. -/
def acceptedReading : Event → Option Stamped
  | .publish topic payload now _ =>
      if topic = (Topics.new cfg.receiverId).read then
        (Reading.parse codec payload).toOption.map fun reading => (reading, now)
      else none
  | _ => none

/-- The state as it is published. -/
def stateMessage (state : SensorState) : Request :=
  .publish (Topics.new cfg.receiverId).state .atLeastOnce true
    (codec.jsonBytes state.toJson)

/-- The three copies agree. -/
structure Agree (s : Server) (connected : Prop) (sent : List Request) :
    Prop where
  disk : s.disk = .ok (some (snapshot cfg s.rt))
  broker : connected →
    lastOn (Topics.new cfg.receiverId).state sent =
      some (stateMessage codec cfg s.rt.current)

variable {codec cfg}

theorem lastOn_state_self (state : SensorState) :
    lastOn (Topics.new cfg.receiverId).state [stateMessage codec cfg state] =
      some (stateMessage codec cfg state) := by
  simp [lastOn, stateMessage, Request.publishesOn]

/-- An accepted reading is folded in, saved and published. -/
theorem handleEvent_of_accepted (s : Server) {e : Event} (hsaves : e.Saves)
    {r : Stamped} (h : acceptedReading codec cfg e = some r) :
    let rt := s.rt.applyReading codec.parseTs cfg BatteryCurve.default r.1 r.2
    handleEvent codec cfg s e =
      (⟨rt, .ok (some (snapshot cfg rt))⟩, [stateMessage codec cfg rt.current]) := by
  cases e with
  | publish topic payload now saved =>
      obtain rfl : saved = true := hsaves
      rw [acceptedReading, Option.ite_none_right_eq_some] at h
      obtain ⟨htopic, h⟩ := h
      cases hparse : Reading.parse codec payload with
      | error err => simp [hparse, Except.toOption] at h
      | ok reading =>
          obtain rfl : (reading, now) = r := by
            simpa [hparse, Except.toOption] using h
          rw [handleEvent, htopic, handlePublish_read_ok _ _ _ _ _ _ _ hparse]
          rfl
  | connAck => cases h
  | other => cases h
  | error => cases h
  | ping => cases h

/-- A publish without a reading is answered with versions at most. -/
theorem handleEvent_publish_of_not_accepted (s : Server) {topic now : String}
    {payload : List UInt8} {saved : Bool}
    (h : acceptedReading codec cfg (.publish topic payload now saved) = none) :
    ∃ versions : List String,
      handleEvent codec cfg s (.publish topic payload now saved) =
        (s, versions.map fun fw => .publish (Topics.new cfg.receiverId).version
          .atLeastOnce true (Utf8.encode fw)) := by
  by_cases hread : topic = (Topics.new cfg.receiverId).read
  · subst hread
    cases hparse : Reading.parse codec payload with
    | error err =>
        exact ⟨[], handlePublish_read_error _ _ _ _ _ _ _ hparse⟩
    | ok reading => simp [acceptedReading, hparse, Except.toOption] at h
  · by_cases hlog : topic = (Topics.new cfg.receiverId).log
    · exact ⟨_, handlePublish_log _ _ _ _ _ _ _ hread hlog payload⟩
    · exact ⟨[], handlePublish_other _ _ _ _ _ _ _ hread hlog payload⟩

/-- Any other event leaves runtime and store alone. -/
theorem handleEvent_of_not_accepted (s : Server) {e : Event}
    (h : acceptedReading codec cfg e = none) :
    (handleEvent codec cfg s e).1 = s := by
  cases e with
  | publish topic payload now saved =>
      obtain ⟨versions, hversions⟩ := handleEvent_publish_of_not_accepted s h
      rw [hversions]
  | connAck => rfl
  | other => rfl
  | error => rfl
  | ping => rfl

/-- On a connect the current state is the last thing published on its topic. -/
theorem lastOn_state_connAck (s : Server) :
    lastOn (Topics.new cfg.receiverId).state
        (handleEvent codec cfg s .connAck).2 =
      some (stateMessage codec cfg s.rt.current) := by
  have hversion := Topics.version_ne_state cfg.receiverId
  have hradar := (Topics.state_ne_radarParams cfg.receiverId).symm
  simp [handleEvent, seedRetained, publishState, lastOn, stateMessage,
    Request.publishesOn, hversion, hradar, -Topics.new_version,
    -Topics.new_state, -Topics.new_radarParams]

/-- Otherwise, without a reading, nothing is published there. -/
theorem lastOn_state_of_not_accepted (s : Server) {e : Event}
    (hconn : e ≠ .connAck) (h : acceptedReading codec cfg e = none) :
    lastOn (Topics.new cfg.receiverId).state (handleEvent codec cfg s e).2 =
      none := by
  have hversion := Topics.version_ne_state cfg.receiverId
  have hping := (Topics.state_ne_ping cfg.receiverId).symm
  cases e with
  | connAck => exact absurd rfl hconn
  | publish topic payload now saved =>
      obtain ⟨versions, hversions⟩ := handleEvent_publish_of_not_accepted s h
      have hnone : (versions.map fun fw =>
          Request.publish (Topics.new cfg.receiverId).version .atLeastOnce true
            (Utf8.encode fw)).filter
          (Request.publishesOn (Topics.new cfg.receiverId).state) = [] := by
        simp [List.filter_eq_nil_iff, Request.publishesOn, hversion,
          -Topics.new_version, -Topics.new_state]
      rw [hversions, lastOn, hnone]
      rfl
  | other => rfl
  | error => rfl
  | ping =>
      simp [handleEvent, lastOn, Request.publishesOn, hping, -Topics.new_ping,
        -Topics.new_state]

/-- One event keeps the copies in agreement. -/
theorem Agree.handleEvent {s : Server} {connected : Prop} {sent : List Request}
    (hagree : Agree codec cfg s connected sent) {e : Event} (hsaves : e.Saves) :
    Agree codec cfg (handleEvent codec cfg s e).1 (connected ∨ e = .connAck)
      (sent ++ (handleEvent codec cfg s e).2) := by
  cases h : acceptedReading codec cfg e with
  | some r =>
      rw [handleEvent_of_accepted s hsaves h]
      refine ⟨rfl, fun _ => ?_⟩
      rw [lastOn_append, lastOn_state_self, Option.some_or]
  | none =>
      rw [handleEvent_of_not_accepted s h]
      refine ⟨hagree.disk, fun hconnected => ?_⟩
      rw [lastOn_append]
      by_cases hconn : e = .connAck
      · rw [hconn, lastOn_state_connAck, Option.some_or]
      · rw [lastOn_state_of_not_accepted s hconn h, Option.none_or]
        exact hagree.broker (hconnected.resolve_right hconn)

theorem agree_start (disk : Disk) (now : String) :
    Agree codec cfg (Server.start cfg disk now true) False [] where
  disk := rfl
  broker := False.elim

/-- The copies agree after every run. -/
theorem agree_afterEvents {s : Server} (hstart : Agree codec cfg s False [])
    {events : List Event} (hsaves : ∀ e ∈ events, e.Saves) :
    Agree codec cfg (afterEvents codec cfg s events) (.connAck ∈ events)
      (requests codec cfg s events) := by
  induction events using List.reverseRecOn with
  | nil => exact ⟨hstart.disk, fun h => by cases h⟩
  | append_singleton pre e ih =>
      have hpre := ih fun e' he' => hsaves e' (List.mem_append_left _ he')
      have hstep := hpre.handleEvent
        (hsaves e (List.mem_append_right _ List.mem_cons_self))
      rw [afterEvents_concat, requests_concat]
      refine ⟨hstep.disk, fun hconn => hstep.broker ?_⟩
      rw [List.mem_append, List.mem_singleton] at hconn
      exact hconn.imp_right Eq.symm

/-- The runtime is the fold of the accepted readings, each once. -/
theorem afterEvents_rt (s : Server) {events : List Event}
    (hsaves : ∀ e ∈ events, e.Saves) :
    (afterEvents codec cfg s events).rt =
      s.rt.applyReadings codec.parseTs cfg BatteryCurve.default
        (events.filterMap (acceptedReading codec cfg)) := by
  induction events using List.reverseRecOn with
  | nil => rfl
  | append_singleton pre e ih =>
      have hpre := ih fun e' he' => hsaves e' (List.mem_append_left _ he')
      have he := hsaves e (List.mem_append_right _ List.mem_cons_self)
      rw [afterEvents_concat, List.filterMap_append, applyReadings_append,
        ← hpre]
      cases h : acceptedReading codec cfg e with
      | some r =>
          rw [handleEvent_of_accepted _ he h]
          simp [h]
      | none =>
          rw [handleEvent_of_not_accepted _ h]
          simp [h]

end Agreement

/-- After every event of a run whose saves succeed: from the first connect on
the last state published is the retained current one, the store holds the
runtime's state, history and baseline, and the runtime is the start with every
accepted reading folded in once; an event without one changes neither runtime
nor store. -/
theorem memory_store_broker_agree (codec : Codec) (cfg : Config) (disk : Disk)
    (start : String) (events : List Event) (hsaves : ∀ e ∈ events, e.Saves) :
    let begun := Server.start cfg disk start true
    (∀ pre, pre <+: events →
      let s := afterEvents codec cfg begun pre
      (.connAck ∈ pre →
        lastOn (Topics.new cfg.receiverId).state (requests codec cfg begun pre) =
          some (.publish (Topics.new cfg.receiverId).state .atLeastOnce true
            (codec.jsonBytes s.rt.current.toJson))) ∧
      (∃ p, s.disk = .ok (some p) ∧ p.lastState = some s.rt.current ∧
        p.history = s.rt.history ∧ p.lstEmpty = s.rt.lstEmpty) ∧
      s.rt = begun.rt.applyReadings codec.parseTs cfg BatteryCurve.default
        (pre.filterMap (acceptedReading codec cfg))) ∧
    ∀ pre e post, events = pre ++ e :: post →
      acceptedReading codec cfg e = none →
        afterEvents codec cfg begun (pre ++ [e]) =
          afterEvents codec cfg begun pre := by
  intro begun
  constructor
  · intro pre hpre s
    have hsavesPre : ∀ e ∈ pre, e.Saves := fun e he => hsaves e (hpre.subset he)
    have hagree : Agree codec cfg s (.connAck ∈ pre)
        (requests codec cfg begun pre) :=
      agree_afterEvents (agree_start disk start) hsavesPre
    exact ⟨hagree.broker, ⟨_, hagree.disk, rfl, rfl, rfl⟩,
      afterEvents_rt begun hsavesPre⟩
  · intro pre e post _ h
    rw [afterEvents_concat, handleEvent_of_not_accepted _ h]

namespace Sample

/-- A connect, a foreign message on the state topic, a reading, a lost
connection. -/
def oneReading : List Event :=
  [ .connAck,
    .publish (Topics.new config.receiverId).state (Utf8.encode "stale")
      "2026-06-10T20:44:34+02:00" true,
    .publish (Topics.new config.receiverId).read (Utf8.encode readText)
      "2026-06-10T20:44:35+02:00" true,
    .error ]

end Sample

theorem oneReading_agrees :
    let begun := Server.start Sample.config (.ok none)
      "2026-06-10T20:00:00+02:00" true
    let s := afterEvents Sample.printingCodec Sample.config begun
      Sample.oneReading
    lastOn (Topics.new Sample.config.receiverId).state
        (requests Sample.printingCodec Sample.config begun Sample.oneReading) =
      some (stateMessage Sample.printingCodec Sample.config s.rt.current) ∧
    s.rt.current.lvl = 764 / 5 ∧ s.rt.history.length = 1 := by
  intro begun s
  have hsaves : ∀ e ∈ Sample.oneReading, e.Saves := by
    simp [Sample.oneReading, Event.Saves]
  obtain ⟨hbroker, -, hrt⟩ := (memory_store_broker_agree Sample.printingCodec
    Sample.config (.ok none) "2026-06-10T20:00:00+02:00" Sample.oneReading
    hsaves).1 Sample.oneReading List.prefix_rfl
  refine ⟨hbroker (by simp [Sample.oneReading]), ?_⟩
  rw [show s.rt = _ from hrt]
  decide +kernel

end Aquilo
