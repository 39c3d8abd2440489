/-
The serve loop and the broker it talks to.  What the loop's handlers and the ping
task ask for waits in a bounded channel, which is emptied only while the loop
polls; what has left it is on its way to the broker, which retains the last
message of a topic.  Connections break and the broker restarts at any time.
-/
import Aquilo.Agreement
import Aquilo.LastWrite
import Aquilo.Machine
import Aquilo.OtaBait

namespace Aquilo

open LastWrite Aquilo.Runtime

/-- The requests the client holds before a sender has to wait. -/
def channelCap : ℕ := 64

/-- What a broker keeps of a message; an empty one clears its topic. -/
def retainedAs (payload : List UInt8) : Option (List UInt8) :=
  if payload = [] then none else some payload

/-- What a request does to the retained messages. -/
def Request.write? : Request → Option (Write String (List UInt8))
  | publish topic _ true payload => some ⟨topic, retainedAs payload⟩
  | publish _ _ false _ => none
  | subscribe _ _ => none

def Event.isConnAck : Event → Bool
  | connAck => true
  | _ => false

/-- The ping task's request. -/
def pingRequest (cfg : Config) : Request :=
  .publish (Topics.new cfg.receiverId).ping .atMostOnce false (Utf8.encode "ping")

/-- The loop with what its handler has still to send, the channel and the
connection, oldest requests first, and the broker.  Kept for the record: what has
reached the broker, the events handled, whether anything was ever lost, and
whether nothing was since the last connect that the loop has handled. -/
structure Client where
  server : Server
  todo : List Request
  channel : List Request
  wire : List Request
  retained : Store String (List UInt8)
  arrived : List Request
  handled : List Event
  lossless : Bool
  fresh : Bool

inductive ClientAction where
  | poll (e : Event)
  | send
  | ping
  | take
  | arrive
  | dropWire (kept : List Request)
  | dropChannel (kept : List Request)
  | brokerRestart

namespace Client

/-- Before the loop; the broker may hold messages of earlier times. -/
def begun (server : Server) (retained : Store String (List UInt8)) : Client where
  server := server
  todo := []
  channel := []
  wire := []
  retained := retained
  arrived := []
  handled := []
  lossless := true
  fresh := false

/-- Everything asked for that has not reached the broker, oldest first. -/
def pending (s : Client) : List Request := s.wire ++ s.channel ++ s.todo

/-- What the broker will retain once all of it has. -/
def settled (s : Client) : Store String (List UInt8) :=
  s.retained.writeAll (s.pending.filterMap Request.write?)

section Step

variable (codec : Codec) (cfg : Config)

def step (s : Client) : ClientAction → Option Client
  -- the ping task is not an event of the loop
  | .poll .ping => none
  | .poll e =>
      match s.todo with
      | [] =>
          let handled := handleEvent codec cfg s.server e
          some { s with
            server := handled.1
            todo := handled.2
            handled := s.handled ++ [e]
            fresh := e.isConnAck || s.fresh }
      | _ :: _ => none
  | .send =>
      match s.todo with
      | [] => none
      | r :: rest =>
          if s.channel.length < channelCap then
            some { s with todo := rest, channel := s.channel ++ [r] }
          else none
  | .ping =>
      if s.channel.length < channelCap then
        some { s with channel := s.channel ++ [pingRequest cfg] }
      else none
  | .take =>
      match s.todo, s.channel with
      | [], r :: rest => some { s with channel := rest, wire := s.wire ++ [r] }
      | _, _ => none
  | .arrive =>
      match s.wire with
      | [] => none
      | r :: rest =>
          some { s with
            wire := rest
            retained := s.retained.writeAll r.write?.toList
            arrived := s.arrived ++ [r] }
  | .dropWire kept =>
      if kept.Sublist s.wire then
        some { s with wire := kept, lossless := false, fresh := false }
      else none
  | .dropChannel kept =>
      if s.todo = [] ∧ kept.Sublist s.channel then
        some { s with channel := kept, lossless := false, fresh := false }
      else none
  | .brokerRestart =>
      some { s with
        wire := []
        retained := fun _ => none
        lossless := false
        fresh := false }

def run (s : Client) (actions : List ClientAction) : Option Client :=
  Machine.run (step codec cfg) s actions

variable {codec cfg}

/-- Everything a step can do. -/
theorem step_cases {s s' : Client} {a : ClientAction}
    (h : s.step codec cfg a = some s') :
    (∃ e, a = .poll e ∧ e ≠ .ping ∧ s.todo = [] ∧ s' = { s with
      server := (handleEvent codec cfg s.server e).1
      todo := (handleEvent codec cfg s.server e).2
      handled := s.handled ++ [e]
      fresh := e.isConnAck || s.fresh }) ∨
    (∃ r rest, a = .send ∧ s.todo = r :: rest ∧ s.channel.length < channelCap ∧
      s' = { s with todo := rest, channel := s.channel ++ [r] }) ∨
    (a = .ping ∧ s.channel.length < channelCap ∧
      s' = { s with channel := s.channel ++ [pingRequest cfg] }) ∨
    (∃ r rest, a = .take ∧ s.todo = [] ∧ s.channel = r :: rest ∧
      s' = { s with channel := rest, wire := s.wire ++ [r] }) ∨
    (∃ r rest, a = .arrive ∧ s.wire = r :: rest ∧ s' = { s with
      wire := rest
      retained := s.retained.writeAll r.write?.toList
      arrived := s.arrived ++ [r] }) ∨
    (∃ kept, a = .dropWire kept ∧ kept.Sublist s.wire ∧
      s' = { s with wire := kept, lossless := false, fresh := false }) ∨
    (∃ kept, a = .dropChannel kept ∧ s.todo = [] ∧ kept.Sublist s.channel ∧
      s' = { s with channel := kept, lossless := false, fresh := false }) ∨
    (a = .brokerRestart ∧ s' = { s with
      wire := []
      retained := fun _ => none
      lossless := false
      fresh := false }) := by
  cases a with
  | poll e =>
      have hping : e ≠ .ping := by
        rintro rfl
        cases h
      cases htodo : s.todo with
      | nil =>
          refine Or.inl ⟨e, rfl, hping, rfl, ?_⟩
          cases e <;> first | exact absurd rfl hping | skip
          all_goals
            simp only [step, htodo, Option.some.injEq] at h
            exact h.symm
      | cons r rest =>
          cases e <;> simp only [step, htodo, reduceCtorEq] at h
  | send =>
      simp only [step] at h
      split at h
      · cases h
      · rename_i r rest htodo
        split at h
        · rename_i hroom
          exact Or.inr (Or.inl ⟨r, rest, rfl, htodo, hroom,
            (Option.some.inj h).symm⟩)
        · cases h
  | ping =>
      simp only [step] at h
      split at h
      · rename_i hroom
        exact Or.inr (Or.inr (Or.inl ⟨rfl, hroom, (Option.some.inj h).symm⟩))
      · cases h
  | take =>
      simp only [step] at h
      split at h
      · rename_i r rest htodo hchannel
        exact Or.inr (Or.inr (Or.inr (Or.inl
          ⟨r, rest, rfl, htodo, hchannel, (Option.some.inj h).symm⟩)))
      · cases h
  | arrive =>
      simp only [step] at h
      split at h
      · cases h
      · rename_i r rest hwire
        exact Or.inr (Or.inr (Or.inr (Or.inr (Or.inl
          ⟨r, rest, rfl, hwire, (Option.some.inj h).symm⟩))))
  | dropWire kept =>
      simp only [step] at h
      split at h
      · rename_i hkept
        exact Or.inr (Or.inr (Or.inr (Or.inr (Or.inr (Or.inl
          ⟨kept, rfl, hkept, (Option.some.inj h).symm⟩)))))
      · cases h
  | dropChannel kept =>
      simp only [step] at h
      split at h
      · rename_i hkept
        exact Or.inr (Or.inr (Or.inr (Or.inr (Or.inr (Or.inr (Or.inl
          ⟨kept, rfl, hkept.1, hkept.2, (Option.some.inj h).symm⟩))))))
      · cases h
  | brokerRestart =>
      exact Or.inr (Or.inr (Or.inr (Or.inr (Or.inr (Or.inr (Or.inr
        ⟨rfl, (Option.some.inj h).symm⟩))))))

end Step

section Events

variable (codec : Codec) (cfg : Config)

/-- The retained answer to an announcement. -/
def versionMessage (fw : String) : Request :=
  .publish (Topics.new cfg.receiverId).version .atLeastOnce true (Utf8.encode fw)

/-- The firmware a device was last told: announced since the last connect, or
else the configured one. -/
def toldVersion (handled : List Event) : String :=
  (latestAnnounced codec cfg (handled.rtakeWhile fun e => !e.isConnAck)).getD
    cfg.firmwareVersion

/-- The parameters every connect publishes. -/
def radarBytes : List UInt8 :=
  codec.jsonBytes (.obj [
    ("sensor", .str cfg.sensorId),
    ("skip", .int cfg.radarSkip),
    ("repeat", .int cfg.radarRepeat)])

variable {codec cfg}

theorem handleEvent_rt (s : Server) (e : Event) :
    (handleEvent codec cfg s e).1.rt =
      (acceptedReading codec cfg e).elim s.rt fun r =>
        s.rt.applyReading codec.parseTs cfg BatteryCurve.default r.1 r.2 := by
  cases h : acceptedReading codec cfg e with
  | none => rw [handleEvent_of_not_accepted s h, Option.elim_none]
  | some r =>
      cases e with
      | publish topic payload now saved =>
          rw [acceptedReading, Option.ite_none_right_eq_some] at h
          obtain ⟨htopic, h⟩ := h
          cases hparse : Reading.parse codec payload with
          | error err => simp [hparse, Except.toOption] at h
          | ok reading =>
              obtain rfl : (reading, now) = r := by
                simpa [hparse, Except.toOption] using h
              rw [handleEvent, htopic, handlePublish_read_ok _ _ _ _ _ _ _ hparse]
              rfl
      | _ => cases h

/-- Apart from a connect and a ping, what an event asks for is the new state
where it brings a reading, and the version where it announces one. -/
theorem handleEvent_requests (s : Server) {e : Event} (hconn : e ≠ .connAck)
    (hping : e ≠ .ping) :
    (handleEvent codec cfg s e).2 =
      ((acceptedReading codec cfg e).map fun _ =>
        stateMessage codec cfg (handleEvent codec cfg s e).1.rt.current).toList ++
      ((announced codec cfg e).map (versionMessage cfg)).toList := by
  cases e with
  | connAck => exact absurd rfl hconn
  | ping => exact absurd rfl hping
  | other => rfl
  | error => rfl
  | publish topic payload now saved =>
      by_cases hread : topic = (Topics.new cfg.receiverId).read
      · have hlog : topic ≠ (Topics.new cfg.receiverId).log := by
          rw [hread]
          exact (Topics.log_ne_read _).symm
        rw [announced, if_neg hlog, acceptedReading, if_pos hread, handleEvent,
          hread]
        cases hparse : Reading.parse codec payload with
        | error err =>
            rw [handlePublish_read_error _ _ _ _ _ _ _ hparse]
            rfl
        | ok reading =>
            rw [handlePublish_read_ok _ _ _ _ _ _ _ hparse]
            rfl
      · rw [acceptedReading, if_neg hread, handleEvent, announced]
        by_cases hlog : topic = (Topics.new cfg.receiverId).log
        · rw [if_pos hlog, handlePublish_log _ _ _ _ _ _ _ hread hlog]
          cases parseFirmware codec payload <;> rfl
        · rw [if_neg hlog, handlePublish_other _ _ _ _ _ _ _ hread hlog]
          rfl

/-- A connect asks for the three retained messages and the subscriptions. -/
theorem handleEvent_connAck (s : Server) :
    handleEvent codec cfg s .connAck =
      (s, [ versionMessage cfg cfg.firmwareVersion,
            .publish (Topics.new cfg.receiverId).radarParams .atLeastOnce true
              (radarBytes codec cfg),
            stateMessage codec cfg s.rt.current,
            .subscribe (Topics.new cfg.receiverId).read .atMostOnce,
            .subscribe (Topics.new cfg.receiverId).log .atMostOnce,
            .subscribe (Topics.new cfg.receiverId).connection .atMostOnce ]) := rfl

end Events

section Bounded

variable {codec : Codec} {cfg : Config}

/-- The channel is never overfull, and pings are no events of the loop. -/
structure Bounded (s : Client) : Prop where
  channel : s.channel.length ≤ channelCap
  handled : .ping ∉ s.handled

theorem Bounded.step {s s' : Client} {a : ClientAction} (h : Bounded s)
    (hstep : s.step codec cfg a = some s') : Bounded s' := by
  have hchannel := h.channel
  rcases step_cases hstep with
    ⟨e, rfl, hping, htodo, rfl⟩ | ⟨r, rest, rfl, htodo, hroom, rfl⟩ |
    ⟨rfl, hroom, rfl⟩ | ⟨r, rest, rfl, htodo, htake, rfl⟩ |
    ⟨r, rest, rfl, hwire, rfl⟩ | ⟨kept, rfl, hkept, rfl⟩ |
    ⟨kept, rfl, htodo, hkept, rfl⟩ | ⟨rfl, rfl⟩
  · refine ⟨hchannel, ?_⟩
    rw [List.mem_append, not_or, List.mem_singleton]
    exact ⟨h.handled, Ne.symm hping⟩
  · exact ⟨by simpa using hroom, h.handled⟩
  · exact ⟨by simpa using hroom, h.handled⟩
  · rw [htake, List.length_cons] at hchannel
    exact ⟨(Nat.le_succ _).trans hchannel, h.handled⟩
  · exact ⟨hchannel, h.handled⟩
  · exact ⟨hchannel, h.handled⟩
  · exact ⟨hkept.length_le.trans hchannel, h.handled⟩
  · exact ⟨hchannel, h.handled⟩

theorem bounded_begun (server : Server) (retained : Store String (List UInt8)) :
    Bounded (begun server retained) where
  channel := Nat.zero_le _
  handled := List.not_mem_nil

end Bounded

end Client

namespace Sample

/-- A server without a state file. -/
def served : Server :=
  Server.start config (.ok none) "2026-06-10T20:00:00+02:00" true

end Sample

end Aquilo
