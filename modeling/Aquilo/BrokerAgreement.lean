/-
What the broker retains and what reaches it, however connections break and the
broker restarts.
-/
import Aquilo.BrokerClient
import Aquilo.FromPrefixes

namespace Aquilo

open LastWrite Aquilo.Runtime

namespace Client

/-- What the broker retains for the device. -/
structure Serves (codec : Codec) (cfg : Config)
    (store : Store String (List UInt8)) (state : SensorState) (version : String) :
    Prop where
  state : store (Topics.new cfg.receiverId).state =
    retainedAs (codec.jsonBytes state.toJson)
  version : store (Topics.new cfg.receiverId).version =
    retainedAs (Utf8.encode version)
  radarParams : store (Topics.new cfg.receiverId).radarParams =
    retainedAs (radarBytes codec cfg)

section Convergence

variable {codec : Codec} {cfg : Config}

@[simp] theorem write?_pingRequest : (pingRequest cfg).write? = none := rfl

/-- A connect establishes all three. -/
theorem serves_connAck (store : Store String (List UInt8)) (s : Server) :
    Serves codec cfg
      (store.writeAll
        ((handleEvent codec cfg s .connAck).2.filterMap Request.write?))
      s.rt.current cfg.firmwareVersion := by
  have hversion := Topics.version_ne_state cfg.receiverId
  have hradar := Topics.version_ne_radarParams cfg.receiverId
  have hstate := Topics.state_ne_radarParams cfg.receiverId
  have hwrites : (handleEvent codec cfg s .connAck).2.filterMap Request.write? =
      [ ⟨(Topics.new cfg.receiverId).version,
          retainedAs (Utf8.encode cfg.firmwareVersion)⟩,
        ⟨(Topics.new cfg.receiverId).radarParams,
          retainedAs (radarBytes codec cfg)⟩,
        ⟨(Topics.new cfg.receiverId).state,
          retainedAs (codec.jsonBytes s.rt.current.toJson)⟩ ] := rfl
  rw [hwrites]
  simp only [Store.writeAll_cons, Store.writeAll_nil]
  refine ⟨Store.write_self _ ⟨(Topics.new cfg.receiverId).state, _⟩, ?_, ?_⟩
  · rw [Store.write_of_ne hversion, Store.write_of_ne hradar]
    exact Store.write_self _ ⟨(Topics.new cfg.receiverId).version, _⟩
  · rw [Store.write_of_ne hstate.symm]
    exact Store.write_self _ ⟨(Topics.new cfg.receiverId).radarParams, _⟩

theorem Serves.writeState {store : Store String (List UInt8)}
    {state : SensorState} {version : String}
    (h : Serves codec cfg store state version) (state' : SensorState) :
    Serves codec cfg
      (store.write ⟨(Topics.new cfg.receiverId).state,
        retainedAs (codec.jsonBytes state'.toJson)⟩) state' version where
  state := Store.write_self _ ⟨(Topics.new cfg.receiverId).state, _⟩
  version := by
    rw [Store.write_of_ne (Topics.version_ne_state cfg.receiverId)]
    exact h.version
  radarParams := by
    rw [Store.write_of_ne (Topics.state_ne_radarParams cfg.receiverId).symm]
    exact h.radarParams

theorem Serves.writeVersion {store : Store String (List UInt8)}
    {state : SensorState} {version : String}
    (h : Serves codec cfg store state version) (version' : String) :
    Serves codec cfg
      (store.write ⟨(Topics.new cfg.receiverId).version,
        retainedAs (Utf8.encode version')⟩) state version' where
  state := by
    rw [Store.write_of_ne (Topics.version_ne_state cfg.receiverId).symm]
    exact h.state
  version := Store.write_self _ ⟨(Topics.new cfg.receiverId).version, _⟩
  radarParams := by
    rw [Store.write_of_ne (Topics.version_ne_radarParams cfg.receiverId).symm]
    exact h.radarParams

/-- Any other event keeps them up to date. -/
theorem Serves.handleEvent {store : Store String (List UInt8)} {s : Server}
    {version : String} (h : Serves codec cfg store s.rt.current version) {e : Event}
    (hconn : e ≠ .connAck) (hping : e ≠ .ping) :
    Serves codec cfg
      (store.writeAll
        ((Aquilo.handleEvent codec cfg s e).2.filterMap Request.write?))
      (Aquilo.handleEvent codec cfg s e).1.rt.current
      ((announced codec cfg e).getD version) := by
  have hrt : (Aquilo.handleEvent codec cfg s e).1.rt = _ := handleEvent_rt s e
  rw [handleEvent_requests s hconn hping, List.filterMap_append,
    Store.writeAll_append]
  have hstate : Serves codec cfg
      (store.writeAll
        (((acceptedReading codec cfg e).map fun _ =>
          stateMessage codec cfg
            (Aquilo.handleEvent codec cfg s e).1.rt.current).toList.filterMap
          Request.write?))
      (Aquilo.handleEvent codec cfg s e).1.rt.current version := by
    cases hread : acceptedReading codec cfg e with
    | none =>
        rw [hrt, hread]
        exact h
    | some r => exact h.writeState _
  cases announced codec cfg e with
  | none => exact hstate
  | some fw => exact hstate.writeVersion fw

theorem toldVersion_connAck (handled : List Event) :
    toldVersion codec cfg (handled ++ [.connAck]) = cfg.firmwareVersion := by
  rw [toldVersion, List.rtakeWhile_concat_neg]
  · rfl
  · simp [Event.isConnAck]

theorem toldVersion_concat (handled : List Event) {e : Event}
    (hconn : e ≠ .connAck) :
    toldVersion codec cfg (handled ++ [e]) =
      (announced codec cfg e).getD (toldVersion codec cfg handled) := by
  have hkeep : (!e.isConnAck) = true := by
    cases e with
    | connAck => exact absurd rfl hconn
    | _ => rfl
  rw [toldVersion, List.rtakeWhile_concat_pos (fun e => !e.isConnAck) handled e hkeep,
    latestAnnounced_append_singleton, toldVersion]
  cases announced codec cfg e <;> rfl

/-- Once nothing has been lost since a connect, the broker will retain what the
loop would publish now. -/
def Converges (codec : Codec) (cfg : Config) (s : Client) : Prop :=
  s.fresh = true → Serves codec cfg s.settled s.server.rt.current
    (toldVersion codec cfg s.handled)

theorem settled_congr (s s' : Client) (h : s'.retained = s.retained)
    (hpending : s'.pending.filterMap Request.write? =
      s.pending.filterMap Request.write?) : s'.settled = s.settled := by
  rw [settled, settled, h, hpending]

theorem Converges.step {s s' : Client} {a : ClientAction}
    (h : Converges codec cfg s) (hstep : s.step codec cfg a = some s') :
    Converges codec cfg s' := by
  rcases step_cases hstep with
    ⟨e, rfl, hping, htodo, rfl⟩ | ⟨r, rest, rfl, htodo, -, rfl⟩ |
    ⟨rfl, -, rfl⟩ | ⟨r, rest, rfl, htodo, hchannel, rfl⟩ |
    ⟨r, rest, rfl, hwire, rfl⟩ | ⟨kept, rfl, -, rfl⟩ | ⟨kept, rfl, -, -, rfl⟩ |
    ⟨rfl, rfl⟩
  · intro hfresh
    by_cases hconn : e = .connAck
    · subst hconn
      simp only [settled, pending, toldVersion_connAck]
      rw [List.filterMap_append, Store.writeAll_append]
      exact serves_connAck _ s.server
    · have hbefore : s.fresh = true := by
        cases e with
        | connAck => exact absurd rfl hconn
        | _ => exact hfresh
      have hserves := h hbefore
      simp only [settled, pending, htodo, List.append_nil] at hserves
      simp only [settled, pending, toldVersion_concat s.handled hconn]
      rw [List.filterMap_append, Store.writeAll_append]
      exact hserves.handleEvent hconn hping
  · intro hfresh
    have hsettled := settled_congr s
      { s with todo := rest, channel := s.channel ++ [r] } rfl
      (by simp [pending, htodo])
    rw [hsettled]
    exact h hfresh
  · -- a ping is not retained, wherever it comes in between
    intro hfresh
    have hsettled := settled_congr s
      { s with channel := s.channel ++ [pingRequest cfg] } rfl
      (by simp [pending, List.filterMap_cons])
    rw [hsettled]
    exact h hfresh
  · intro hfresh
    have hsettled := settled_congr s
      { s with channel := rest, wire := s.wire ++ [r] } rfl
      (by simp [pending, hchannel])
    rw [hsettled]
    exact h hfresh
  · intro hfresh
    have hserves := h hfresh
    simp only [settled, pending, hwire, List.cons_append, List.filterMap_cons]
      at hserves ⊢
    cases hwrite : r.write? with
    | none => simpa [hwrite] using hserves
    | some w => simpa [hwrite, Store.writeAll_cons] using hserves
  · intro hfresh
    cases hfresh
  · intro hfresh
    cases hfresh
  · intro hfresh
    cases hfresh

end Convergence

section Order

variable {codec : Codec} {cfg : Config}

/-- Requests of the loop's own. -/
def notPing (cfg : Config) (r : Request) : Bool := decide (r ≠ pingRequest cfg)

/-- The loop's requests that have not been lost, in the order of the events. -/
structure Records (codec : Codec) (cfg : Config) (begun : Server) (s : Client) :
    Prop where
  server : s.server = afterEvents codec cfg begun s.handled
  asked : ((s.arrived ++ s.pending).filter (notPing cfg)).Sublist
    ((requests codec cfg begun s.handled).filter (notPing cfg))
  exact : s.lossless = true → (s.arrived ++ s.pending).filter (notPing cfg) =
    (requests codec cfg begun s.handled).filter (notPing cfg)

/-- Moving requests on changes nothing about them. -/
theorem Records.of_same {begun : Server} {s s' : Client}
    (h : Records codec cfg begun s) (hserver : s'.server = s.server)
    (hhandled : s'.handled = s.handled) (hlossless : s'.lossless = s.lossless)
    (hsame : (s'.arrived ++ s'.pending).filter (notPing cfg) =
      (s.arrived ++ s.pending).filter (notPing cfg)) :
    Records codec cfg begun s' where
  server := by rw [hserver, hhandled, h.server]
  asked := by
    rw [hsame, hhandled]
    exact h.asked
  exact hl := by
    rw [hsame, hhandled]
    exact h.exact (hlossless ▸ hl)

theorem Records.of_lost {begun : Server} {s s' : Client}
    (h : Records codec cfg begun s) (hserver : s'.server = s.server)
    (hhandled : s'.handled = s.handled) (hlost : s'.lossless = false)
    (hsub : (s'.arrived ++ s'.pending).Sublist (s.arrived ++ s.pending)) :
    Records codec cfg begun s' where
  server := by rw [hserver, hhandled, h.server]
  asked := by
    rw [hhandled]
    exact (hsub.filter _).trans h.asked
  exact hl := by
    rw [hlost] at hl
    cases hl

/-- An event's requests follow all those before. -/
theorem Records.poll {begun : Server} {s : Client}
    (h : Records codec cfg begun s) (htodo : s.todo = []) (e : Event) :
    Records codec cfg begun { s with
      server := (handleEvent codec cfg s.server e).1
      todo := (handleEvent codec cfg s.server e).2
      handled := s.handled ++ [e]
      fresh := e.isConnAck || s.fresh } := by
  have hpending : s.pending = s.wire ++ s.channel := by
    rw [pending, htodo, List.append_nil]
  have hsplit : ∀ new : List Request,
      (s.arrived ++ (s.wire ++ s.channel ++ new)).filter (notPing cfg) =
        (s.arrived ++ s.pending).filter (notPing cfg) ++
          new.filter (notPing cfg) := by
    intro new
    rw [hpending, ← List.append_assoc, List.filter_append]
  have hrequests : (requests codec cfg begun (s.handled ++ [e])).filter
      (notPing cfg) = (requests codec cfg begun s.handled).filter (notPing cfg) ++
        (handleEvent codec cfg s.server e).2.filter (notPing cfg) := by
    rw [requests_concat, ← h.server, List.filter_append]
  constructor
  · rw [afterEvents_concat, ← h.server]
  · rw [hrequests]
    exact (hsplit _).symm ▸ h.asked.append (List.Sublist.refl _)
  · intro hl
    rw [hrequests, ← h.exact hl]
    exact hsplit _

theorem Records.step {begun : Server} {s s' : Client} {a : ClientAction}
    (h : Records codec cfg begun s) (hstep : s.step codec cfg a = some s') :
    Records codec cfg begun s' := by
  rcases step_cases hstep with
    ⟨e, rfl, hping, htodo, rfl⟩ | ⟨r, rest, rfl, htodo, -, rfl⟩ |
    ⟨rfl, -, rfl⟩ | ⟨r, rest, rfl, htodo, hchannel, rfl⟩ |
    ⟨r, rest, rfl, hwire, rfl⟩ | ⟨kept, rfl, hkept, rfl⟩ |
    ⟨kept, rfl, htodo, hkept, rfl⟩ | ⟨rfl, rfl⟩
  · exact h.poll htodo e
  · exact h.of_same rfl rfl rfl (by simp [pending, htodo])
  · exact h.of_same rfl rfl rfl (by simp [pending, notPing])
  · exact h.of_same rfl rfl rfl (by simp [pending, hchannel])
  · exact h.of_same rfl rfl rfl (by simp [pending, hwire])
  · refine h.of_lost rfl rfl rfl ?_
    exact (List.Sublist.refl _).append
      ((hkept.append (List.Sublist.refl _)).append (List.Sublist.refl _))
  · refine h.of_lost rfl rfl rfl ?_
    exact (List.Sublist.refl _).append
      (((List.Sublist.refl _).append hkept).append (List.Sublist.refl _))
  · refine h.of_lost rfl rfl rfl ?_
    exact (List.Sublist.refl _).append
      (((List.nil_sublist _).append (List.Sublist.refl _)).append
        (List.Sublist.refl _))

/-- The state published after some readings. -/
def stateBytes (codec : Codec) (cfg : Config) (begun : Server)
    (readings : List Stamped) : List UInt8 :=
  codec.jsonBytes (begun.rt.applyReadings codec.parseTs cfg BatteryCurve.default
    readings).current.toJson

def acceptedReadings (codec : Codec) (cfg : Config) (events : List Event) :
    List Stamped := events.filterMap (acceptedReading codec cfg)

theorem afterEvents_rt_eq (begun : Server) (events : List Event) :
    (afterEvents codec cfg begun events).rt =
      begun.rt.applyReadings codec.parseTs cfg BatteryCurve.default
        (acceptedReadings codec cfg events) := by
  induction events using List.reverseRecOn with
  | nil => rfl
  | append_singleton pre e ih =>
      rw [afterEvents_concat, handleEvent_rt, ih, acceptedReadings,
        acceptedReadings, List.filterMap_append, applyReadings_append]
      cases h : acceptedReading codec cfg e with
      | none => simp [h]
      | some r => simp [h]

theorem payloadOn_state_self (state : SensorState) :
    (stateMessage codec cfg state).payloadOn (Topics.new cfg.receiverId).state =
      some (codec.jsonBytes state.toJson) := Request.payloadOn_self ..

theorem payloadOn_state_version (fw : String) :
    (versionMessage cfg fw).payloadOn (Topics.new cfg.receiverId).state = none :=
  Request.payloadOn_of_ne (Topics.version_ne_state _).symm ..

theorem filterMap_notPing (rs : List Request) :
    (rs.filter (notPing cfg)).filterMap
        (Request.payloadOn (Topics.new cfg.receiverId).state) =
      rs.filterMap (Request.payloadOn (Topics.new cfg.receiverId).state) := by
  rw [List.filterMap_filter]
  apply List.filterMap_congr
  intro r _
  by_cases hr : r = pingRequest cfg
  · rw [hr, pingRequest,
      Request.payloadOn_of_ne (Topics.state_ne_ping cfg.receiverId), ite_self]
  · exact if_pos (by simpa [notPing] using hr)

/-- What an event asks to publish on the state topic. -/
theorem handleEvent_states (s : Server) {e : Event} (hping : e ≠ .ping) :
    (handleEvent codec cfg s e).2.filterMap
        (Request.payloadOn (Topics.new cfg.receiverId).state) =
      if e.isConnAck || (acceptedReading codec cfg e).isSome then
        [codec.jsonBytes (handleEvent codec cfg s e).1.rt.current.toJson]
      else [] := by
  by_cases hconn : e = .connAck
  · subst hconn
    have hradar := Request.payloadOn_of_ne
      (Topics.state_ne_radarParams cfg.receiverId)
    simp [handleEvent_connAck, payloadOn_state_self, payloadOn_state_version,
      hradar, Event.isConnAck, -Topics.new_state, -Topics.new_radarParams]
  · have hkind : e.isConnAck = false := by
      cases e with
      | connAck => exact absurd rfl hconn
      | _ => rfl
    rw [handleEvent_requests s hconn hping, List.filterMap_append, hkind,
      Bool.false_or]
    have hversion : ((announced codec cfg e).map
        (versionMessage cfg)).toList.filterMap
          (Request.payloadOn (Topics.new cfg.receiverId).state) = [] := by
      cases announced codec cfg e with
      | none => rfl
      | some fw => simp [payloadOn_state_version, -Topics.new_state]
    rw [hversion, List.append_nil]
    cases acceptedReading codec cfg e with
    | none => rfl
    | some r => simp [payloadOn_state_self, -Topics.new_state]

/-- The states asked for are those after more and more readings. -/
theorem requests_states (begun : Server) {events : List Event}
    (hping : .ping ∉ events) :
    FromPrefixes (stateBytes codec cfg begun) (acceptedReadings codec cfg events)
      ((requests codec cfg begun events).filterMap
        (Request.payloadOn (Topics.new cfg.receiverId).state)) := by
  induction events using List.reverseRecOn with
  | nil => exact .nil _ _
  | append_singleton pre e ih =>
      rw [List.mem_append, not_or, List.mem_singleton] at hping
      have hlonger := (ih hping.1).extend
        (acceptedReadings codec cfg [e])
      rw [acceptedReadings, acceptedReadings, ← List.filterMap_append] at hlonger
      rw [requests_concat, List.filterMap_append,
        handleEvent_states _ (Ne.symm hping.2)]
      split
      · have hstate : codec.jsonBytes
            (handleEvent codec cfg (afterEvents codec cfg begun pre)
              e).1.rt.current.toJson =
            stateBytes codec cfg begun (acceptedReadings codec cfg (pre ++ [e])) := by
          rw [← afterEvents_concat, afterEvents_rt_eq, stateBytes]
        rw [hstate]
        exact hlonger.concat
      · rw [List.append_nil]
        exact hlonger

end Order

end Client

open Client

namespace Sample

/-- A server connects, then its broker restarts while a reading is on its way. -/
def brokerRestartRun : List ClientAction :=
  .poll .connAck :: (List.replicate 6 .send ++ [.take, .take, .take, .arrive] ++
    [ .poll (.publish (Topics.new config.receiverId).read (Utf8.encode readText)
        "2026-06-10T20:44:35+02:00" true),
      .send, .take, .brokerRestart, .poll .error, .poll .connAck, .send, .send ])

theorem brokerRestartRun_runs :
    ∃ s, (begun served fun _ => none).run printingCodec config brokerRestartRun =
        some s ∧ s.fresh = true ∧ s.handled.length = 4 :=
  ⟨_, rfl, rfl, rfl⟩

end Sample

/-- However connections break and the broker restarts: once nothing has been lost
since a connect the loop has handled, the broker will retain, when what is under
way has arrived, the state the loop computed last, the configured parameters, and
the firmware announced since that connect, or else the configured one. -/
theorem broker_converges (codec : Codec) (cfg : Config) (server : Server)
    (retained : Store String (List UInt8)) (actions : List ClientAction)
    (s : Client) (hrun : (begun server retained).run codec cfg actions = some s)
    (hfresh : s.fresh = true) :
    Serves codec cfg s.settled s.server.rt.current
        (toldVersion codec cfg s.handled) ∧
      (s.pending = [] → s.settled = s.retained) := by
  have hbegun : Converges codec cfg (begun server retained) := fun h => by cases h
  refine ⟨Machine.run_invariant Converges.step hbegun hrun hfresh, ?_⟩
  intro hpending
  rw [settled, hpending]
  rfl

theorem brokerRestartRun_converges :
    ∃ s, (begun Sample.served fun _ => none).run Sample.printingCodec
        Sample.config Sample.brokerRestartRun = some s ∧
      Serves Sample.printingCodec Sample.config s.settled s.server.rt.current
        (toldVersion Sample.printingCodec Sample.config s.handled) := by
  obtain ⟨s, hs, hfresh, -⟩ := Sample.brokerRestartRun_runs
  exact ⟨s, hs, (broker_converges _ _ _ _ _ s hs hfresh).1⟩

/-- Nothing is invented, duplicated or reordered on the way: apart from pings,
what reached the broker and what is under way are requests of the handlers in
their order, all of them as long as nothing was lost.  So the states that reach
the broker are the server's after more and more readings, never an older one
after a newer. -/
theorem broker_sees_in_order (codec : Codec) (cfg : Config) (server : Server)
    (retained : Store String (List UInt8)) (actions : List ClientAction)
    (s : Client) (hrun : (begun server retained).run codec cfg actions = some s) :
    ((s.arrived ++ s.pending).filter (notPing cfg)).Sublist
        ((requests codec cfg server s.handled).filter (notPing cfg)) ∧
      (s.lossless = true → (s.arrived ++ s.pending).filter (notPing cfg) =
        (requests codec cfg server s.handled).filter (notPing cfg)) ∧
      FromPrefixes (stateBytes codec cfg server)
        (acceptedReadings codec cfg s.handled)
        (s.arrived.filterMap
          (Request.payloadOn (Topics.new cfg.receiverId).state)) := by
  have hbegun : Records codec cfg server (begun server retained) :=
    ⟨rfl, List.Sublist.refl _, fun _ => rfl⟩
  have hrecords := Machine.run_invariant Records.step hbegun hrun
  have hbounded := Machine.run_invariant Bounded.step
    (bounded_begun server retained) hrun
  refine ⟨hrecords.asked, hrecords.exact, ?_⟩
  apply (requests_states server hbounded.handled).sublist
  rw [← filterMap_notPing s.arrived, ← filterMap_notPing (requests _ _ _ _)]
  apply List.Sublist.filterMap
  exact ((List.sublist_append_left _ _).filter _).trans hrecords.asked

theorem brokerRestartRun_in_order :
    ∃ s, (begun Sample.served fun _ => none).run Sample.printingCodec
        Sample.config Sample.brokerRestartRun = some s ∧
      FromPrefixes (stateBytes Sample.printingCodec Sample.config Sample.served)
        (acceptedReadings Sample.printingCodec Sample.config s.handled)
        (s.arrived.filterMap
          (Request.payloadOn (Topics.new Sample.config.receiverId).state)) := by
  obtain ⟨s, hs, -⟩ := Sample.brokerRestartRun_runs
  exact ⟨s, hs, (broker_sees_in_order _ _ _ _ _ s hs).2.2⟩

end Aquilo
