/-
The connections of observe, one after another.  Each collects facts of its own,
and only the flag that says whether the outputs are written passes from one to
the next, so the outputs never mix what two connections said.
-/
import Aquilo.Observe
import Aquilo.Landing
import Aquilo.Credentials

namespace Aquilo

/-- What is read from a connection, and the turns taken before it ended: a write
to the socket that fails cuts them short. -/
structure ObserveSession where
  reads : List SocketRead
  handled : List ObserveEvent
  handled_prefix : handled <+: observeEvents Decoder.new reads

/-- What a turn asks of the collector. -/
def ObserveEvent.collects : ObserveEvent → List LearnStep
  | .packet (.connect c) _ _ => [.receive (.deviceConnect c)]
  | .packet (.publish m) now tick =>
      [.receive (.devicePublish m.topic m.payload now), .finalize tick]
  | .packet _ _ _ => []
  | .seedCheck _ => []

namespace ObserveSession

/-- What a connection asks of the collector. -/
def steps (v : ObserveSession) : List LearnStep :=
  v.handled.flatMap ObserveEvent.collects

/-- The messages collected from a connection. -/
def received (v : ObserveSession) : List Source := Learn.received v.steps

end ObserveSession

namespace Observe

open Learn

section Sessions

variable (codec : Codec) (opts : OnboardOptions)

/-- The session state after some turns. -/
def after (s : Observe) (events : List ObserveEvent) : Observe :=
  events.foldl (fun s e => (s.step codec opts e).1) s

/-- A run of observe: every connection, as it stood when it ended. -/
def sessions (written : Bool) : List ObserveSession → List Observe
  | [] => []
  | v :: rest =>
      let s := (connected written).after codec opts v.handled
      s :: sessions s.collector.written rest

variable {codec opts}

theorem step_collector (s : Observe) (e : ObserveEvent) :
    (s.step codec opts e).1.collector =
      e.collects.foldl (Learn.step codec opts) s.collector := by
  cases e with
  | packet p now tick => cases p <;> rfl
  | seedCheck now =>
      simp only [step, Observe.seedCheck]
      split
      · split <;> rfl
      · rfl

theorem after_collector (s : Observe) (events : List ObserveEvent) :
    (s.after codec opts events).collector =
      (events.flatMap ObserveEvent.collects).foldl (Learn.step codec opts)
        s.collector := by
  induction events generalizing s with
  | nil => rfl
  | cons e rest ih =>
      rw [List.flatMap_cons, List.foldl_append, ← step_collector]
      exact ih _

/-- A connection that finds the outputs written writes nothing. -/
theorem writes_of_connected_written (v : ObserveSession) :
    ((connected true).after codec opts v.handled).collector.written = true ∧
      ((connected true).after codec opts v.handled).collector.writes = [] := by
  rw [after_collector]
  exact ⟨written_of_written rfl _, writes_of_written rfl _⟩

theorem sessions_written (visits : List ObserveSession) :
    ∀ s ∈ sessions codec opts true visits, s.collector.writes = [] := by
  induction visits with
  | nil => simp [sessions]
  | cons v rest ih =>
      have hquiet : ((connected true).after codec opts v.handled).collector.written =
            true ∧
          ((connected true).after codec opts v.handled).collector.writes = [] :=
        writes_of_connected_written v
      obtain ⟨hwritten, hwrites⟩ := hquiet
      intro s hs
      rw [sessions, hwritten] at hs
      rcases List.mem_cons.mp hs with rfl | hs
      · exact hwrites
      · exact ih s hs

/-- A connection that finds nothing written runs the collector from the start. -/
theorem connected_collector (v : ObserveSession) :
    ((connected false).after codec opts v.handled).collector =
      v.steps.foldl (Learn.step codec opts) initial := by
  rw [after_collector]
  rfl

variable (codec opts) in
/-- What a connection writes is made from its own messages. -/
structure WritesOwn (v : ObserveSession) (s : Observe) : Prop where
  faithful : ∀ w ∈ s.collector.writes, Faithful codec opts w
  own : ∀ w ∈ s.collector.writes, w.seen <+: v.received

theorem writesOwn_of_no_writes {v : ObserveSession} {s : Observe}
    (h : s.collector.writes = []) : WritesOwn codec opts v s where
  faithful := by simp [h]
  own := by simp [h]

theorem writesOwn_connected (v : ObserveSession) :
    WritesOwn codec opts v
      ((connected false).after codec opts v.handled) := by
  have hinv : Inv codec opts
      ((connected false).after codec opts v.handled).collector := by
    rw [connected_collector]
    exact inv_initial.foldl v.steps
  refine ⟨hinv.faithful, fun w hw => ?_⟩
  have hseen : ((connected false).after codec opts v.handled).collector.seen =
      v.received := by
    rw [connected_collector, foldl_seen]
    rfl
  rw [← hseen]
  exact hinv.prefixes w hw

theorem writesOwn_sessions (written : Bool) (visits : List ObserveSession) :
    List.Forall₂ (WritesOwn codec opts) visits
      (sessions codec opts written visits) := by
  induction visits generalizing written with
  | nil => exact .nil
  | cons v rest ih =>
      refine .cons ?_ (ih _)
      cases written with
      | false => exact writesOwn_connected v
      | true => exact writesOwn_of_no_writes (writes_of_connected_written v).2

/-- The outputs of a run are those of the first connection in which they land. -/
theorem sessions_leave (visits : List ObserveSession) :
    Leaves codec opts (visits.findSome? fun v => landing codec [] v.steps)
      ((sessions codec opts false visits).flatMap fun s => s.collector.writes) := by
  induction visits with
  | nil => exact ⟨[], by simp, rfl⟩
  | cons v rest ih =>
      have hinv : Inv codec opts initial := inv_initial
      have hfold := foldl_landing hinv rfl (by simp [initial]) v.steps
      rw [← connected_collector] at hfold
      obtain ⟨hflag, hleaves⟩ := hfold
      rw [sessions, List.flatMap_cons, List.findSome?_cons]
      cases hland : landing codec [] v.steps with
      | none =>
          rw [show initial.seen = [] from rfl, hland] at hflag hleaves
          obtain ⟨attempts, hattempts, heq⟩ := hleaves
          rw [hflag, heq]
          exact ih.prepend hattempts
      | some landed =>
          rw [show initial.seen = [] from rfl, hland] at hflag hleaves
          rw [hflag, Option.isSome_some]
          rw [List.flatMap_eq_nil_iff.mpr (sessions_written rest), List.append_nil]
          exact hleaves

end Sessions

end Observe

open Observe Learn in
/-- Over any number of connections, each of any bytes and cut short anywhere, and
whatever writes fail, everything observe writes is made from the messages of one
connection, its credentials from one CONNECT exactly when the first of that
connection has a username and a password; and the outputs are those of the first
connection in which they land, after which nothing is written. -/
theorem observe_writes_from_one_connection (codec : Codec) (opts : OnboardOptions)
    (visits : List ObserveSession) :
    List.Forall₂
        (fun v s => ∀ w ∈ s.collector.writes,
          Faithful codec opts w ∧ w.seen <+: v.received ∧
            (FromOneConnect codec w ↔ FirstConnectFull v.received))
        visits (sessions codec opts false visits) ∧
      Leaves codec opts (visits.findSome? fun v => landing codec [] v.steps)
        ((sessions codec opts false visits).flatMap fun s => s.collector.writes) := by
  refine ⟨?_, sessions_leave visits⟩
  have hown : List.Forall₂ (WritesOwn codec opts) visits
      (sessions codec opts false visits) := writesOwn_sessions false visits
  apply hown.imp
  intro v s hs w hw
  have hfaithful := hs.faithful w hw
  have hseen := hs.own w hw
  exact ⟨hfaithful, hseen, fromOneConnect_iff hfaithful hseen⟩

end Aquilo
