/-
Processes of the server over one store: each is started, serves, and is killed
at any point, also between folding a reading, persisting it and publishing it.
-/
import Aquilo.Machine
import Aquilo.Serve

namespace Aquilo

open Aquilo.Runtime

/-- Where the running process stands. -/
inductive Process where
  | down
  | loaded (cfg : Config) (rt : Runtime)
  | polling (cfg : Config) (rt : Runtime)
  | applied (cfg : Config) (rt : Runtime) (r : Stamped)
  | persisted (cfg : Config) (rt : Runtime)

/-- The store, the process, and what a reader of the logs would have seen: the
states published, the readings whose save succeeded, each with the
configuration it was received under, and the first runtime ever saved. -/
structure System where
  disk : Disk
  process : Process
  published : List SensorState
  kept : List (Config × Stamped)
  origin : Option Runtime

inductive Action where
  | start (cfg : Config) (now : String)
  | persistSeed (saved : Bool)
  | connAck
  | receive (r : Stamped)
  | persist (saved : Bool)
  | publishState
  | kill

/-- The reading an action brings. -/
def Action.reading? : Action → Option Stamped
  | receive r => some r
  | _ => none

namespace System

def initial (disk : Disk) : System where
  disk := disk
  process := .down
  published := []
  kept := []
  origin := none

section Step

variable (parseTs : String → Option ℤ) (battery : BatteryCurve)

def step (s : System) : Action → Option System
  | .start cfg now =>
      match s.process with
      | .down =>
          some { s with process := .loaded cfg (loadRuntime cfg s.disk now) }
      | _ => none
  | .persistSeed saved =>
      match s.process with
      | .loaded cfg rt =>
          some { s with
            disk := Aquilo.persist cfg rt saved s.disk
            process := .polling cfg rt
            origin := if saved then s.origin.or (some rt) else s.origin }
      | _ => none
  | .connAck =>
      match s.process with
      | .polling _ rt => some { s with published := s.published ++ [rt.current] }
      | _ => none
  | .receive r =>
      match s.process with
      | .polling cfg rt =>
          some { s with
            process :=
              .applied cfg (rt.applyReading parseTs cfg battery r.1 r.2) r }
      | _ => none
  | .persist saved =>
      match s.process with
      | .applied cfg rt r =>
          some { s with
            disk := Aquilo.persist cfg rt saved s.disk
            process := .persisted cfg rt
            kept := if saved then s.kept ++ [(cfg, r)] else s.kept }
      | _ => none
  | .publishState =>
      match s.process with
      | .persisted cfg rt =>
          some { s with
            process := .polling cfg rt
            published := s.published ++ [rt.current] }
      | _ => none
  | .kill => some { s with process := .down }

/-- A run; `none` when some action was not enabled. -/
def run (s : System) (actions : List Action) : Option System :=
  Machine.run (step parseTs battery) s actions

variable {parseTs battery}

/-- Everything a step can do. -/
theorem step_cases {s s' : System} {a : Action}
    (h : s.step parseTs battery a = some s') :
    (∃ cfg now, a = .start cfg now ∧ s.process = .down ∧
      s' = { s with process := .loaded cfg (loadRuntime cfg s.disk now) }) ∨
    (∃ saved cfg rt, a = .persistSeed saved ∧ s.process = .loaded cfg rt ∧
      s' = { s with
        disk := Aquilo.persist cfg rt saved s.disk
        process := .polling cfg rt
        origin := if saved then s.origin.or (some rt) else s.origin }) ∨
    (∃ cfg rt, a = .connAck ∧ s.process = .polling cfg rt ∧
      s' = { s with published := s.published ++ [rt.current] }) ∨
    (∃ r cfg rt, a = .receive r ∧ s.process = .polling cfg rt ∧
      s' = { s with
        process :=
          .applied cfg (rt.applyReading parseTs cfg battery r.1 r.2) r }) ∨
    (∃ saved cfg rt r, a = .persist saved ∧ s.process = .applied cfg rt r ∧
      s' = { s with
        disk := Aquilo.persist cfg rt saved s.disk
        process := .persisted cfg rt
        kept := if saved then s.kept ++ [(cfg, r)] else s.kept }) ∨
    (∃ cfg rt, a = .publishState ∧ s.process = .persisted cfg rt ∧
      s' = { s with
        process := .polling cfg rt
        published := s.published ++ [rt.current] }) ∨
    (a = .kill ∧ s' = { s with process := .down }) := by
  cases a with
  | start cfg now =>
      cases hp : s.process <;> simp only [step, hp, Option.some.injEq, reduceCtorEq] at h
      exact Or.inl ⟨cfg, now, rfl, rfl, h.symm⟩
  | persistSeed saved =>
      cases hp : s.process <;> simp only [step, hp, Option.some.injEq, reduceCtorEq] at h
      exact Or.inr (Or.inl ⟨saved, _, _, rfl, rfl, h.symm⟩)
  | connAck =>
      cases hp : s.process <;> simp only [step, hp, Option.some.injEq, reduceCtorEq] at h
      exact Or.inr (Or.inr (Or.inl ⟨_, _, rfl, rfl, h.symm⟩))
  | receive r =>
      cases hp : s.process <;> simp only [step, hp, Option.some.injEq, reduceCtorEq] at h
      exact Or.inr (Or.inr (Or.inr (Or.inl ⟨r, _, _, rfl, rfl, h.symm⟩)))
  | persist saved =>
      cases hp : s.process <;> simp only [step, hp, Option.some.injEq, reduceCtorEq] at h
      exact Or.inr (Or.inr (Or.inr (Or.inr
        (Or.inl ⟨saved, _, _, _, rfl, rfl, h.symm⟩))))
  | publishState =>
      cases hp : s.process <;> simp only [step, hp, Option.some.injEq, reduceCtorEq] at h
      exact Or.inr (Or.inr (Or.inr (Or.inr (Or.inr
        (Or.inl ⟨_, _, rfl, rfl, h.symm⟩)))))
  | kill =>
      exact Or.inr (Or.inr (Or.inr (Or.inr (Or.inr (Or.inr
        ⟨rfl, (Option.some.inj h).symm⟩)))))

end Step

section Serve

variable (codec : Codec) (cfg : Config)

/-- The serve loop's handling of a `/read`, cut at its kill points. -/
theorem run_reading_eq_handleRead (battery : BatteryCurve) (s : System)
    {rt : Runtime} (hpolling : s.process = .polling cfg rt) (reading : Reading)
    (now : String) (saved : Bool) :
    let served := (handleRead codec cfg (Topics.new cfg.receiverId) battery
      reading now saved ⟨rt, s.disk⟩).1
    s.run codec.parseTs battery
        [.receive (reading, now), .persist saved, .publishState] =
      some { s with
        disk := served.disk
        process := .polling cfg served.rt
        published := s.published ++ [served.rt.current]
        kept := if saved then s.kept ++ [(cfg, (reading, now))] else s.kept } := by
  simp only [run, Machine.run, step, hpolling, Option.bind_some]
  rfl

/-- A connect publishes the state the loop would seed. -/
theorem connAck_publishes_seed (battery : BatteryCurve) (s : System)
    {rt : Runtime} (hpolling : s.process = .polling cfg rt) :
    ∃ s', s.step codec.parseTs battery .connAck = some s' ∧
      s'.published = s.published ++ [rt.current] ∧
      publishState codec (Topics.new cfg.receiverId) rt.current ∈
        (handleEvent codec cfg ⟨rt, s.disk⟩ .connAck).2 := by
  refine ⟨{ s with published := s.published ++ [rt.current] }, ?_, rfl, ?_⟩
  · simp only [step, hpolling]
  · simp [handleEvent, seedRetained]

end Serve

end System

end Aquilo
