/-
Pump-out detection across restarts that change the calibration.  A reading is
compared with the percentage the process remembers.  That is the previous reading's
only where no failed save and no kill came between, and it was computed under the
calibration of its own time.
-/
import Aquilo.Lifecycle

namespace Aquilo

open ExactFloat Aquilo.Runtime

/-- Where a remembered percentage comes from: a reading with the configuration it was
received under, the state file as it was found, or the seed of a configuration. -/
inductive Provenance where
  | reading (cfg : Config) (r : Stamped)
  | file (last : SensorState)
  | seed (cfg : Config)

def Provenance.pct : Provenance → ℤ
  | reading cfg r => cfg.calibration.pct r.1.levelCm
  | file last => last.pct
  | seed cfg => cfg.state.pct

/-- What the store remembers, and what the running process does under its
configuration. -/
structure Memory where
  stored : Option Provenance
  running : Option (Config × Provenance)

/-- The last state a store holds. -/
def lastStored : Disk → Option SensorState
  | .ok (some p) => p.lastState
  | .ok none | .error _ => none

namespace Memory

def initial (disk : Disk) : Memory where
  stored := (lastStored disk).map .file
  running := none

/-- A start remembers what is stored, a reading itself, and a save that succeeds
stores what the process remembers. -/
def next (m : Memory) : Action → Memory
  | .start cfg _ => { m with running := some (cfg, m.stored.getD (.seed cfg)) }
  | .receive r => { m with running := m.running.map fun (cfg, _) => (cfg, .reading cfg r) }
  | .persistSeed saved | .persist saved =>
      if saved then { m with stored := (m.running.map Prod.snd).or m.stored } else m
  | .connAck | .publishState => m
  | .kill => { m with running := none }

/-- What is remembered after some actions. -/
def after (disk : Disk) (actions : List Action) : Memory :=
  actions.foldl next (initial disk)

theorem after_concat (disk : Disk) (actions : List Action) (a : Action) :
    after disk (actions ++ [a]) = (after disk actions).next a :=
  List.foldl_concat ..

end Memory

/-- The configuration of a running process and the percentage it holds. -/
def Process.holds? : Process → Option (Config × ℤ)
  | down => none
  | loaded cfg rt | polling cfg rt | applied cfg rt _ | persisted cfg rt =>
      some (cfg, rt.current.pct)

theorem loadRuntime_pct (cfg : Config) (disk : Disk) (now : String) :
    (loadRuntime cfg disk now).current.pct =
      ((lastStored disk).map SensorState.pct).getD cfg.state.pct := by
  cases disk with
  | error e => rfl
  | ok found =>
      cases found with
      | none => rfl
      | some p =>
          rw [lastStored, loadRuntime]
          cases p.lastState <;> rfl

namespace System

section Memory

variable {parseTs : String → Option ℤ} {battery : BatteryCurve}

/-- The store and the process hold the percentages that are remembered. -/
structure Remembers (m : Memory) (s : System) : Prop where
  stored : (lastStored s.disk).map SensorState.pct = m.stored.map Provenance.pct
  running : s.process.holds? = m.running.map fun (cfg, o) => (cfg, o.pct)

/-- A save that succeeds stores the percentage the process holds. -/
theorem Remembers.persist {m : Memory} {s : System} (h : Remembers m s) {cfg : Config}
    {rt : Runtime} (hholds : s.process.holds? = some (cfg, rt.current.pct))
    (saved : Bool) :
    (lastStored (Aquilo.persist cfg rt saved s.disk)).map SensorState.pct =
      (m.next (.persist saved)).stored.map Provenance.pct := by
  cases saved with
  | false => exact h.stored
  | true =>
      have hrunning := h.running
      rw [hholds, eq_comm, Option.map_eq_some_iff] at hrunning
      obtain ⟨⟨cfg', o⟩, ho, heq⟩ := hrunning
      obtain ⟨rfl, hpct⟩ := Prod.mk.inj heq
      simp only [Aquilo.persist, Memory.next, ho, ↓reduceIte, lastStored, snapshot,
        Option.map_some, Option.some_or, hpct]

theorem Remembers.step {m : Memory} {s s' : System} {a : Action} (h : Remembers m s)
    (hstep : s.step parseTs battery a = some s') : Remembers (m.next a) s' := by
  have hrunning := h.running
  rcases step_cases hstep with
    ⟨c, now, rfl, hp, rfl⟩ | ⟨saved, c, rt, rfl, hp, rfl⟩ |
    ⟨c, rt, rfl, hp, rfl⟩ | ⟨r, c, rt, rfl, hp, rfl⟩ |
    ⟨saved, c, rt, r, rfl, hp, rfl⟩ | ⟨c, rt, rfl, hp, rfl⟩ | ⟨rfl, rfl⟩
  · refine ⟨h.stored, ?_⟩
    rw [Process.holds?, loadRuntime_pct, h.stored, Memory.next, Option.map_some]
    cases m.stored <;> rfl
  · rw [hp] at hrunning
    refine ⟨h.persist (by rw [hp]; rfl) saved, ?_⟩
    cases saved <;> exact hrunning
  · exact ⟨h.stored, h.running⟩
  · -- the runtime of a folded reading carries that reading's percentage
    rw [hp, Process.holds?, eq_comm, Option.map_eq_some_iff] at hrunning
    obtain ⟨⟨c', o⟩, ho, heq⟩ := hrunning
    obtain ⟨rfl, -⟩ := Prod.mk.inj heq
    refine ⟨h.stored, ?_⟩
    simp only [Memory.next, ho, Option.map_some, Process.holds?, applyReading_pct,
      Provenance.pct]
  · rw [hp] at hrunning
    refine ⟨h.persist (by rw [hp]; rfl) saved, ?_⟩
    cases saved <;> exact hrunning
  · rw [hp] at hrunning
    exact ⟨h.stored, hrunning⟩
  · exact ⟨h.stored, rfl⟩

/-- A polling process holds a percentage that comes from somewhere. -/
theorem Remembers.polling {m : Memory} {s : System} (h : Remembers m s) {cfg : Config}
    {rt : Runtime} (hpolling : s.process = .polling cfg rt) :
    ∃ o, m.running = some (cfg, o) ∧ rt.current.pct = o.pct := by
  have hrunning := h.running
  rw [hpolling, Process.holds?, eq_comm, Option.map_eq_some_iff] at hrunning
  obtain ⟨⟨cfg', o⟩, ho, heq⟩ := hrunning
  obtain ⟨rfl, hpct⟩ := Prod.mk.inj heq
  exact ⟨o, ho, hpct.symm⟩

end Memory

end System

section Recalibration

variable (parseTs : String → Option ℤ) (battery : BatteryCurve) (disk : Disk)
variable (actions : List Action)

variable {parseTs battery disk actions}

end Recalibration

namespace Sample

end Sample

end Aquilo
