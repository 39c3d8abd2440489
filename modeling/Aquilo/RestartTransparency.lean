/-
Restart transparency.  With one configuration and a store that takes every
save, killing and restarting the server changes nothing: it stands where the
uninterrupted run over the persisted readings stands.
-/
import Aquilo.Lifecycle

namespace Aquilo

open Aquilo.Runtime

/-- Reloading a snapshot gives the runtime back, unless an empty `lstEmpty`
would be replaced by a configured one. -/
theorem loadRuntime_snapshot {cfg : Config} {rt : Runtime}
    (hempty : rt.lstEmpty = "" → cfg.state.lstEmpty = "") (now : String) :
    loadRuntime cfg (.ok (some (snapshot cfg rt))) now = rt := by
  change Runtime.mk rt.current rt.history
    (if rt.lstEmpty = "" then cfg.state.lstEmpty else rt.lstEmpty) = rt
  by_cases h : rt.lstEmpty = ""
  · have hsame : cfg.state.lstEmpty = rt.lstEmpty := by rw [hempty h, h]
    rw [if_pos h, hsame]
  · rw [if_neg h]

/-- A loaded runtime never has an empty `lstEmpty` where the configuration has
one to give. -/
theorem loadRuntime_lstEmpty (cfg : Config) (disk : Disk) (now : String) :
    (loadRuntime cfg disk now).lstEmpty = "" → cfg.state.lstEmpty = "" := by
  match disk with
  | .ok (some p) =>
      simp only [loadRuntime]
      split
      · exact id
      · intro h
        contradiction
  | .ok none => exact id
  | .error _ => exact id

namespace System

section Transparency

variable (parseTs : String → Option ℤ) (battery : BatteryCurve) (cfg : Config)

/-- The readings whose save succeeded, oldest first. -/
def keptReadings (s : System) : List Stamped := s.kept.map Prod.snd

/-- The runtime after the first `n` persisted readings, without any kill. -/
def uninterrupted (base : Runtime) (s : System) (n : ℕ) : Runtime :=
  base.applyReadings parseTs cfg battery (s.keptReadings.take n)

/-- One configuration, every save succeeds, no timestamp is empty. -/
def Steady : Action → Prop
  | .start cfg' _ => cfg' = cfg
  | .persistSeed saved => saved = true
  | .receive r => r.2 ≠ ""
  | .persist saved => saved = true
  | _ => True

/-- Each published state is one of the uninterrupted run, and none is older
than one published before it. -/
def PublishesInOrder (base : Runtime) (s : System) : Prop :=
  ∃ marks : List ℕ, marks.Pairwise (· ≤ ·) ∧
    (∀ n ∈ marks, n ≤ s.keptReadings.length) ∧
    s.published =
      marks.map fun n => (uninterrupted parseTs battery cfg base s n).current

/-- Where the process can stand when `rt` is the runtime last persisted. -/
def AtRuntime (rt : Runtime) : Process → Prop
  | .down => True
  | .loaded cfg' rt' => cfg' = cfg ∧ rt' = rt
  | .polling cfg' rt' => cfg' = cfg ∧ rt' = rt
  | .applied cfg' rt' r => cfg' = cfg ∧ r.2 ≠ "" ∧
      rt' = rt.applyReading parseTs cfg battery r.1 r.2
  | .persisted cfg' rt' => cfg' = cfg ∧ rt' = rt

/-- After the first save: the store holds the uninterrupted run. -/
structure Tracks (base : Runtime) (s : System) : Prop where
  disk : s.disk = .ok (some (snapshot cfg
    (base.applyReadings parseTs cfg battery s.keptReadings)))
  lstEmpty : (base.applyReadings parseTs cfg battery s.keptReadings).lstEmpty =
    "" → cfg.state.lstEmpty = ""
  process : AtRuntime parseTs battery cfg
    (base.applyReadings parseTs cfg battery s.keptReadings) s.process
  published : PublishesInOrder parseTs battery cfg base s

/-- Before it: nothing has happened yet. -/
structure Fresh (store : Disk) (s : System) : Prop where
  disk : s.disk = store
  kept : s.kept = []
  published : s.published = []
  process : s.process = .down ∨
    ∃ now, s.process = .loaded cfg (loadRuntime cfg store now)

/-- The invariant of every run over a store that starts as `store`. -/
def Transparent (store : Disk) (s : System) : Prop :=
  match s.origin with
  | none => Fresh cfg store s
  | some base => (∃ now, base = loadRuntime cfg store now) ∧
      Tracks parseTs battery cfg base s

variable {parseTs battery cfg}

/-- A process that publishes has persisted what it publishes. -/
theorem AtRuntime.published_of_step {rt : Runtime} {s s' : System} {a : Action}
    (h : AtRuntime parseTs battery cfg rt s.process)
    (ha : a = .connAck ∨ a = .publishState)
    (hstep : s.step parseTs battery a = some s') :
    s'.published = s.published ++ [rt.current] := by
  rcases ha with rfl | rfl
  · cases hp : s.process <;>
      simp only [System.step, hp, Option.some.injEq, reduceCtorEq] at hstep
    rw [hp] at h
    rw [← hstep, ← h.2]
  · cases hp : s.process <;>
      simp only [System.step, hp, Option.some.injEq, reduceCtorEq] at hstep
    rw [hp] at h
    rw [← hstep, ← h.2]

theorem PublishesInOrder.congr {base : Runtime} {s s' : System}
    (h : PublishesInOrder parseTs battery cfg base s)
    (hkept : s'.kept = s.kept) (hpublished : s'.published = s.published) :
    PublishesInOrder parseTs battery cfg base s' := by
  have hreadings : s'.keptReadings = s.keptReadings :=
    congrArg (List.map Prod.snd) hkept
  unfold PublishesInOrder uninterrupted at h ⊢
  rwa [hreadings, hpublished]

/-- Publishing the runtime last persisted keeps the order. -/
theorem PublishesInOrder.publish {base rt : Runtime} {s s' : System}
    (h : PublishesInOrder parseTs battery cfg base s)
    (hrt : rt = base.applyReadings parseTs cfg battery s.keptReadings)
    (hkept : s'.kept = s.kept)
    (hpublished : s'.published = s.published ++ [rt.current]) :
    PublishesInOrder parseTs battery cfg base s' := by
  have hreadings : s'.keptReadings = s.keptReadings :=
    congrArg (List.map Prod.snd) hkept
  obtain ⟨marks, hsorted, hbound, heq⟩ := h
  refine ⟨marks ++ [s.keptReadings.length], ?_, ?_, ?_⟩
  · rw [List.pairwise_append]
    refine ⟨hsorted, List.pairwise_singleton _ _, ?_⟩
    intro n hn m hm
    rw [List.mem_singleton.mp hm]
    exact hbound n hn
  · intro n hn
    rw [hreadings]
    rcases List.mem_append.mp hn with hn | hn
    · exact hbound n hn
    · exact (List.mem_singleton.mp hn).le
  · have hlast : (uninterrupted parseTs battery cfg base s'
        s.keptReadings.length).current = rt.current := by
      rw [uninterrupted, hreadings, List.take_length, hrt]
    have hsame : ∀ n, uninterrupted parseTs battery cfg base s' n =
        uninterrupted parseTs battery cfg base s n := by
      intro n
      rw [uninterrupted, uninterrupted, hreadings]
    rw [List.map_append, List.map_singleton, hlast, hpublished, heq]
    simp only [hsame]

/-- Persisting one more reading leaves what was published in place. -/
theorem PublishesInOrder.keep {base : Runtime} {s s' : System}
    {entry : Config × Stamped}
    (h : PublishesInOrder parseTs battery cfg base s)
    (hkept : s'.kept = s.kept ++ [entry])
    (hpublished : s'.published = s.published) :
    PublishesInOrder parseTs battery cfg base s' := by
  have hreadings : s'.keptReadings = s.keptReadings ++ [entry.2] := by
    rw [keptReadings, hkept, List.map_append]
    rfl
  obtain ⟨marks, hsorted, hbound, heq⟩ := h
  refine ⟨marks, hsorted, ?_, ?_⟩
  · intro n hn
    have := hbound n hn
    rw [hreadings, List.length_append]
    omega
  · rw [hpublished, heq]
    apply List.map_congr_left
    intro n hn
    rw [uninterrupted, uninterrupted, hreadings,
      List.take_append_of_le_length (hbound n hn)]

theorem Tracks.of_seed {base : Runtime} {s : System} (hkept : s.kept = [])
    (hdisk : s.disk = .ok (some (snapshot cfg base)))
    (hprocess : s.process = .polling cfg base) (hpublished : s.published = [])
    (hempty : base.lstEmpty = "" → cfg.state.lstEmpty = "") :
    Tracks parseTs battery cfg base s := by
  have hrun : base.applyReadings parseTs cfg battery s.keptReadings = base := by
    rw [keptReadings, hkept, List.map_nil, applyReadings_nil]
  constructor
  · rw [hrun, hdisk]
  · rwa [hrun]
  · rw [hrun, hprocess]
    exact ⟨rfl, rfl⟩
  · exact ⟨[], List.Pairwise.nil, by simp, hpublished⟩

/-- Saving a reading moves the store to the next state of the uninterrupted
run; its timestamp keeps `lstEmpty` from becoming empty. -/
theorem Tracks.keep {base rt : Runtime} {s s' : System} {r : Stamped}
    (h : Tracks parseTs battery cfg base s) (hnow : r.2 ≠ "")
    (hrt : rt = (base.applyReadings parseTs cfg battery
      s.keptReadings).applyReading parseTs cfg battery r.1 r.2)
    (hkept : s'.kept = s.kept ++ [(cfg, r)])
    (hdisk : s'.disk = .ok (some (snapshot cfg rt)))
    (hprocess : s'.process = .persisted cfg rt)
    (hpublished : s'.published = s.published) :
    Tracks parseTs battery cfg base s' := by
  have hrun : base.applyReadings parseTs cfg battery s'.keptReadings = rt := by
    rw [keptReadings, hkept, List.map_append, applyReadings_append, hrt]
    rfl
  constructor
  · rw [hrun, hdisk]
  · rw [hrun, hrt, applyReading_lstEmpty]
    split
    · exact fun hempty => absurd hempty hnow
    · exact h.lstEmpty
  · rw [hrun, hprocess]
    exact ⟨rfl, rfl⟩
  · exact h.published.keep hkept hpublished

theorem Tracks.step {base : Runtime} {s s' : System} {a : Action}
    (h : Tracks parseTs battery cfg base s) (horigin : s.origin = some base)
    (hsteady : Steady cfg a) (hstep : s.step parseTs battery a = some s') :
    s'.origin = some base ∧ Tracks parseTs battery cfg base s' := by
  have hprocess := h.process
  rcases step_cases hstep with
    ⟨c, now, rfl, hp, rfl⟩ | ⟨saved, c, rt, rfl, hp, rfl⟩ |
    ⟨c, rt, rfl, hp, rfl⟩ | ⟨r, c, rt, rfl, hp, rfl⟩ |
    ⟨saved, c, rt, r, rfl, hp, rfl⟩ | ⟨c, rt, rfl, hp, rfl⟩ | ⟨rfl, rfl⟩
  · -- the store gives back the runtime it was handed
    cases hsteady
    refine ⟨horigin, h.disk, h.lstEmpty, ⟨rfl, ?_⟩, h.published.congr rfl rfl⟩
    rw [h.disk, loadRuntime_snapshot h.lstEmpty]
    rfl
  · obtain rfl : saved = true := hsteady
    rw [hp] at hprocess
    obtain ⟨rfl, rfl⟩ := hprocess
    exact ⟨by simp [horigin], rfl, h.lstEmpty, ⟨rfl, rfl⟩,
      h.published.congr rfl rfl⟩
  · rw [hp] at hprocess
    exact ⟨horigin, h.disk, h.lstEmpty, h.process,
      h.published.publish hprocess.2 rfl rfl⟩
  · rw [hp] at hprocess
    obtain ⟨rfl, rfl⟩ := hprocess
    exact ⟨horigin, h.disk, h.lstEmpty, ⟨rfl, hsteady, rfl⟩,
      h.published.congr rfl rfl⟩
  · obtain rfl : saved = true := hsteady
    rw [hp] at hprocess
    obtain ⟨rfl, hnow, hrt⟩ := hprocess
    exact ⟨horigin, h.keep hnow hrt rfl rfl rfl rfl⟩
  · rw [hp] at hprocess
    exact ⟨horigin, h.disk, h.lstEmpty, hprocess,
      h.published.publish hprocess.2 rfl rfl⟩
  · exact ⟨horigin, h.disk, h.lstEmpty, trivial, h.published.congr rfl rfl⟩

/-- Until the first save only a start, that save and a kill are possible. -/
theorem Fresh.step {store : Disk} {s s' : System} {a : Action}
    (h : Fresh cfg store s) (horigin : s.origin = none)
    (hsteady : Steady cfg a) (hstep : s.step parseTs battery a = some s') :
    Transparent parseTs battery cfg store s' := by
  rcases step_cases hstep with
    ⟨c, now, rfl, hp, rfl⟩ | ⟨saved, c, rt, rfl, hp, rfl⟩ |
    ⟨c, rt, rfl, hp, rfl⟩ | ⟨r, c, rt, rfl, hp, rfl⟩ |
    ⟨saved, c, rt, r, rfl, hp, rfl⟩ | ⟨c, rt, rfl, hp, rfl⟩ | ⟨rfl, rfl⟩
  · cases hsteady
    rw [Transparent, horigin]
    exact ⟨h.disk, h.kept, h.published, Or.inr ⟨now, by rw [h.disk]⟩⟩
  · obtain rfl : saved = true := hsteady
    rcases h.process with hdown | ⟨now, hloaded⟩
    · rw [hp] at hdown
      cases hdown
    · rw [hp] at hloaded
      cases hloaded
      simp only [Transparent, horigin, Option.none_or, ↓reduceIte]
      exact ⟨⟨now, rfl⟩, Tracks.of_seed h.kept rfl rfl h.published
        (loadRuntime_lstEmpty cfg store now)⟩
  · rcases hp ▸ h.process with hno | ⟨now, hno⟩ <;> cases hno
  · rcases hp ▸ h.process with hno | ⟨now, hno⟩ <;> cases hno
  · rcases hp ▸ h.process with hno | ⟨now, hno⟩ <;> cases hno
  · rcases hp ▸ h.process with hno | ⟨now, hno⟩ <;> cases hno
  · rw [Transparent, horigin]
    exact ⟨h.disk, h.kept, h.published, Or.inl rfl⟩

theorem Transparent.step {store : Disk} {s s' : System} {a : Action}
    (hsteady : Steady cfg a) (h : Transparent parseTs battery cfg store s)
    (hstep : s.step parseTs battery a = some s') :
    Transparent parseTs battery cfg store s' := by
  cases horigin : s.origin with
  | none =>
      rw [Transparent, horigin] at h
      exact h.step horigin hsteady hstep
  | some base =>
      rw [Transparent, horigin] at h
      obtain ⟨hloaded, htracks⟩ := h
      obtain ⟨horigin', htracks'⟩ := htracks.step horigin hsteady hstep
      rw [Transparent, horigin']
      exact ⟨hloaded, htracks'⟩

/-- The invariant holds after every run. -/
theorem Transparent.of_run {store : Disk} {actions : List Action}
    (hsteady : ∀ a ∈ actions, Steady cfg a) {s : System}
    (hrun : (initial store).run parseTs battery actions = some s) :
    Transparent parseTs battery cfg store s := by
  have hinit : Transparent parseTs battery cfg store (initial store) := by
    change Fresh cfg store (initial store)
    exact ⟨rfl, rfl, rfl, Or.inl rfl⟩
  exact Machine.run_induction Transparent.step hsteady hinit hrun

/-- The actions of one reading without a kill. -/
def handled (r : Stamped) : List Action :=
  [.receive r, .persist true, .publishState]

theorem run_handled {s : System} {rt : Runtime}
    (hprocess : s.process = .polling cfg rt) (r : Stamped) :
    s.run parseTs battery (handled r) = some
      { disk := .ok (some (snapshot cfg
          (rt.applyReading parseTs cfg battery r.1 r.2)))
        process := .polling cfg (rt.applyReading parseTs cfg battery r.1 r.2)
        published := s.published ++
          [(rt.applyReading parseTs cfg battery r.1 r.2).current]
        kept := s.kept ++ [(cfg, r)]
        origin := s.origin } := by
  simp only [handled, System.run, Machine.run, System.step, hprocess,
    Option.bind_some, ↓reduceIte]
  rfl

/-- A process that is never killed folds the readings it is given. -/
theorem run_unkilled {s : System} {rt : Runtime}
    (hprocess : s.process = .polling cfg rt) (readings : List Stamped) :
    ∃ s', s.run parseTs battery (readings.flatMap handled) = some s' ∧
      s'.process =
        .polling cfg (rt.applyReadings parseTs cfg battery readings) ∧
      s'.keptReadings = s.keptReadings ++ readings := by
  induction readings generalizing s rt with
  | nil => exact ⟨s, rfl, hprocess, by simp⟩
  | cons r rest ih =>
      have hone : s.run parseTs battery (handled r) = some _ :=
        run_handled hprocess r
      obtain ⟨s', hrun, hproc, hkept⟩ := ih (s := ⟨_, _, _, _, s.origin⟩) rfl
      refine ⟨s', ?_, hproc, ?_⟩
      · rw [List.flatMap_cons, System.run,
          Machine.run_append_of_eq_some hone]
        exact hrun
      · rw [hkept]
        simp [keptReadings]

/-- The run of one process over the readings, from the store it loads. -/
theorem run_uninterrupted (store : Disk) (now : String) (readings : List Stamped) :
    ∃ s, (initial store).run parseTs battery
        (.start cfg now :: .persistSeed true :: readings.flatMap handled) = some s ∧
      s.process = .polling cfg
        ((loadRuntime cfg store now).applyReadings parseTs cfg battery readings) ∧
      s.keptReadings = readings := by
  let seeded : System :=
    { disk := .ok (some (snapshot cfg (loadRuntime cfg store now)))
      process := .polling cfg (loadRuntime cfg store now)
      published := []
      kept := []
      origin := some (loadRuntime cfg store now) }
  have hpolling : seeded.process = .polling cfg (loadRuntime cfg store now) := rfl
  obtain ⟨s, hrun, hprocess, hkept⟩ := run_unkilled hpolling readings
  exact ⟨s, hrun, hprocess, hkept⟩

end Transparency

end System

open Aquilo.System in
/-- However the server is killed and restarted: before the first save nothing
is published; from then on the store loads back to the uninterrupted run over
the persisted readings, a running process stands there too (one reading ahead
while that reading is not yet persisted), every state published is one of that run,
none older than one published before it, and what a connect or a handled reading
publishes next is its last state.  The uninterrupted run is that of one process
which is given these readings and never killed. -/
theorem restart_transparent (parseTs : String → Option ℤ)
    (battery : BatteryCurve) (cfg : Config) (store : Disk)
    (actions : List Action) (hsteady : ∀ a ∈ actions, Steady cfg a) (s : System)
    (hrun : (initial store).run parseTs battery actions = some s) :
    (s.origin = none → s.disk = store ∧ s.kept = [] ∧ s.published = []) ∧
      ∀ base, s.origin = some base →
        let last := base.applyReadings parseTs cfg battery s.keptReadings
        (∃ now, base = loadRuntime cfg store now ∧
          ∃ s₀, (initial store).run parseTs battery
              (.start cfg now :: .persistSeed true ::
                s.keptReadings.flatMap handled) = some s₀ ∧
            s₀.process = .polling cfg last ∧ s₀.keptReadings = s.keptReadings) ∧
          (∀ now, loadRuntime cfg s.disk now = last) ∧
          AtRuntime parseTs battery cfg last s.process ∧
          PublishesInOrder parseTs battery cfg base s ∧
          ∀ a s', a = .connAck ∨ a = .publishState →
            s.step parseTs battery a = some s' →
              s'.published = s.published ++ [last.current] := by
  have h := Transparent.of_run hsteady hrun
  constructor
  · intro horigin
    rw [Transparent, horigin] at h
    exact ⟨h.disk, h.kept, h.published⟩
  · intro base horigin
    rw [Transparent, horigin] at h
    obtain ⟨⟨now, rfl⟩, htracks⟩ := h
    refine ⟨⟨now, rfl, run_uninterrupted store now s.keptReadings⟩, ?_,
      htracks.process, htracks.published, ?_⟩
    · intro now
      rw [htracks.disk]
      exact loadRuntime_snapshot htracks.lstEmpty now
    · exact fun a s' ha hstep => htracks.process.published_of_step ha hstep

namespace Sample

/-- One reading handled, one lost to a kill between folding and persisting,
then a restart. -/
def killedRun : List Action :=
  [ .start config "2026-06-10T20:00:00+02:00", .persistSeed true, .connAck,
    .receive (reading 150, "2026-06-10T20:01:00+02:00"), .persist true,
    .publishState,
    .receive (reading 149, "2026-06-10T20:02:00+02:00"), .kill,
    .start config "2026-06-10T20:03:00+02:00", .persistSeed true, .connAck ]

end Sample

open Aquilo.System in
/-- The connect after the restart publishes the state with the first reading. -/
theorem restart_transparent_killedRun :
    ∃ s base, (initial (.ok none)).run Sample.codec.parseTs BatteryCurve.default
        Sample.killedRun = some s ∧
      s.origin = some base ∧
      s.published.map SensorState.lvl = [751 / 5, 150, 150] ∧
      s.keptReadings =
        [(Sample.reading 150, "2026-06-10T20:01:00+02:00")] ∧
      ∀ now, loadRuntime Sample.config s.disk now =
        base.applyReadings Sample.codec.parseTs Sample.config
          BatteryCurve.default s.keptReadings := by
  have hsteady : ∀ a ∈ Sample.killedRun, Steady Sample.config a := by
    simp [Sample.killedRun, Steady]
  exact ⟨_, _, rfl, rfl, by decide +kernel, rfl,
    ((restart_transparent Sample.codec.parseTs BatteryCurve.default
      Sample.config (.ok none) Sample.killedRun hsteady _ rfl).2 _ rfl).2.1⟩

end Aquilo
