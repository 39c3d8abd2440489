/-
Concurrent finalization checks.  Each call of `maybe_finalize` takes a snapshot
under a lock, swaps the written flag, writes the configuration and then the
state file, and puts the flag down again if that failed; the calls interleave
step by step with each other and with the collection of facts.
-/
import Aquilo.OneShot
import Aquilo.RecoveredConfig

namespace Aquilo

open OneShot

/-- The atomic steps: a message collected under lock `k`, or caller `i` of
`maybe_finalize` moving on.  A failed write of the configuration leaves anything
in its file; a failed save leaves the state file alone. -/
inductive FinalizeStep where
  | apply (k : ℕ) (src : Source)
  | snapshot (i k : ℕ)
  | swap (i : ℕ)
  | writeConfig (i : ℕ)
  | configFailed (i : ℕ) (left : Option String)
  | saveState (i : ℕ) (now : String)
  | saveFailed (i : ℕ)
  | reset (i : ℕ)

/-- The facts behind each lock (`learn` has one, `observe` one for each
connection), the flag with its callers, which callers are past writing the
configuration, and the two files. -/
structure Finalize where
  facts : ℕ → Facts
  guard : Guard ℕ Facts
  configured : ℕ → Bool
  configFile : Option String
  stateFile : Option PersistedState

/-- A state file with the values of a snapshot: no readings yet, and as last state what
the snapshot has of the sensor, read when it is written. -/
structure PersistedState.Carries (snap : Facts) (now : String) (p : PersistedState) :
    Prop where
  history : p.history = []
  lstEmpty : snap.seed.map Seed.lstEmpty = some p.lstEmpty
  lastState : ∃ last, p.lastState = some last ∧ snap.sensorId = some last.id ∧
    last.name = snap.sensorName.getD last.id ∧ last.lstRead = now ∧
    snap.seed = some last.seed
  calibration : p.calibration = Calibration.default

namespace Finalize

def initial (configFile : Option String) (stateFile : Option PersistedState) :
    Finalize where
  facts := fun _ => Facts.default
  guard := Guard.initial
  configured := fun _ => false
  configFile
  stateFile

/-- The caller's move on the flag, with nothing else changed. -/
def withGuard (s : Finalize) (a : OneShot.Action ℕ Facts) : Option Finalize :=
  (s.guard.step a).map fun g => { s with guard := g }

section Step

variable (codec : Codec) (opts : OnboardOptions)

def step (s : Finalize) : FinalizeStep → Option Finalize
  | .apply k src =>
      some { s with
        facts := Function.update s.facts k ((s.facts k).apply codec src) }
  | .snapshot i k =>
      match s.guard.phase i with
      | .idle =>
          if (s.facts k).isComplete then
            s.withGuard (.snapshot i (s.facts k))
          else some s
      | _ => none
  | .swap i =>
      (s.withGuard (.swap i)).map fun s' =>
        { s' with configured := Function.update s.configured i false }
  | .writeConfig i =>
      match s.guard.phase i, s.configured i with
      | .writing snap, false =>
          match renderConfig snap opts with
          | .error _ => s.withGuard (.fail i)
          | .ok text =>
              some { s with
                configured := Function.update s.configured i true
                configFile := some text }
      | _, _ => none
  | .configFailed i left =>
      match s.guard.phase i, s.configured i with
      | .writing _, false =>
          (s.withGuard (.fail i)).map fun s' => { s' with configFile := left }
      | _, _ => none
  | .saveState i now =>
      match s.guard.phase i, s.configured i with
      | .writing snap, true =>
          match generatedConfig snap opts with
          | .error _ => none
          | .ok g =>
              (s.withGuard (.succeed i)).map fun s' =>
                { s' with stateFile := some (initialState g now) }
      | _, _ => none
  | .saveFailed i =>
      match s.guard.phase i, s.configured i with
      | .writing _, true => s.withGuard (.fail i)
      | _, _ => none
  | .reset i => s.withGuard (.reset i)

def run (s : Finalize) (steps : List FinalizeStep) : Option Finalize :=
  Machine.run (step codec opts) s steps

/-- The files are those made of one snapshot. -/
def MadeOf (s : Finalize) (snap : Facts) : Prop :=
  ∃ g now, generatedConfig snap opts = .ok g ∧ s.configFile = some g.text ∧
    s.stateFile = some (initialState g now)

/-- What holds after every run. -/
structure Inv (s : Finalize) : Prop where
  stage : ∃ stage, s.guard.Refines stage
  valid : s.guard.Valid fun snap => snap.isComplete = true
  halfway : ∀ i snap, s.guard.phase i = .writing snap → s.configured i = true →
    ∃ g, generatedConfig snap opts = .ok g ∧ s.configFile = some g.text
  coherent : ∀ snap ∈ s.guard.succeeded, s.MadeOf opts snap

variable {codec opts}

theorem withGuard_eq_some {s s' : Finalize} {a : OneShot.Action ℕ Facts}
    (h : s.withGuard a = some s') :
    ∃ g, s.guard.step a = some g ∧ s' = { s with guard := g } := by
  obtain ⟨g, hg, rfl⟩ := Option.map_eq_some_iff.mp h
  exact ⟨g, hg, rfl⟩

/-- Everything a step can do. -/
theorem step_cases {s s' : Finalize} {a : FinalizeStep}
    (h : s.step codec opts a = some s') :
    (∃ k src, a = .apply k src ∧
      s' = { s with
        facts := Function.update s.facts k ((s.facts k).apply codec src) }) ∨
    (∃ i k, a = .snapshot i k ∧ (s.facts k).isComplete = false ∧ s' = s) ∨
    (∃ i k g, a = .snapshot i k ∧ (s.facts k).isComplete = true ∧
      s.guard.step (.snapshot i (s.facts k)) = some g ∧
      s' = { s with guard := g }) ∨
    (∃ i g, a = .swap i ∧ s.guard.step (.swap i) = some g ∧
      s' = { s with
        guard := g
        configured := Function.update s.configured i false }) ∨
    (∃ i snap g, a = .writeConfig i ∧ s.guard.phase i = .writing snap ∧
      generatedConfig snap opts = .ok g ∧
      s' = { s with
        configured := Function.update s.configured i true
        configFile := some g.text }) ∨
    (∃ i g left, s.guard.step (.fail i) = some g ∧
      s' = { s with guard := g, configFile := left }) ∨
    (∃ i snap g now guard', a = .saveState i now ∧
      s.guard.phase i = .writing snap ∧ s.configured i = true ∧
      generatedConfig snap opts = .ok g ∧
      s.guard.step (.succeed i) = some guard' ∧
      s' = { s with
        guard := guard'
        stateFile := some (initialState g now) }) ∨
    (∃ i g, a = .reset i ∧ s.guard.step (.reset i) = some g ∧
      s' = { s with guard := g }) := by
  cases a with
  | apply k src => exact Or.inl ⟨k, src, rfl, (Option.some.inj h).symm⟩
  | snapshot i k =>
      simp only [step] at h
      split at h
      · split at h
        · rename_i hcomplete
          obtain ⟨g, hg, rfl⟩ := withGuard_eq_some h
          exact Or.inr (Or.inr (Or.inl ⟨i, k, g, rfl, hcomplete, hg, rfl⟩))
        · rename_i hcomplete
          exact Or.inr (Or.inl ⟨i, k, rfl, Bool.eq_false_iff.mpr hcomplete,
            (Option.some.inj h).symm⟩)
      · cases h
  | swap i =>
      obtain ⟨mid, hmid, rfl⟩ := Option.map_eq_some_iff.mp h
      obtain ⟨g, hg, rfl⟩ := withGuard_eq_some hmid
      exact Or.inr (Or.inr (Or.inr (Or.inl ⟨i, g, rfl, hg, rfl⟩)))
  | writeConfig i =>
      simp only [step, renderConfig] at h
      split at h
      · rename_i snap hp _
        cases hconfig : generatedConfig snap opts with
        | error e =>
            rw [hconfig] at h
            obtain ⟨g, hg, rfl⟩ := withGuard_eq_some h
            exact Or.inr (Or.inr (Or.inr (Or.inr (Or.inr (Or.inl
              ⟨i, g, s.configFile, hg, rfl⟩)))))
        | ok g =>
            rw [hconfig] at h
            exact Or.inr (Or.inr (Or.inr (Or.inr (Or.inl
              ⟨i, snap, g, rfl, hp, hconfig, (Option.some.inj h).symm⟩))))
      · cases h
  | configFailed i left =>
      simp only [step] at h
      split at h
      · obtain ⟨mid, hmid, rfl⟩ := Option.map_eq_some_iff.mp h
        obtain ⟨g, hg, rfl⟩ := withGuard_eq_some hmid
        exact Or.inr (Or.inr (Or.inr (Or.inr (Or.inr (Or.inl
          ⟨i, g, left, hg, rfl⟩)))))
      · cases h
  | saveState i now =>
      simp only [step] at h
      split at h
      · rename_i snap hp hconfigured
        split at h
        · cases h
        · rename_i g hconfig
          obtain ⟨mid, hmid, rfl⟩ := Option.map_eq_some_iff.mp h
          obtain ⟨guard', hg, rfl⟩ := withGuard_eq_some hmid
          exact Or.inr (Or.inr (Or.inr (Or.inr (Or.inr (Or.inr (Or.inl
            ⟨i, snap, g, now, guard', rfl, hp, hconfigured, hconfig, hg,
              rfl⟩))))))
      · cases h
  | saveFailed i =>
      simp only [step] at h
      split at h
      · obtain ⟨g, hg, rfl⟩ := withGuard_eq_some h
        exact Or.inr (Or.inr (Or.inr (Or.inr (Or.inr (Or.inl
          ⟨i, g, s.configFile, hg, rfl⟩)))))
      · cases h
  | reset i =>
      obtain ⟨g, hg, rfl⟩ := withGuard_eq_some h
      exact Or.inr (Or.inr (Or.inr (Or.inr (Or.inr (Or.inr (Or.inr
        ⟨i, g, rfl, hg, rfl⟩))))))

theorem inv_initial (configFile : Option String)
    (stateFile : Option PersistedState) :
    (initial configFile stateFile).Inv opts where
  stage := ⟨.armed, Guard.refines_initial⟩
  valid := Guard.valid_initial _
  halfway _ _ h := by cases h
  coherent _ h := by cases h

theorem Inv.stage_step {s : Finalize} (h : s.Inv opts)
    {a : OneShot.Action ℕ Facts} {g : Guard ℕ Facts}
    (hg : s.guard.step a = some g) : ∃ stage, g.Refines stage := by
  obtain ⟨stage, hstage⟩ := h.stage
  exact hstage.step hg

theorem Inv.writer_unique {s : Finalize} (h : s.Inv opts) {i j : ℕ}
    {snap snap' : Facts} (hj : s.guard.phase j = .writing snap')
    (hi : s.guard.phase i = .writing snap) : j = i := by
  obtain ⟨stage, hstage⟩ := h.stage
  exact hstage.exclusive (by rw [hj]; trivial) (by rw [hi]; trivial)

theorem Inv.none_succeeded {s : Finalize} (h : s.Inv opts) {i : ℕ}
    {snap : Facts} (hi : s.guard.phase i = .writing snap) :
    s.guard.succeeded = [] := by
  obtain ⟨stage, hstage⟩ := h.stage
  exact hstage.succeeded_of_holds (i := i) (by rw [hi]; trivial)

/-- A move of the guard that neither begins nor completes a write. -/
theorem Inv.move {s : Finalize} (h : s.Inv opts) {a : OneShot.Action ℕ Facts}
    {g : Guard ℕ Facts} (hg : s.guard.step a = some g)
    (hvalid : ∀ i snap, a = .snapshot i snap → snap.isComplete = true)
    (hswap : ∀ i, a ≠ .swap i) (hsucceed : ∀ i, a ≠ .succeed i) :
    Inv opts { s with guard := g } where
  stage := h.stage_step hg
  valid := h.valid.step hvalid hg
  halfway i snap hi :=
    h.halfway i snap (Guard.writing_of_step hg hi (hswap i))
  coherent snap hsnap := by
    apply h.coherent snap
    rwa [← Guard.succeeded_of_step hg hsucceed]

theorem Inv.swap {s : Finalize} (h : s.Inv opts) {i : ℕ} {g : Guard ℕ Facts}
    (hg : s.guard.step (.swap i) = some g) :
    Inv opts { s with
      guard := g
      configured := Function.update s.configured i false } where
  stage := h.stage_step hg
  valid := h.valid.step (fun _ _ ha => by cases ha) hg
  halfway j snap hj hconfigured := by
    change Function.update s.configured i false j = true at hconfigured
    by_cases hji : j = i
    · rw [hji, Function.update_self] at hconfigured
      exact absurd hconfigured Bool.false_ne_true
    · rw [Function.update_of_ne hji] at hconfigured
      have hne : OneShot.Action.swap (σ := Facts) i ≠ .swap j := by
        rintro ⟨⟩
        exact hji rfl
      exact h.halfway j snap (Guard.writing_of_step hg hj hne) hconfigured
  coherent snap hsnap := by
    apply h.coherent snap
    rwa [← Guard.succeeded_of_step hg fun _ ha => by cases ha]

theorem Inv.writeConfig {s : Finalize} (h : s.Inv opts) {i : ℕ} {snap : Facts}
    (hp : s.guard.phase i = .writing snap) {g : GeneratedConfig}
    (hconfig : generatedConfig snap opts = .ok g) :
    Inv opts { s with
      configured := Function.update s.configured i true
      configFile := some g.text } where
  stage := h.stage
  valid := h.valid
  halfway j snap' hj _ := by
    obtain rfl : j = i := h.writer_unique hj hp
    obtain rfl := Phase.writing.inj (hp.symm.trans hj)
    exact ⟨g, hconfig, rfl⟩
  coherent snap' hsnap' := by
    have hnone := h.none_succeeded hp
    rw [hnone] at hsnap'
    cases hsnap'

/-- Nobody writes once the one who did has failed. -/
theorem Inv.fail {s : Finalize} (h : s.Inv opts) {i : ℕ} {g : Guard ℕ Facts}
    (hg : s.guard.step (.fail i) = some g) (left : Option String) :
    Inv opts { s with guard := g, configFile := left } where
  stage := h.stage_step hg
  valid := h.valid.step (fun _ _ ha => by cases ha) hg
  halfway j snap hj _ := by
    obtain ⟨⟨snap', hp⟩, rfl⟩ := Guard.step_fail hg
    have hbefore := Guard.writing_of_step hg hj fun ha => by cases ha
    obtain rfl : j = i := h.writer_unique hbefore hp
    change (s.guard.move j .failed).phase j = .writing snap at hj
    rw [Guard.move_phase, if_pos rfl] at hj
    cases hj
  coherent snap hsnap := by
    obtain ⟨⟨snap', hp⟩, -⟩ := Guard.step_fail hg
    have hnone := h.none_succeeded hp
    change snap ∈ g.succeeded at hsnap
    rw [Guard.succeeded_of_step hg (fun _ ha => by cases ha), hnone] at hsnap
    cases hsnap

theorem Inv.saveState {s : Finalize} (h : s.Inv opts) {i : ℕ} {snap : Facts}
    (hp : s.guard.phase i = .writing snap) (hconfigured : s.configured i = true)
    {g : GeneratedConfig} (hconfig : generatedConfig snap opts = .ok g)
    {guard' : Guard ℕ Facts} (hg : s.guard.step (.succeed i) = some guard')
    (now : String) :
    Inv opts { s with
      guard := guard'
      stateFile := some (initialState g now) } where
  stage := h.stage_step hg
  valid := h.valid.step (fun _ _ ha => by cases ha) hg
  halfway j snap' hj hj' :=
    h.halfway j snap' (Guard.writing_of_step hg hj fun ha => by cases ha) hj'
  coherent snap' hsnap' := by
    have hnone := h.none_succeeded hp
    obtain rfl := Guard.step_succeed hp hg
    change snap' ∈ s.guard.succeeded ++ [snap] at hsnap'
    rw [hnone, List.nil_append, List.mem_singleton] at hsnap'
    obtain ⟨g', hconfig', hfile⟩ := h.halfway i snap hp hconfigured
    obtain rfl := Except.ok.inj (hconfig.symm.trans hconfig')
    rw [hsnap']
    exact ⟨g, now, hconfig, hfile, rfl⟩

theorem Inv.step {s s' : Finalize} {a : FinalizeStep} (h : s.Inv opts)
    (hstep : s.step codec opts a = some s') : s'.Inv opts := by
  rcases step_cases hstep with
    ⟨k, src, rfl, rfl⟩ | ⟨i, k, rfl, -, rfl⟩ |
    ⟨i, k, g, rfl, hcomplete, hg, rfl⟩ | ⟨i, g, rfl, hg, rfl⟩ |
    ⟨i, snap, g, rfl, hp, hconfig, rfl⟩ | ⟨i, g, left, hg, rfl⟩ |
    ⟨i, snap, g, now, guard', rfl, hp, hconfigured, hconfig, hg, rfl⟩ |
    ⟨i, g, rfl, hg, rfl⟩
  · exact ⟨h.stage, h.valid, h.halfway, h.coherent⟩
  · exact h
  · apply h.move hg
    · rintro _ _ ⟨⟩
      exact hcomplete
    · rintro _ ⟨⟩
    · rintro _ ⟨⟩
  · exact h.swap hg
  · exact h.writeConfig hp hconfig
  · exact h.fail hg left
  · exact h.saveState hp hconfigured hconfig hg now
  · apply h.move hg
    · rintro _ _ ⟨⟩
    · rintro _ ⟨⟩
    · rintro _ ⟨⟩

/-- The invariant holds after every run. -/
theorem Inv.run {s s' : Finalize} {steps : List FinalizeStep} (h : s.Inv opts)
    (hrun : s.run codec opts steps = some s') : s'.Inv opts :=
  Machine.run_invariant Inv.step h hrun

/-- A write has succeeded and nothing has been written since. -/
structure Settled (snap : Facts) (done s : Finalize) : Prop where
  guard : s.guard.Refines (.spent snap)
  attempts : s.guard.attempts = done.guard.attempts
  configFile : s.configFile = done.configFile
  stateFile : s.stateFile = done.stateFile

/-- Once the guard is spent, the callers only come to the flag and go. -/
theorem Settled.step {snap : Facts} {done s s' : Finalize} {a : FinalizeStep}
    (h : Settled snap done s) (hstep : s.step codec opts a = some s') :
    Settled snap done s' := by
  have hmove : ∀ {a : OneShot.Action ℕ Facts} {g : Guard ℕ Facts},
      s.guard.step a = some g →
      g.Refines (.spent snap) ∧ g.attempts = done.guard.attempts := by
    intro a g hg
    obtain ⟨hspent, hattempts⟩ := h.guard.step_spent hg
    exact ⟨hspent, hattempts.trans h.attempts⟩
  have hnobody : ∀ {i : ℕ} {snap' : Facts}, s.guard.phase i ≠ .writing snap' :=
    fun {i} {_} hp => h.guard.2.2 i (by rw [hp]; trivial)
  rcases step_cases hstep with
    ⟨j, src, rfl, rfl⟩ | ⟨i, j, rfl, -, rfl⟩ | ⟨i, j, g, rfl, -, hg, rfl⟩ |
    ⟨i, g, rfl, hg, rfl⟩ | ⟨i, snap', g, rfl, hp, -, rfl⟩ |
    ⟨i, g, left, hg, rfl⟩ | ⟨i, snap', g, now, guard', rfl, hp, -, -, -, rfl⟩ |
    ⟨i, g, rfl, hg, rfl⟩
  · exact ⟨h.guard, h.attempts, h.configFile, h.stateFile⟩
  · exact h
  · exact ⟨(hmove hg).1, (hmove hg).2, h.configFile, h.stateFile⟩
  · exact ⟨(hmove hg).1, (hmove hg).2, h.configFile, h.stateFile⟩
  · exact absurd hp hnobody
  · obtain ⟨⟨snap', hp⟩, -⟩ := Guard.step_fail hg
    exact absurd hp hnobody
  · exact absurd hp hnobody
  · exact ⟨(hmove hg).1, (hmove hg).2, h.configFile, h.stateFile⟩

theorem Settled.run {snap : Facts} {s s' : Finalize}
    {steps : List FinalizeStep} (h : s.guard.Refines (.spent snap))
    (hrun : s.run codec opts steps = some s') : Settled snap s s' :=
  Machine.run_invariant (P := Settled snap s) Settled.step ⟨h, rfl, rfl, rfl⟩
    hrun

/-- Caller `i` has swapped the flag on a snapshot of lock `k`. -/
def begun (s : Finalize) (i k : ℕ) : Finalize :=
  { s with
    guard := { (s.guard.move i (.ready (s.facts k))).move i
        (.writing (s.facts k)) with
      flag := true
      attempts := s.guard.attempts ++ [s.facts k] }
    configured := Function.update s.configured i false }

@[simp] theorem begun_phase (s : Finalize) (i k : ℕ) :
    (s.begun i k).guard.phase i = .writing (s.facts k) :=
  Guard.move_phase_self _ _ _

theorem begun_phase_of_ne (s : Finalize) {i j : ℕ} (k : ℕ) (hj : j ≠ i) :
    (s.begun i k).guard.phase j = s.guard.phase j := by
  change ((s.guard.move i _).move i _).phase j = _
  rw [Guard.move_phase_of_ne hj, Guard.move_phase_of_ne hj]

@[simp] theorem begun_configured (s : Finalize) (i k : ℕ) :
    (s.begun i k).configured i = false := by
  simp only [begun, Function.update_self]

/-- With the flag down, a call that finds complete facts begins to write. -/
theorem run_begun {s : Finalize} (hflag : s.guard.flag = false) {i k : ℕ}
    (hidle : s.guard.phase i = .idle)
    (hcomplete : (s.facts k).isComplete = true) :
    s.run codec opts [.snapshot i k, .swap i] = some (s.begun i k) := by
  have hswap := Guard.step_swap_of_down (g := s.guard.move i (.ready (s.facts k)))
    (Guard.move_phase_self _ _ _) hflag
  simp only [run, Machine.run_cons, Machine.run_nil, step, hidle, hcomplete,
    if_true, withGuard, Guard.step_snapshot_of_idle hidle, Option.map_some,
    Option.bind_some, hswap]
  rfl

/-- The collector of `learn` between two calls: one lock, nobody at the flag, and
on disk what was written last. -/
structure Abstracts (l : Learn) (s : Finalize) : Prop where
  facts : s.facts 0 = l.facts
  flag : s.guard.flag = l.written
  quiet : ∀ i, s.guard.phase i = .idle
  disk : ∀ w ∈ l.writes.getLast?, s.configFile = some w.config.text ∧
    ∀ st ∈ w.state, s.stateFile = some st

/-- What caller `i` does on lock `k` if nobody interrupts it. -/
def callSteps (s : Finalize) (i k : ℕ) (tick : Tick) : List FinalizeStep :=
  if (s.facts k).isComplete = false then [.snapshot i k]
  else if s.guard.flag then [.snapshot i k, .swap i]
  else [.snapshot i k, .swap i] ++
    match tick.outcome with
    | .configFailed => [.configFailed i s.configFile, .reset i]
    | .stateFailed => [.writeConfig i, .saveFailed i, .reset i]
    | .ok => [.writeConfig i, .saveState i tick.now]

/-- With the flag up, a call that finds complete facts leaves again. -/
theorem run_refused {s : Finalize} (hflag : s.guard.flag = true) {i k : ℕ}
    (hidle : s.guard.phase i = .idle)
    (hcomplete : (s.facts k).isComplete = true) :
    s.run codec opts [.snapshot i k, .swap i] = some { s with
      guard := (s.guard.move i (.ready (s.facts k))).move i .idle
      configured := Function.update s.configured i false } := by
  have hswap := Guard.step_swap_of_up (g := s.guard.move i (.ready (s.facts k)))
    (Guard.move_phase_self _ _ _) hflag
  simp only [run, Machine.run_cons, Machine.run_nil, step, hidle, hcomplete,
    if_true, withGuard, Guard.step_snapshot_of_idle hidle, Option.map_some,
    Option.bind_some, hswap]

/-- A call that nobody interrupts does what the collector's check does. -/
theorem Abstracts.maybeFinalize {l : Learn} {s : Finalize} (h : Abstracts l s)
    (tick : Tick) :
    ∃ s', s.run codec opts (s.callSteps 0 0 tick) = some s' ∧
      Abstracts (l.maybeFinalize opts tick) s' := by
  have hidle := h.quiet 0
  rcases Learn.maybeFinalize_cases opts tick l with
    ⟨hincomplete, heq⟩ | ⟨hwritten, heq⟩ |
    ⟨hcomplete, hwritten, g, hconfig, hend⟩
  · rw [heq]
    refine ⟨s, ?_, h⟩
    rw [← h.facts] at hincomplete
    simp [callSteps, hincomplete, run, Machine.run_cons, step, hidle]
  · rw [heq]
    have hup := h.flag.trans hwritten
    by_cases hcomplete : (s.facts 0).isComplete = true
    · simp only [callSteps, hcomplete, hup, Bool.true_eq_false, if_false, if_true]
      refine ⟨_, run_refused hup hidle hcomplete, h.facts, h.flag, ?_, h.disk⟩
      intro j
      simp [Guard.move_phase, h.quiet]
    · refine ⟨s, ?_, h⟩
      rw [Bool.not_eq_true] at hcomplete
      simp [callSteps, hcomplete, run, Machine.run_cons, step, hidle]
  · have hdown := h.flag.trans hwritten
    rw [← h.facts] at hcomplete hconfig
    have hbegun : s.run codec opts [.snapshot 0 0, .swap 0] =
        some (s.begun 0 0) := run_begun hdown hidle hcomplete
    simp only [callSteps, hcomplete, hdown, Bool.true_eq_false, if_false,
      Bool.false_eq_true]
    have hquiet : ∀ j, j ≠ 0 → (s.begun 0 0).guard.phase j = .idle := by
      intro j hj
      rw [begun_phase_of_ne s 0 hj, h.quiet]
    rcases hend with ⟨hout, heq⟩ | ⟨hout, heq⟩ | ⟨hout, heq⟩
    · rw [heq, run, Machine.run_append_of_eq_some hbegun]
      simp only [hout, Machine.run_cons, Machine.run_nil, step, begun_phase,
        begun_configured, withGuard, Guard.step]
      refine ⟨_, rfl, h.facts, hwritten.symm, ?_, h.disk⟩
      apply Guard.move_idle_phase
      intro j hj
      rw [Guard.move_phase_of_ne hj, hquiet j hj]
    · rw [heq, run, Machine.run_append_of_eq_some hbegun]
      simp only [hout, Machine.run_cons, Machine.run_nil, step, begun_phase,
        begun_configured, withGuard, Guard.step, renderConfig, hconfig, Except.map,
        Option.bind_some, Option.map_some, Function.update_self]
      refine ⟨_, rfl, h.facts, hwritten.symm, ?_, ?_⟩
      · apply Guard.move_idle_phase
        intro j hj
        rw [Guard.move_phase_of_ne hj]
        exact hquiet j hj
      · simp
    · rw [heq, run, Machine.run_append_of_eq_some hbegun]
      simp only [hout, Machine.run_cons, Machine.run_nil, step, begun_phase,
        begun_configured, withGuard, Guard.step, renderConfig, hconfig, Except.map,
        Option.bind_some, Option.map_some, Function.update_self]
      refine ⟨_, rfl, h.facts, rfl, ?_, ?_⟩
      · exact Guard.move_idle_phase hquiet
      · simp

theorem Abstracts.step {l : Learn} {s : Finalize} (h : Abstracts l s)
    (a : LearnStep) :
    ∃ steps s', s.run codec opts steps = some s' ∧
      Abstracts (l.step codec opts a) s' := by
  cases a with
  | receive src =>
      refine ⟨[.apply 0 src], _, rfl, ?_, h.flag, h.quiet, h.disk⟩
      simp [Learn.step, h.facts]
  | finalize tick => exact ⟨_, h.maybeFinalize tick⟩

/-- Every run of the collector is a run of the interleaved calls, and what it
wrote last is what is on disk then. -/
theorem runSteps_simulated (configFile : Option String)
    (stateFile : Option PersistedState) (learnSteps : List LearnStep) :
    ∃ steps s', (initial configFile stateFile).run codec opts steps = some s' ∧
      Abstracts (Learn.runSteps codec opts learnSteps) s' := by
  induction learnSteps using List.reverseRecOn with
  | nil => exact ⟨[], _, rfl, rfl, rfl, fun _ => rfl, fun _ hw => by cases hw⟩
  | append_singleton learnSteps a ih =>
      obtain ⟨steps, mid, hrun, hmid⟩ := ih
      obtain ⟨more, s', hmore, hs'⟩ := hmid.step a
      refine ⟨steps ++ more, s', ?_, ?_⟩
      · rw [run, Machine.run_append_of_eq_some hrun]
        exact hmore
      · rw [Learn.runSteps, List.foldl_concat]
        exact hs'

end Step

end Finalize

namespace Sample

end Sample

end Aquilo
