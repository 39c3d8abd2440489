/-
The figures of a run.  However processes end and the power fails, percentages stay
percentages and the days left do not fall below zero, where the state file and the
seeds have such figures.
-/
import Aquilo.Baseline
import Aquilo.BatteryTable
import Aquilo.PowerCuts

namespace Aquilo

open ExactFloat AtomicReplace JsonFileStore Aquilo.Runtime

/-- What a household is shown. -/
structure SensorState.Sensible (s : SensorState) : Prop where
  pct : 0 ≤ s.pct ∧ s.pct ≤ 100
  bat : 0 ≤ s.bat ∧ s.bat ≤ 100
  daysLeft : 0 ≤ s.daysLeft

instance (s : SensorState) : Decidable s.Sensible :=
  decidable_of_iff
    ((0 ≤ s.pct ∧ s.pct ≤ 100) ∧ (0 ≤ s.bat ∧ s.bat ≤ 100) ∧ 0 ≤ s.daysLeft)
    ⟨fun h => ⟨h.1, h.2.1, h.2.2⟩, fun h => ⟨h.pct, h.bat, h.daysLeft⟩⟩

def PersistedState.Sensible (p : PersistedState) : Prop :=
  ∀ last ∈ p.lastState, last.Sensible

section Reading

theorem default_percent_mem (mv : ℤ) :
    0 ≤ BatteryCurve.default.percent mv ∧ BatteryCurve.default.percent mv ≤ 100 := by
  have hbridges : LookupTable.Bridges BatteryCurve.interpolate
      BatteryCurve.default.points := BatteryCurve.bridges_interpolate (by decide)
  rw [BatteryCurve.percent_eq_read]
  exact LookupTable.read_mem_Icc BatteryCurve.default.nonempty hbridges (by decide) mv

theorem zero_le_daysLeft {parseTs : String → Option ℤ} {history : List ReadingRecord}
    {fullDist : ℚ} {days : ℤ} (h : daysLeft parseTs history fullDist = some days) :
    0 ≤ days := by
  rw [daysLeft] at h
  split at h
  · cases h
  · obtain ⟨first, -, h⟩ := Option.bind_eq_some_iff.mp h
    obtain ⟨t0, -, h⟩ := Option.bind_eq_some_iff.mp h
    obtain ⟨points, -, h⟩ := Option.bind_eq_some_iff.mp h
    split at h
    · cases h
    · dsimp only at h
      split at h
      · cases h
      · obtain ⟨current, -, h⟩ := Option.bind_eq_some_iff.mp h
        cases h
        simp only [saturate, i64Min, i64Max]
        omega

theorem applyReading_sensible (parseTs : String → Option ℤ) (cfg : Config)
    (r : Stamped) {rt : Runtime} (h : rt.current.Sensible) :
    (rt.applyReading parseTs cfg BatteryCurve.default r.1 r.2).current.Sensible where
  pct := ⟨cfg.calibration.zero_le_pct _, cfg.calibration.pct_le_hundred _⟩
  bat := default_percent_mem r.1.batteryMv
  daysLeft := by
    rw [applyReading_daysLeft]
    cases hdays : daysLeft parseTs _ cfg.calibration.fullDist with
    | none => exact h.daysLeft
    | some days => exact zero_le_daysLeft hdays

end Reading

theorem sensible_loadRuntime {disk : Disk}
    (hdisk : ∀ p, disk = .ok (some p) → p.Sensible) {cfg : Config} {now : String}
    (hseed : (seedState cfg now).Sensible) :
    (loadRuntime cfg disk now).current.Sensible := by
  cases disk with
  | error e => exact hseed
  | ok found =>
      cases found with
      | none => exact hseed
      | some p =>
          rw [loadRuntime]
          cases hlast : p.lastState with
          | none => exact hseed
          | some last => exact hdisk p rfl last hlast

theorem sensible_snapshot {rt : Runtime} (h : rt.current.Sensible) (cfg : Config) :
    (snapshot cfg rt).Sensible := by
  intro last hlast
  rw [← Option.some.inj hlast]
  exact h

theorem sensible_persist {disk : Disk}
    (hdisk : ∀ p, disk = .ok (some p) → p.Sensible) {rt : Runtime}
    (hrt : rt.current.Sensible) (cfg : Config) (saved : Bool) :
    ∀ p, persist cfg rt saved disk = .ok (some p) → p.Sensible := by
  cases saved with
  | false => exact hdisk
  | true =>
      intro p hp
      cases hp
      exact sensible_snapshot hrt cfg

namespace System

/-- The stored, the running and the published states have sensible figures. -/
structure Sensible (s : System) : Prop where
  disk : ∀ p, s.disk = .ok (some p) → p.Sensible
  process : ∀ rt, s.process.runtime? = some rt → rt.current.Sensible
  published : ∀ state ∈ s.published, state.Sensible

theorem sensible_initial {disk : Disk}
    (hdisk : ∀ p, disk = .ok (some p) → p.Sensible) : (initial disk).Sensible where
  disk := hdisk
  process := by rintro rt ⟨⟩
  published := by simp [initial]

theorem Sensible.step {parseTs : String → Option ℤ} {s s' : System} {a : Action}
    (hseed : ∀ cfg now, a = .start cfg now → (seedState cfg now).Sensible)
    (h : s.Sensible) (hstep : s.step parseTs BatteryCurve.default a = some s') :
    s'.Sensible := by
  have hrunning : ∀ {p : Process} {rt : Runtime}, s.process = p →
      p.runtime? = some rt → rt.current.Sensible := by
    rintro p rt rfl hrt
    exact h.process rt hrt
  have hpublish : ∀ {rt : Runtime}, rt.current.Sensible →
      ∀ state ∈ s.published ++ [rt.current], state.Sensible := by
    intro rt hrt
    rw [List.forall_mem_append, List.forall_mem_singleton]
    exact ⟨h.published, hrt⟩
  rcases step_cases hstep with
    ⟨c, now, rfl, hp, rfl⟩ | ⟨saved, c, rt, rfl, hp, rfl⟩ |
    ⟨c, rt, rfl, hp, rfl⟩ | ⟨r, c, rt, rfl, hp, rfl⟩ |
    ⟨saved, c, rt, r, rfl, hp, rfl⟩ | ⟨c, rt, rfl, hp, rfl⟩ | ⟨rfl, rfl⟩
  · refine ⟨h.disk, ?_, h.published⟩
    rintro rt ⟨⟩
    exact sensible_loadRuntime h.disk (hseed c now rfl)
  · have hrt := hrunning hp rfl
    refine ⟨sensible_persist h.disk hrt c saved, ?_, h.published⟩
    rintro rt' ⟨⟩
    exact hrt
  · exact ⟨h.disk, h.process, hpublish (hrunning hp rfl)⟩
  · refine ⟨h.disk, ?_, h.published⟩
    rintro rt' ⟨⟩
    exact applyReading_sensible parseTs c r (hrunning hp rfl)
  · have hrt := hrunning hp rfl
    refine ⟨sensible_persist h.disk hrt c saved, ?_, h.published⟩
    rintro rt' ⟨⟩
    exact hrt
  · have hrt := hrunning hp rfl
    refine ⟨h.disk, ?_, hpublish hrt⟩
    rintro rt' ⟨⟩
    exact hrt
  · refine ⟨h.disk, ?_, h.published⟩
    rintro rt ⟨⟩

end System

namespace FileServer

theorem runtime?_afterSave (p : Process) : p.afterSave.runtime? = p.runtime? := by
  cases p <;> rfl

theorem ProcessMatches.runtime? {process abstract : Process}
    {progress : Progress UInt8 PersistedState}
    (h : ProcessMatches process abstract progress) :
    abstract.runtime? = process.runtime? := by
  cases progress with
  | idle => rw [show abstract = process from h]
  | begun state | writing state _ _ | synced state _ => rw [h.2]
  | replaced state => rw [h.2, runtime?_afterSave]

theorem snapshot_of_toSave {p : Process} {state : PersistedState}
    (h : p.toSave = some state) :
    ∃ cfg rt, p.runtime? = some rt ∧ state = snapshot cfg rt := by
  cases p with
  | loaded cfg rt | applied cfg rt r => exact ⟨cfg, rt, rfl, (Option.some.inj h).symm⟩
  | down | polling cfg rt | persisted cfg rt => cases h

/-- A start has sensible figures to fall back to. -/
def SeedsSensible : FileAction → Prop
  | .start cfg now => (seedState cfg now).Sensible
  | _ => True

theorem Matches.seedsSensible {a : FileAction} {bs : List Aquilo.Action}
    (h : Matches a bs) (ha : SeedsSensible a) :
    ∀ b ∈ bs, ∀ cfg now, b = .start cfg now → (seedState cfg now).Sensible := by
  cases h with
  | start cfg' now' =>
      intro b hb cfg now hstart
      cases (List.mem_singleton.mp hb).symm.trans hstart
      exact ha
  | _ => simp

theorem seedsSensible_flatten {actions : List FileAction}
    {pieces : List (List Aquilo.Action)} (h : List.Forall₂ Matches actions pieces)
    (hseeds : ∀ a ∈ actions, SeedsSensible a) :
    ∀ b ∈ pieces.flatten, ∀ cfg now, b = .start cfg now →
      (seedState cfg now).Sensible := by
  induction h with
  | nil => exact fun b hb => absurd hb List.not_mem_nil
  | cons hmatch _ ih =>
      rw [List.forall_mem_cons] at hseeds
      rw [List.flatten_cons, List.forall_mem_append]
      exact ⟨hmatch.seedsSensible hseeds.1, ih hseeds.2⟩

/-- A version of the state file whose figures are sensible, if it loads. -/
structure LoadsSensible (serde : Serde) (version : Option (File UInt8)) : Prop where
  synced : ∀ f, version = some f → f.synced = true
  load : ∀ p, load serde true version = .ok (some p) → p.Sensible

section Run

variable {serde : Serde} {parseTs : String → Option ℤ}
variable {target temp : Option (File UInt8)} {actions : List FileAction}
variable {s : FileServer}

/-- A run over the files looks like one of whole saves with sensible figures. -/
theorem sensible_run (hround : serde.RoundTrips) (htarget : LoadsSensible serde target)
    (hseeds : ∀ a ∈ actions, SeedsSensible a)
    (hrun : (initial target temp).run serde parseTs BatteryCurve.default actions =
      some s) :
    ∃ t : System, t.Sensible ∧ Refines serde target s t := by
  obtain ⟨pieces, t, hpieces, hwhole, hrefines⟩ :=
    refines_run hround htarget.synced hrun
  have hstep : ∀ {s s' : System} {a : Action},
      (∀ cfg now, a = .start cfg now → (seedState cfg now).Sensible) → s.Sensible →
      s.step parseTs BatteryCurve.default a = some s' → s'.Sensible :=
    fun hseed h hstep => h.step hseed hstep
  exact ⟨t, Machine.run_induction hstep (seedsSensible_flatten hpieces hseeds)
    (System.sensible_initial htarget.load) hwhole, hrefines⟩

theorem sensible_toSave (hround : serde.RoundTrips)
    (htarget : LoadsSensible serde target) (hseeds : ∀ a ∈ actions, SeedsSensible a)
    (hrun : (initial target temp).run serde parseTs BatteryCurve.default actions =
      some s) {p : PersistedState} (hp : s.process.toSave = some p) :
    p.Sensible := by
  obtain ⟨t, hsensible, hrefines⟩ := sensible_run hround htarget hseeds hrun
  obtain ⟨cfg, rt, hrt, rfl⟩ := snapshot_of_toSave hp
  apply sensible_snapshot
  apply hsensible.process
  rw [hrefines.process.runtime?, hrt]

theorem keptByProcesses (hround : serde.RoundTrips) :
    Host.KeptByProcesses serde parseTs BatteryCurve.default SeedsSensible
      (fun _ => LoadsSensible serde) (fun _ state => state.Sensible) where
  synced h := h.synced
  mono h _ := h
  seen_mono h _ := h
  run htarget hseeds hrun := by
    obtain ⟨t, hsensible, hrefines⟩ := sensible_run hround htarget hseeds hrun
    refine ⟨⟨synced_run hround htarget.synced hrun, ?_⟩, ?_⟩
    · rw [← hrefines.disk]
      exact hsensible.disk
    · rw [← hrefines.published]
      exact hsensible.published

end Run

end FileServer

namespace Sample

/-- A start over a state file, a connect, and a power cut. -/
def cutAfterConnect (size : ℕ) : List HostAction :=
  (nextStart size).map .act ++ [.powerCut 0 none]

theorem cutAfterConnect_runs {serde : Serde} {seed : List UInt8}
    (hseed : serde.toVecPretty seeded = some seed)
    (hback : serde.fromSlice seed = some seeded) :
    ∃ h, (Host.powerOn (some ⟨seed, true⟩) none []).run serde codec.parseTs
        BatteryCurve.default (cutAfterConnect seed.length) = some h ∧
      h.earlier.map some = [seeded.lastState] := by
  obtain ⟨s, hs, hpublished⟩ := nextStart_runs hseed hback
  have hinitial : (FileServer.initial (some ⟨seed, true⟩) none).files.target ∈
      [some (⟨seed, true⟩ : File UInt8)] := List.mem_singleton.mpr rfl
  obtain ⟨later, -, hrun⟩ := Host.run_acts hs hinitial []
  refine ⟨Host.powerOn (some ⟨seed, true⟩) none s.published, ?_, hpublished⟩
  rw [Host.run] at hrun
  rw [cutAfterConnect, Host.run, Host.powerOn, Machine.run_append_of_eq_some hrun]
  rfl

end Sample

/-- However processes end, saves fail and the power is cut: where the state file
and the seeds have sensible figures, so has every state that is published and every
state that is handed to the store. -/
theorem figures_stay_sensible (serde : Serde) (hround : serde.RoundTrips)
    (parseTs : String → Option ℤ) (target temp : Option (File UInt8))
    (hsynced : ∀ f, target = some f → f.synced = true)
    (hfile : ∀ p last, load serde true target = .ok (some p) →
      p.lastState = some last → last.Sensible)
    (actions : List HostAction)
    (hseeds : ∀ cfg now, .act (.start cfg now) ∈ actions →
      (seedState cfg now).Sensible)
    (h : Host)
    (hrun : (Host.powerOn target temp []).run serde parseTs BatteryCurve.default
      actions = some h) :
    (∀ state ∈ h.earlier ++ h.server.published, state.Sensible) ∧
      ∀ p last, h.server.process.toSave = some p → p.lastState = some last →
        last.Sensible := by
  have hfirst : FileServer.LoadsSensible serde target :=
    ⟨hsynced, fun p hp last hlast => hfile p last hp hlast⟩
  have hadm : ∀ a ∈ actions, Host.Admissible FileServer.SeedsSensible a := by
    intro a ha
    cases a with
    | powerCut version left => trivial
    | act a =>
        cases a with
        | start cfg now => exact hseeds cfg now ha
        | _ => trivial
  have hkept : Host.KeptByProcesses serde parseTs BatteryCurve.default
      FileServer.SeedsSensible (fun _ => FileServer.LoadsSensible serde)
      (fun _ state => state.Sensible) := FileServer.keptByProcesses hround
  obtain ⟨target', temp', before, hsince⟩ := Host.since_run hkept hfirst hadm hrun
  obtain ⟨sinceOn, hsinceOn, -, hran⟩ := hsince.ran
  constructor
  · rw [List.forall_mem_append]
    exact ⟨hsince.earlier, (hsince.now hkept).2⟩
  · intro p last hp hlast
    exact FileServer.sensible_toSave hround hsince.target hsinceOn hran hp last hlast

open Sample in
theorem cutAfterConnect_sensible :
    ∃ h, (Host.powerOn (some ⟨Utf8.encode seededText, true⟩) none []).run serde
        codec.parseTs BatteryCurve.default
        (cutAfterConnect (Utf8.encode seededText).length) = some h ∧
      h.earlier.map some = [seeded.lastState] ∧
      ∀ state ∈ h.earlier, state.Sensible := by
  have hback := serde_roundTrips _ _ serde_seeded
  obtain ⟨h, hrun, hearlier⟩ := cutAfterConnect_runs serde_seeded hback
  have hseeds : ∀ cfg now, .act (.start cfg now) ∈
      cutAfterConnect (Utf8.encode seededText).length →
      (seedState cfg now).Sensible := by
    intro cfg now hmem
    have hconfig : cfg = config ∧ now = "2026-06-10T20:03:00+02:00" := by
      simpa [cutAfterConnect, nextStart, FileServer.wholeSave] using hmem
    rw [hconfig.1, hconfig.2]
    decide +kernel
  have hfile : ∀ p last, load serde true (some ⟨Utf8.encode seededText, true⟩) =
      .ok (some p) → p.lastState = some last → last.Sensible := by
    intro p last hp hlast
    rw [load_intact hback] at hp
    cases hp
    cases hlast
    decide +kernel
  have hsensible := (figures_stay_sensible serde serde_roundTrips codec.parseTs _ none
    (fun f hf => by rw [← Option.some.inj hf]) hfile _ hseeds h hrun).1
  exact ⟨h, hrun, hearlier,
    fun state hstate => hsensible state (List.mem_append_left _ hstate)⟩

end Aquilo
