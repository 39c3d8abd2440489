/-
The pump-out baseline is kept twice, beside the current state and inside it.
Reloading a stored state fills the two from different places.
-/
import Aquilo.Lifecycle
import Aquilo.Onboard

namespace Aquilo

/-- The runtime of a process that is up. -/
def Process.runtime? : Process → Option Runtime
  | .down => none
  | .loaded _ rt | .polling _ rt | .applied _ rt _ | .persisted _ rt => some rt

/-- The baseline of the current state is the one that is tracked. -/
def Runtime.SameBaseline (rt : Runtime) : Prop :=
  rt.current.lstEmpty = rt.lstEmpty

/-- A stored state comes with a last state of the same baseline. -/
def PersistedState.SameBaseline (p : PersistedState) : Prop :=
  ∃ st, p.lastState = some st ∧ st.lstEmpty = p.lstEmpty

namespace Runtime

theorem sameBaseline_seedRuntime (cfg : Config) (now : String) :
    (seedRuntime cfg now).SameBaseline := rfl

theorem sameBaseline_applyReading (parseTs : String → Option ℤ) (cfg : Config)
    (battery : BatteryCurve) (reading : Reading) (now : String) (rt : Runtime) :
    (rt.applyReading parseTs cfg battery reading now).SameBaseline := rfl

theorem SameBaseline.snapshot {rt : Runtime} (h : rt.SameBaseline)
    (cfg : Config) : (snapshot cfg rt).SameBaseline := ⟨rt.current, rfl, h⟩

/-- Of a stored state the tracked baseline is the stored one, unless that is
empty; the current state is the stored one in any case. -/
theorem sameBaseline_loadRuntime_iff {p : PersistedState}
    (h : p.SameBaseline) (cfg : Config) (now : String) :
    (loadRuntime cfg (.ok (some p)) now).SameBaseline ↔
      (p.lstEmpty = "" → cfg.state.lstEmpty = "") := by
  obtain ⟨st, hlast, hsame⟩ := h
  simp only [SameBaseline, loadRuntime, hlast, Option.getD_some, hsame]
  by_cases hempty : p.lstEmpty = ""
  · simp only [hempty, if_true, true_imp_iff, eq_comm]
  · simp only [hempty, if_false, false_imp_iff]

end Runtime

/-- The disks a server can find that no other server has used: none, one that
cannot be loaded, one written by the onboarding. -/
inductive LeftBehind : Disk → Prop
  | fresh : LeftBehind (.ok none)
  | unloadable (e : LoadError) : LeftBehind (.error e)
  | onboarded (g : GeneratedConfig) (now : String) :
      LeftBehind (.ok (some (initialState g now)))

namespace System

section Baseline

variable (parseTs : String → Option ℤ) (battery : BatteryCurve)

/-- The running process and the store have one baseline each, and what is
published next carries that of the process. -/
structure TracksBaseline (s : System) : Prop where
  process : ∀ rt ∈ s.process.runtime?, rt.SameBaseline
  disk : ∀ p, s.disk = .ok (some p) → p.SameBaseline
  published : ∀ a s', s.step parseTs battery a = some s' →
    ∀ st ∈ s'.published.drop s.published.length,
      ∃ rt ∈ s.process.runtime?, st.lstEmpty = rt.lstEmpty

/-- No baseline is configured where the store holds an empty one. -/
def KeepsBaseline (s : System) : Action → Prop
  | .start cfg _ => ∀ p, s.disk = .ok (some p) → p.lstEmpty = "" →
      cfg.state.lstEmpty = ""
  | _ => True

variable {parseTs battery}

/-- What is published is the current state. -/
theorem tracksBaseline_of {s : System}
    (hprocess : ∀ rt ∈ s.process.runtime?, rt.SameBaseline)
    (hdisk : ∀ p, s.disk = .ok (some p) → p.SameBaseline) :
    s.TracksBaseline parseTs battery := by
  refine ⟨hprocess, hdisk, ?_⟩
  intro a s' hstep st hst
  have hcurrent : ∀ rt, s.process.runtime? = some rt → st = rt.current →
      ∃ rt ∈ s.process.runtime?, st.lstEmpty = rt.lstEmpty := by
    rintro rt hrt rfl
    exact ⟨rt, hrt, hprocess rt hrt⟩
  rcases step_cases hstep with
    ⟨c, now, rfl, hp, rfl⟩ | ⟨saved, c, rt, rfl, hp, rfl⟩ |
    ⟨c, rt, rfl, hp, rfl⟩ | ⟨r, c, rt, rfl, hp, rfl⟩ |
    ⟨saved, c, rt, r, rfl, hp, rfl⟩ | ⟨c, rt, rfl, hp, rfl⟩ | ⟨rfl, rfl⟩
  · simp at hst
  · simp at hst
  · exact hcurrent rt (by rw [hp]; rfl) (by simpa using hst)
  · simp at hst
  · simp at hst
  · exact hcurrent rt (by rw [hp]; rfl) (by simpa using hst)
  · simp at hst

theorem tracksBaseline_initial {disk : Disk} (h : LeftBehind disk) :
    (initial disk).TracksBaseline parseTs battery := by
  refine tracksBaseline_of (fun rt hrt => by cases hrt) ?_
  intro p hp
  cases h with
  | fresh => cases hp
  | unloadable e => cases hp
  | onboarded g now =>
      cases hp
      exact ⟨_, rfl, rfl⟩

/-- A saved runtime leaves the disk with its own baseline. -/
theorem persist_sameBaseline {rt : Runtime} (h : rt.SameBaseline) {disk : Disk}
    (hdisk : ∀ p, disk = .ok (some p) → p.SameBaseline) (cfg : Config)
    (saved : Bool) :
    ∀ p, Aquilo.persist cfg rt saved disk = .ok (some p) → p.SameBaseline := by
  intro p hp
  cases saved with
  | false => exact hdisk p hp
  | true =>
      cases hp
      exact h.snapshot cfg

/-- A start keeps one baseline unless it configures one over an empty stored
one. -/
theorem sameBaseline_loadRuntime_iff {s : System}
    (hdisk : ∀ p, s.disk = .ok (some p) → p.SameBaseline) (cfg : Config)
    (now : String) :
    (loadRuntime cfg s.disk now).SameBaseline ↔
      s.KeepsBaseline (.start cfg now) := by
  simp only [KeepsBaseline]
  match hs : s.disk with
  | .ok (some p) =>
      rw [Runtime.sameBaseline_loadRuntime_iff (hdisk p hs)]
      simp
  | .ok none =>
      exact iff_of_true (Runtime.sameBaseline_seedRuntime cfg now) (by simp)
  | .error e =>
      exact iff_of_true (Runtime.sameBaseline_seedRuntime cfg now) (by simp)

theorem tracksBaseline_up {s : System} {rt : Runtime}
    (hrt : s.process.runtime? = some rt) (hsame : rt.SameBaseline)
    (hdisk : ∀ p, s.disk = .ok (some p) → p.SameBaseline) :
    s.TracksBaseline parseTs battery := by
  refine tracksBaseline_of ?_ hdisk
  rw [hrt]
  rintro rt' ⟨⟩
  exact hsame

/-- Only a start can separate the two baselines. -/
theorem tracksBaseline_step_iff {s s' : System} {a : Action}
    (h : s.TracksBaseline parseTs battery)
    (hstep : s.step parseTs battery a = some s') :
    s'.TracksBaseline parseTs battery ↔ s.KeepsBaseline a := by
  have hsame : ∀ rt, s.process.runtime? = some rt → rt.SameBaseline := h.process
  rcases step_cases hstep with
    ⟨c, now, rfl, hp, rfl⟩ | ⟨saved, c, rt, rfl, hp, rfl⟩ |
    ⟨c, rt, rfl, hp, rfl⟩ | ⟨r, c, rt, rfl, hp, rfl⟩ |
    ⟨saved, c, rt, r, rfl, hp, rfl⟩ | ⟨c, rt, rfl, hp, rfl⟩ | ⟨rfl, rfl⟩
  · rw [← sameBaseline_loadRuntime_iff h.disk]
    exact ⟨fun h' => h'.process _ rfl, fun hloaded =>
      tracksBaseline_up rfl hloaded h.disk⟩
  · have hrt := hsame rt (by rw [hp]; rfl)
    exact iff_of_true (tracksBaseline_up rfl hrt
      (persist_sameBaseline hrt h.disk c saved)) trivial
  · exact iff_of_true (tracksBaseline_of h.process h.disk) trivial
  · have hrt : (rt.applyReading parseTs c battery r.1 r.2).SameBaseline :=
      Runtime.sameBaseline_applyReading ..
    exact iff_of_true (tracksBaseline_up rfl hrt h.disk) trivial
  · have hrt := hsame rt (by rw [hp]; rfl)
    exact iff_of_true (tracksBaseline_up rfl hrt
      (persist_sameBaseline hrt h.disk c saved)) trivial
  · have hrt := hsame rt (by rw [hp]; rfl)
    exact iff_of_true (tracksBaseline_up rfl hrt h.disk) trivial
  · exact iff_of_true (tracksBaseline_of (by simp [Process.runtime?]) h.disk)
      trivial

end Baseline

end System

open Aquilo.System

/-- Every state of a run tracks one baseline exactly when no start of the run
configures one over an empty stored one. -/
theorem tracksBaseline_iff_keepsBaseline (parseTs : String → Option ℤ)
    (battery : BatteryCurve) {disk : Disk} (hdisk : LeftBehind disk)
    (actions : List Action) :
    (∀ pre s, pre <+: actions →
        (initial disk).run parseTs battery pre = some s →
        s.TracksBaseline parseTs battery) ↔
      ∀ pre a s s', pre ++ [a] <+: actions →
        (initial disk).run parseTs battery pre = some s →
        s.step parseTs battery a = some s' → s.KeepsBaseline a :=
  Machine.forall_prefix_iff tracksBaseline_step_iff
    (tracksBaseline_initial hdisk) actions

namespace Sample

/-- The sample configuration with another baseline. -/
def withBaseline (lstEmpty : String) : Config :=
  { config with state := { config.state with lstEmpty } }

/-- What the onboarding writes for the sample configuration. -/
def generated : GeneratedConfig where
  receiverId := config.receiverId
  sensorId := config.sensorId
  mqttUser := config.mqttUser
  mqttPass := config.mqttPass
  firmwareVersion := config.firmwareVersion
  sensorName := config.sensorName
  radarSkip := config.radarSkip
  radarRepeat := config.radarRepeat
  dataDir := config.dataDir
  calibration := Calibration.default
  seed :=
    { lvl := 751 / 5
      pct := 20
      bat := 83
      daysLeft := 51
      lvlToFull := 110
      lstEmpty := "2026-05-30T00:17:19+02:00"
      «from» := "node-4" }

/-- A first connect under a configuration. -/
def firstConnect (cfg : Config) : List Action :=
  [.start cfg "2026-06-10T20:00:00+02:00", .persistSeed true, .connAck]

end Sample

/-- After the onboarding stored a baseline, editing the configured one separates
nothing. -/
theorem editedBaseline_ignored :
    ∃ s, (initial (.ok (some (initialState Sample.generated
          "2026-06-09T12:00:00+02:00")))).run Sample.codec.parseTs
            BatteryCurve.default (Sample.firstConnect
              (Sample.withBaseline "2026-06-01T00:00:00+02:00")) = some s ∧
      s.TracksBaseline Sample.codec.parseTs BatteryCurve.default ∧
      s.published.map SensorState.lstEmpty = ["2026-05-30T00:17:19+02:00"] := by
  have hdisk := LeftBehind.onboarded Sample.generated "2026-06-09T12:00:00+02:00"
  have htracks := (tracksBaseline_iff_keepsBaseline Sample.codec.parseTs
    BatteryCurve.default hdisk (Sample.firstConnect
      (Sample.withBaseline "2026-06-01T00:00:00+02:00"))).mpr
  refine ⟨_, rfl, htracks ?_ _ _ List.prefix_rfl rfl, rfl⟩
  intro pre a s s' hpre hrun hs'
  cases pre with
  | nil =>
      cases Option.some.inj hrun
      cases a <;> try trivial
      intro p hp hempty
      cases hp
      have hstored : "2026-05-30T00:17:19+02:00" ≠ "" := by decide
      exact absurd hempty hstored
  | cons b rest =>
      -- only the first action is a start
      have hmem : a ∈ [Action.persistSeed true, Action.connAck] :=
        (List.cons_prefix_cons.mp hpre).2.subset (by simp)
      rcases List.mem_cons.mp hmem with rfl | hmem
      · trivial
      · cases List.mem_singleton.mp hmem
        trivial

/-- With no baseline configured at first, the one set by hand is tracked but not
published. -/
theorem manualBaseline_unpublished :
    ∃ s rt, (initial (.ok none)).run Sample.codec.parseTs BatteryCurve.default
        (Sample.firstConnect (Sample.withBaseline "") ++ .kill ::
          Sample.firstConnect
            (Sample.withBaseline "2026-06-01T00:00:00+02:00")) = some s ∧
      s.process.runtime? = some rt ∧
      rt.lstEmpty = "2026-06-01T00:00:00+02:00" ∧
      rt.current.lstEmpty = "" ∧
      s.published.map SensorState.lstEmpty = ["", ""] ∧
      ¬ s.TracksBaseline Sample.codec.parseTs BatteryCurve.default := by
  refine ⟨_, _, rfl, rfl, rfl, rfl, rfl, ?_⟩
  intro h
  have hsame : "" = "2026-06-01T00:00:00+02:00" := h.process _ rfl
  exact absurd hsame (by decide)

end Aquilo
