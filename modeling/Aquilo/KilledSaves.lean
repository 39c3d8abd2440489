/-
The server processes over the state file itself.  A save takes several steps, and
the process can be killed between any two of them: the file is synced before it is
renamed, and a killed process leaves its renames in place.
-/
import Aquilo.RestartTransparency
import Aquilo.StartupSave

namespace Aquilo

open AtomicReplace JsonFileStore Aquilo.Runtime

/-- The state a process hands to the store. -/
def Process.toSave : Process → Option PersistedState
  | .loaded cfg rt | .applied cfg rt _ => some (snapshot cfg rt)
  | .down | .polling _ _ | .persisted _ _ => none

/-- Where a process stands once the store has returned. -/
def Process.afterSave : Process → Process
  | .loaded cfg rt => .polling cfg rt
  | .applied cfg rt _ => .persisted cfg rt
  | p => p

/-- The steps of a save between its begin and its end. -/
inductive SaveStep where
  | create
  | write (count : ℕ)
  | sync
  | rename

def SaveStep.action : SaveStep → AtomicReplace.Action UInt8 PersistedState
  | create => .create
  | write count => .write count
  | sync => .sync
  | rename => .rename

/-- The files, the process, and the states published. -/
structure FileServer where
  files : Files
  process : Process
  published : List SensorState

inductive FileAction where
  | start (cfg : Config) (now : String)
  | beginSave
  | saveStep (a : SaveStep)
  | endSave
  | failSave
  | connAck
  | receive (r : Stamped)
  | publishState
  | kill

/-- The reading an action brings. -/
def FileAction.reading? : FileAction → Option Stamped
  | receive r => some r
  | _ => none

namespace FileServer

def initial (target temp : Option (File UInt8)) : FileServer where
  files := Store.initial target temp
  process := .down
  published := []

section Step

variable (serde : Serde) (parseTs : String → Option ℤ) (battery : BatteryCurve)

def step (s : FileServer) : FileAction → Option FileServer
  | .start cfg now =>
      match s.process with
      | .down =>
          let loaded := loadRuntime cfg (load serde true s.files.target) now
          some { s with process := .loaded cfg loaded }
      | _ => none
  | .beginSave =>
      s.process.toSave.bind fun state =>
        (s.files.step serde.toVecPretty (.start state)).map fun files =>
          { s with files }
  | .saveStep a =>
      (s.files.step serde.toVecPretty a.action).map fun files => { s with files }
  | .endSave =>
      (s.files.step serde.toVecPretty .finish).map fun files =>
        { s with files, process := s.process.afterSave }
  | .failSave =>
      (s.files.step serde.toVecPretty .fail).map fun files =>
        { s with files, process := s.process.afterSave }
  | .connAck =>
      match s.process with
      | .polling _ rt => some { s with published := s.published ++ [rt.current] }
      | _ => none
  | .receive r =>
      match s.process with
      | .polling cfg rt =>
          some { s with
            process :=
              .applied cfg (rt.applyReading parseTs cfg battery r.1 r.2) r }
      | _ => none
  | .publishState =>
      match s.process with
      | .persisted cfg rt =>
          some { s with
            process := .polling cfg rt
            published := s.published ++ [rt.current] }
      | _ => none
  -- a killed process leaves the files as they are
  | .kill =>
      some { s with files := { s.files with progress := .idle }, process := .down }

def run (s : FileServer) (actions : List FileAction) : Option FileServer :=
  Machine.run (step serde parseTs battery) s actions

end Step

/-- What a step is to someone who does not see inside the store: a save takes
effect when it renames, and has failed when it gives up before. -/
inductive Matches : FileAction → List Aquilo.Action → Prop
  | start (cfg : Config) (now : String) : Matches (.start cfg now) [.start cfg now]
  | beginSave : Matches .beginSave []
  | create : Matches (.saveStep .create) []
  | write (count : ℕ) : Matches (.saveStep (.write count)) []
  | sync : Matches (.saveStep .sync) []
  | renameSeed : Matches (.saveStep .rename) [.persistSeed true]
  | rename : Matches (.saveStep .rename) [.persist true]
  | endSave : Matches .endSave []
  | failSeed : Matches .failSave [.persistSeed false]
  | fail : Matches .failSave [.persist false]
  | connAck : Matches .connAck [.connAck]
  | receive (r : Stamped) : Matches (.receive r) [.receive r]
  | publishState : Matches .publishState [.publishState]
  | kill : Matches .kill [.kill]

/-- Where the system of whole saves stands while the files stand so. -/
def ProcessMatches (process abstract : Process) :
    Progress UInt8 PersistedState → Prop
  | .idle => abstract = process
  | .begun state | .writing state _ _ | .synced state _ =>
      process.toSave = some state ∧ abstract = process
  | .replaced state => process.toSave = some state ∧ abstract = process.afterSave

/-- The system of whole saves that a file server looks like. -/
structure Refines (serde : Serde) (origin : Option (File UInt8))
    (s : FileServer) (t : System) : Prop where
  files : Store.Inv serde.toVecPretty origin s.files
  disk : t.disk = load serde true s.files.target
  published : t.published = s.published
  process : ProcessMatches s.process t.process s.files.progress

section Refinement

variable {serde : Serde} {parseTs : String → Option ℤ} {battery : BatteryCurve}
variable {origin : Option (File UInt8)}

/-- Everything a step can do. -/
theorem step_cases {s s' : FileServer} {a : FileAction}
    (h : s.step serde parseTs battery a = some s') :
    (∃ cfg now, a = .start cfg now ∧ s.process = .down ∧
      s' = { s with
        process := .loaded cfg
          (loadRuntime cfg (load serde true s.files.target) now) }) ∨
    (∃ state files, a = .beginSave ∧ s.process.toSave = some state ∧
      s.files.step serde.toVecPretty (.start state) = some files ∧
      s' = { s with files }) ∨
    (∃ b files, a = .saveStep b ∧
      s.files.step serde.toVecPretty b.action = some files ∧
      s' = { s with files }) ∨
    (∃ files, a = .endSave ∧
      s.files.step serde.toVecPretty .finish = some files ∧
      s' = { s with files, process := s.process.afterSave }) ∨
    (∃ files, a = .failSave ∧
      s.files.step serde.toVecPretty .fail = some files ∧
      s' = { s with files, process := s.process.afterSave }) ∨
    (∃ cfg rt, a = .connAck ∧ s.process = .polling cfg rt ∧
      s' = { s with published := s.published ++ [rt.current] }) ∨
    (∃ r cfg rt, a = .receive r ∧ s.process = .polling cfg rt ∧
      s' = { s with
        process :=
          .applied cfg (rt.applyReading parseTs cfg battery r.1 r.2) r }) ∨
    (∃ cfg rt, a = .publishState ∧ s.process = .persisted cfg rt ∧
      s' = { s with
        process := .polling cfg rt
        published := s.published ++ [rt.current] }) ∨
    (a = .kill ∧ s' = { s with
      files := { s.files with progress := .idle }
      process := .down }) := by
  cases a with
  | start cfg now =>
      cases hp : s.process <;>
        simp only [step, hp, Option.some.injEq, reduceCtorEq] at h
      exact Or.inl ⟨cfg, now, rfl, rfl, h.symm⟩
  | beginSave =>
      obtain ⟨state, hstate, h⟩ := Option.bind_eq_some_iff.mp h
      obtain ⟨files, hfiles, rfl⟩ := Option.map_eq_some_iff.mp h
      exact Or.inr (Or.inl ⟨state, files, rfl, hstate, hfiles, rfl⟩)
  | saveStep b =>
      obtain ⟨files, hfiles, rfl⟩ := Option.map_eq_some_iff.mp h
      exact Or.inr (Or.inr (Or.inl ⟨b, files, rfl, hfiles, rfl⟩))
  | endSave =>
      obtain ⟨files, hfiles, rfl⟩ := Option.map_eq_some_iff.mp h
      exact Or.inr (Or.inr (Or.inr (Or.inl ⟨files, rfl, hfiles, rfl⟩)))
  | failSave =>
      obtain ⟨files, hfiles, rfl⟩ := Option.map_eq_some_iff.mp h
      exact Or.inr (Or.inr (Or.inr (Or.inr (Or.inl ⟨files, rfl, hfiles, rfl⟩))))
  | connAck =>
      cases hp : s.process <;>
        simp only [step, hp, Option.some.injEq, reduceCtorEq] at h
      exact Or.inr (Or.inr (Or.inr (Or.inr (Or.inr
        (Or.inl ⟨_, _, rfl, rfl, h.symm⟩)))))
  | receive r =>
      cases hp : s.process <;>
        simp only [step, hp, Option.some.injEq, reduceCtorEq] at h
      exact Or.inr (Or.inr (Or.inr (Or.inr (Or.inr (Or.inr
        (Or.inl ⟨r, _, _, rfl, rfl, h.symm⟩))))))
  | publishState =>
      cases hp : s.process <;>
        simp only [step, hp, Option.some.injEq, reduceCtorEq] at h
      exact Or.inr (Or.inr (Or.inr (Or.inr (Or.inr (Or.inr (Or.inr
        (Or.inl ⟨_, _, rfl, rfl, h.symm⟩)))))))
  | kill =>
      exact Or.inr (Or.inr (Or.inr (Or.inr (Or.inr (Or.inr (Or.inr (Or.inr
        ⟨rfl, (Option.some.inj h).symm⟩)))))))

theorem refines_initial (target temp : Option (File UInt8)) :
    Refines serde target (initial target temp)
      (System.initial (load serde true target)) where
  files := Store.inv_initial target temp
  disk := rfl
  published := rfl
  process := rfl

variable (parseTs battery) in
/-- A process saves at one of two places, and what an observer of whole saves
sees there is the same. -/
theorem persist_of_toSave {t : System} {state : PersistedState}
    (h : t.process.toSave = some state) (saved : Bool) :
    ∃ a t', (a = .persistSeed saved ∨ a = .persist saved) ∧
      System.run parseTs battery t [a] = some t' ∧
      t'.process = t.process.afterSave ∧ t'.published = t.published ∧
      t'.disk = if saved then .ok (some state) else t.disk := by
  cases hp : t.process with
  | loaded cfg rt =>
      rw [hp] at h
      cases h
      refine ⟨.persistSeed saved,
        { t with
          disk := Aquilo.persist cfg rt saved t.disk
          process := .polling cfg rt
          origin := if saved then t.origin.or (some rt) else t.origin },
        Or.inl rfl, ?_, rfl, rfl, rfl⟩
      simp only [System.run, Machine.run, System.step, hp, Option.bind_some]
  | applied cfg rt r =>
      rw [hp] at h
      cases h
      refine ⟨.persist saved,
        { t with
          disk := Aquilo.persist cfg rt saved t.disk
          process := .persisted cfg rt
          kept := if saved then t.kept ++ [(cfg, r)] else t.kept },
        Or.inr rfl, ?_, rfl, rfl, rfl⟩
      simp only [System.run, Machine.run, System.step, hp, Option.bind_some]
  | down => rw [hp] at h; cases h
  | polling cfg rt => rw [hp] at h; cases h
  | persisted cfg rt => rw [hp] at h; cases h

/-- A process that runs no save stands where the whole saves have it. -/
theorem Refines.process_eq {s : FileServer} {t : System}
    (h : Refines serde origin s t) (hsave : s.process.toSave = none) :
    t.process = s.process := by
  have hprocess := h.process
  cases hprogress : s.files.progress with
  | idle =>
      rw [hprogress] at hprocess
      exact hprocess
  | begun state | writing state _ _ | synced state _ =>
      rw [hprogress] at hprocess
      exact hprocess.2
  | replaced state =>
      rw [hprogress, ProcessMatches, hsave] at hprocess
      cases hprocess.1

theorem ProcessMatches.idle {process abstract : Process}
    {progress : Progress UInt8 PersistedState}
    (h : ProcessMatches process abstract progress)
    (hsave : process.toSave = none) : progress = .idle := by
  cases progress with
  | idle => rfl
  | begun state | writing state _ _ | synced state _ =>
      rw [ProcessMatches, hsave] at h
      cases h.1
  | replaced state =>
      rw [ProcessMatches, hsave] at h
      cases h.1

/-- While nothing is renamed, a save is invisible. -/
theorem Refines.of_quiet {s : FileServer} {t : System} {files : Files}
    (h : Refines serde origin s t)
    (hfiles : Store.Inv serde.toVecPretty origin files)
    (htarget : files.target = s.files.target)
    (hprocess : ProcessMatches s.process t.process files.progress) :
    Refines serde origin { s with files } t :=
  ⟨hfiles, by rw [htarget, h.disk], h.published, hprocess⟩

theorem Refines.saveStep (hround : serde.RoundTrips)
    (horigin : ∀ f, origin = some f → f.synced = true) {s : FileServer}
    {t : System} (h : Refines serde origin s t) {b : SaveStep} {files : Files}
    (hfiles : s.files.step serde.toVecPretty b.action = some files) :
    ∃ bs t', Matches (.saveStep b) bs ∧
      System.run parseTs battery t bs = some t' ∧
      Refines serde origin { s with files } t' := by
  have hinv := h.files.step horigin hfiles
  have hprocess := h.process
  cases b with
  | create =>
      simp only [SaveStep.action, Store.step] at hfiles
      split at hfiles
      · rename_i state hp
        obtain ⟨contents, henc, rfl⟩ := Option.map_eq_some_iff.mp hfiles
        rw [hp] at hprocess
        exact ⟨[], t, .create, rfl, h.of_quiet hinv rfl hprocess⟩
      · cases hfiles
  | write count =>
      simp only [SaveStep.action, Store.step] at hfiles
      split at hfiles
      · rename_i state contents rest hp
        cases Option.some.inj hfiles
        rw [hp] at hprocess
        exact ⟨[], t, .write count, rfl, h.of_quiet hinv rfl hprocess⟩
      · cases hfiles
  | sync =>
      simp only [SaveStep.action, Store.step] at hfiles
      split at hfiles
      · rename_i state contents hp
        cases Option.some.inj hfiles
        rw [hp] at hprocess
        exact ⟨[], t, .sync, rfl, h.of_quiet hinv rfl hprocess⟩
      · cases hfiles
  | rename =>
      simp only [SaveStep.action, Store.step] at hfiles
      split at hfiles
      · rename_i state contents hp
        cases Option.some.inj hfiles
        rw [hp] at hprocess
        obtain ⟨hsave, hsame⟩ := hprocess
        rw [← hsame] at hsave
        obtain ⟨a, t', ha, hrun, hafter, hpublished, hdisk⟩ :=
          persist_of_toSave parseTs battery hsave true
        refine ⟨[a], t', ?_, hrun, hinv, ?_, ?_, ?_⟩
        · rcases ha with rfl | rfl
          · exact .renameSeed
          · exact .rename
        · have hload := load_of_targetHolds (fun state _ => hround state) hinv.target
          rw [List.getLast?_concat] at hload
          rw [hdisk, hload]
          rfl
        · rw [hpublished, h.published]
        · rw [← hsame]
          exact ⟨hsave, hafter⟩
      · cases hfiles

/-- A save that ends leaves the process behind it. -/
theorem Refines.endSave (horigin : ∀ f, origin = some f → f.synced = true)
    {s : FileServer} {t : System} (h : Refines serde origin s t) {files : Files}
    (hfiles : s.files.step serde.toVecPretty .finish = some files) :
    Refines serde origin
      { s with files, process := s.process.afterSave } t := by
  have hinv := h.files.step horigin hfiles
  have hprocess := h.process
  simp only [Store.step] at hfiles
  split at hfiles
  · rename_i state hp
    cases Option.some.inj hfiles
    rw [hp] at hprocess
    exact ⟨hinv, h.disk, h.published, hprocess.2⟩
  · cases hfiles

theorem Refines.failSave (horigin : ∀ f, origin = some f → f.synced = true)
    {s : FileServer} {t : System} (h : Refines serde origin s t) {files : Files}
    (hfiles : s.files.step serde.toVecPretty .fail = some files) :
    ∃ bs t', Matches .failSave bs ∧ System.run parseTs battery t bs = some t' ∧
      Refines serde origin
        { s with files, process := s.process.afterSave } t' := by
  have hinv := h.files.step horigin hfiles
  have hprocess := h.process
  obtain ⟨state, hpending, rfl⟩ := Option.map_eq_some_iff.mp hfiles
  have hpair : s.process.toSave = some state ∧ t.process = s.process := by
    cases hp : s.files.progress with
    | idle => rw [hp] at hpending; cases hpending
    | replaced state => rw [hp] at hpending; cases hpending
    | begun state | writing state _ _ | synced state _ =>
        rw [hp] at hpending hprocess
        cases hpending
        exact hprocess
  obtain ⟨hsave, hsame⟩ := hpair
  rw [← hsame] at hsave
  obtain ⟨a, t', ha, hrun, hafter, hpublished, hdisk⟩ :=
    persist_of_toSave parseTs battery hsave false
  refine ⟨[a], t', ?_, hrun, hinv, ?_, ?_, ?_⟩
  · rcases ha with rfl | rfl
    · exact .failSeed
    · exact .fail
  · rw [hdisk]
    exact h.disk
  · rw [hpublished, h.published]
  · change t'.process = s.process.afterSave
    rw [hafter, hsame]

/-- A step on files shows as nothing or as one step of whole saves. -/
theorem Refines.step (hround : serde.RoundTrips)
    (horigin : ∀ f, origin = some f → f.synced = true) {s s' : FileServer}
    {t : System} {a : FileAction} (h : Refines serde origin s t)
    (hstep : s.step serde parseTs battery a = some s') :
    ∃ bs t', Matches a bs ∧ System.run parseTs battery t bs = some t' ∧
      Refines serde origin s' t' := by
  have hprocess := h.process
  rcases step_cases hstep with
    ⟨cfg, now, rfl, hp, rfl⟩ | ⟨state, files, rfl, hsave, hfiles, rfl⟩ |
    ⟨b, files, rfl, hfiles, rfl⟩ | ⟨files, rfl, hfiles, rfl⟩ |
    ⟨files, rfl, hfiles, rfl⟩ | ⟨cfg, rt, rfl, hp, rfl⟩ |
    ⟨r, cfg, rt, rfl, hp, rfl⟩ | ⟨cfg, rt, rfl, hp, rfl⟩ | ⟨rfl, rfl⟩
  · have hdown : t.process = .down := by
      rw [h.process_eq (by rw [hp]; rfl), hp]
    have hidle := hprocess.idle (by rw [hp]; rfl)
    refine ⟨_, { t with
      process := .loaded cfg
        (loadRuntime cfg (load serde true s.files.target) now) },
      .start cfg now, ?_, h.files, h.disk, h.published, ?_⟩
    · simp only [System.run, Machine.run, System.step, hdown, h.disk,
        Option.bind_some]
    · rw [hidle]
      rfl
  · have hinv := h.files.step horigin hfiles
    simp only [Store.step] at hfiles
    split at hfiles
    · rename_i hidle
      cases Option.some.inj hfiles
      rw [hidle] at hprocess
      exact ⟨[], t, .beginSave, rfl, h.of_quiet hinv rfl ⟨hsave, hprocess⟩⟩
    · cases hfiles
  · exact h.saveStep hround horigin hfiles
  · exact ⟨[], t, .endSave, rfl, h.endSave horigin hfiles⟩
  · exact h.failSave horigin hfiles
  · have hsame : t.process = .polling cfg rt := by
      rw [h.process_eq (by rw [hp]; rfl), hp]
    refine ⟨_, { t with published := t.published ++ [rt.current] }, .connAck,
      ?_, h.files, h.disk, ?_, hprocess⟩
    · simp only [System.run, Machine.run, System.step, hsame, Option.bind_some]
    · exact congrArg (· ++ [rt.current]) h.published
  · have hsame : t.process = .polling cfg rt := by
      rw [h.process_eq (by rw [hp]; rfl), hp]
    refine ⟨_, { t with
      process :=
        .applied cfg (rt.applyReading parseTs cfg battery r.1 r.2) r },
      .receive r, ?_, h.files, h.disk, h.published, ?_⟩
    · simp only [System.run, Machine.run, System.step, hsame, Option.bind_some]
    · rw [hprocess.idle (by rw [hp]; rfl)]
      rfl
  · have hsame : t.process = .persisted cfg rt := by
      rw [h.process_eq (by rw [hp]; rfl), hp]
    refine ⟨_, { t with
      process := .polling cfg rt
      published := t.published ++ [rt.current] }, .publishState,
      ?_, h.files, h.disk, ?_, ?_⟩
    · simp only [System.run, Machine.run, System.step, hsame, Option.bind_some]
    · exact congrArg (· ++ [rt.current]) h.published
    · rw [hprocess.idle (by rw [hp]; rfl)]
      rfl
  · -- the state file survives the process
    have hinv : Store.Inv serde.toVecPretty origin
        { s.files with progress := .idle } := ⟨h.files.target, trivial⟩
    exact ⟨_, { t with process := .down }, .kill, rfl, hinv, h.disk, h.published, rfl⟩

/-- Every run on files is a run of whole saves. -/
theorem refines_run (hround : serde.RoundTrips)
    {target temp : Option (File UInt8)}
    (hsynced : ∀ f, target = some f → f.synced = true)
    {actions : List FileAction} {s : FileServer}
    (hrun : (initial target temp).run serde parseTs battery actions = some s) :
    ∃ pieces t, List.Forall₂ Matches actions pieces ∧
      (System.initial (load serde true target)).run parseTs battery
        pieces.flatten = some t ∧
      Refines serde target s t := by
  have hstep : ∀ {s s' : FileServer} {t : System} {a : FileAction}, True →
      Refines serde target s t → s.step serde parseTs battery a = some s' →
      ∃ bs t', Matches a bs ∧
        Machine.run (System.step parseTs battery) t bs = some t' ∧
        Refines serde target s' t' := fun _ h => h.step hround hsynced
  exact Machine.run_refines hstep (fun _ _ => trivial)
    (refines_initial target temp) hrun

end Refinement

/-- A save that nothing interrupts. -/
def wholeSave (size : ℕ) : List FileAction :=
  [ .beginSave, .saveStep .create, .saveStep (.write size), .saveStep .sync,
    .saveStep .rename, .endSave ]

theorem run_wholeSave {serde : Serde} (parseTs : String → Option ℤ)
    (battery : BatteryCurve) {s : FileServer} {state : PersistedState}
    {bytes : List UInt8} (hidle : s.files.progress = .idle)
    (hsave : s.process.toSave = some state)
    (hprint : serde.toVecPretty state = some bytes) :
    s.run serde parseTs battery (wholeSave bytes.length) = some
      { s with
        files :=
          { target := some ⟨bytes, true⟩
            temp := none
            progress := .idle
            renamed := s.files.renamed ++ [state] }
        process := s.process.afterSave } := by
  have hrest : bytes.drop bytes.length = [] := List.drop_length
  have hdone : bytes.take bytes.length = bytes := List.take_length
  simp only [wholeSave, run, Machine.run, step, SaveStep.action, Store.step, hidle,
    hsave, hprint, hrest, hdone, Option.bind_some, Option.map_some, Store.append,
    List.nil_append]

end FileServer

namespace Sample

/-- A start whose save completes. -/
def firstStart (size : ℕ) : List FileAction :=
  .start config "2026-06-10T20:00:00+02:00" :: FileServer.wholeSave size

/-- The server after it, when the state was printed as `seed`. -/
def seededServer (seed : List UInt8) : FileServer where
  files := ⟨some ⟨seed, true⟩, none, .idle, [seeded]⟩
  process := .polling config (seedRuntime config "2026-06-10T20:00:00+02:00")
  published := []

/-- A first start, a connect, a reading lost to a kill, and a start that is killed
inside its save. -/
def killedSaveRun (size : ℕ) : List FileAction :=
  firstStart size ++
    [ .connAck, .receive (reading 150, "2026-06-10T20:01:00+02:00"), .kill,
      .start config "2026-06-10T20:03:00+02:00", .beginSave, .saveStep .create,
      .saveStep (.write 7), .kill ]

theorem reload_seeded (now : String) : loadRuntime config (.ok (some seeded)) now =
    seedRuntime config "2026-06-10T20:00:00+02:00" :=
  loadRuntime_snapshot (fun hempty => hempty) now

section Runs

variable {serde : Serde} {seed : List UInt8}

theorem firstStart_runs (hseed : serde.toVecPretty seeded = some seed)
    (temp : Option (File UInt8)) :
    (FileServer.initial none temp).run serde codec.parseTs BatteryCurve.default
      (firstStart seed.length) = some (seededServer seed) := by
  let begun : FileServer :=
    { files := Store.initial none temp
      process := .loaded config (seedRuntime config "2026-06-10T20:00:00+02:00")
      published := [] }
  have hstart : (FileServer.initial none temp).step serde codec.parseTs
      BatteryCurve.default (.start config "2026-06-10T20:00:00+02:00") =
      some begun := rfl
  have hsave := FileServer.run_wholeSave codec.parseTs BatteryCurve.default
    (show begun.files.progress = .idle from rfl)
    (show begun.process.toSave = some seeded from rfl) hseed
  rw [firstStart, FileServer.run, Machine.run_cons, hstart, Option.bind_some]
  exact hsave

theorem killedSaveRun_runs (hseed : serde.toVecPretty seeded = some seed)
    (hback : serde.fromSlice seed = some seeded) (temp : Option (File UInt8)) :
    ∃ s, (FileServer.initial none temp).run serde codec.parseTs
        BatteryCurve.default (killedSaveRun seed.length) = some s ∧
      s.published.length = 1 ∧ s.files.target = some ⟨seed, true⟩ := by
  have hload : load serde true (some ⟨seed, true⟩) = .ok (some seeded) :=
    load_intact hback
  have hfirst := firstStart_runs hseed temp
  have hsnapshot : snapshot config
      (seedRuntime config "2026-06-10T20:00:00+02:00") = seeded := rfl
  rw [FileServer.run] at hfirst
  rw [killedSaveRun, FileServer.run, Machine.run_append_of_eq_some hfirst]
  simp only [Machine.run, FileServer.step, SaveStep.action, Store.step, hload,
    reload_seeded, hsnapshot, hseed, Process.toSave, seededServer, Option.bind_some,
    Option.map_some]
  exact ⟨_, rfl, rfl, rfl⟩

end Runs

end Sample

/-- The server processes over the state file, killed anywhere, refine the
processes whose saves are single steps: step by step the same is started,
received, published and killed, a save counts where it renames, and a reload finds
the same state. -/
theorem files_refine_whole_saves (serde : Serde) (hround : serde.RoundTrips)
    (parseTs : String → Option ℤ) (battery : BatteryCurve)
    (target temp : Option (File UInt8))
    (hsynced : ∀ f, target = some f → f.synced = true)
    (actions : List FileAction) (s : FileServer)
    (hrun : (FileServer.initial target temp).run serde parseTs battery actions =
      some s) :
    ∃ pieces t, List.Forall₂ FileServer.Matches actions pieces ∧
      (System.initial (load serde true target)).run parseTs battery
        pieces.flatten = some t ∧
      t.published = s.published ∧ t.disk = load serde true s.files.target ∧
      (s.process.toSave = none → t.process = s.process) := by
  obtain ⟨pieces, t, hpieces, hruns, hrefines⟩ :=
    FileServer.refines_run hround hsynced hrun
  exact ⟨pieces, t, hpieces, hruns, hrefines.published, hrefines.disk,
    hrefines.process_eq⟩

/-- The second start's save does not survive, the first one's does. -/
theorem killedSaveRun_refines :
    ∃ s pieces t, (FileServer.initial none (some ⟨[0x7b], true⟩)).run Sample.serde
        Sample.codec.parseTs BatteryCurve.default
        (Sample.killedSaveRun (Utf8.encode Sample.seededText).length) = some s ∧
      (System.initial (.ok none)).run Sample.codec.parseTs BatteryCurve.default
        (List.flatten pieces) = some t ∧
      t.published = s.published ∧ s.published.length = 1 := by
  have hread : Sample.serde.fromSlice (Utf8.encode Sample.seededText) =
      some Sample.seeded := Sample.serde_roundTrips _ _ Sample.serde_seeded
  obtain ⟨s, hs, hlen, -⟩ :=
    Sample.killedSaveRun_runs Sample.serde_seeded hread (some ⟨[0x7b], true⟩)
  obtain ⟨pieces, t, -, hrun, hpublished, -⟩ := files_refine_whole_saves
    Sample.serde Sample.serde_roundTrips _ _ none _ (fun _ h => by cases h) _ s hs
  exact ⟨s, pieces, t, hs, hrun, hpublished, hlen⟩

end Aquilo
