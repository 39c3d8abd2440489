/-
What startup does to the state file.  The state is loaded and saved again at
once; a read that fails is answered with the configured seed, which that save
then puts over whatever the file held.
-/
import Aquilo.JsonStore

namespace Aquilo

open AtomicReplace JsonFileStore

/-- The records of a state and its baseline, if it has one, are still stored. -/
def Keeps (stored : Disk) (p : PersistedState) : Prop :=
  ∃ p', stored = .ok (some p') ∧ p.history.Sublist p'.history ∧
    (p.lstEmpty ≠ "" → p'.lstEmpty = p.lstEmpty)

/-- The seed would not lose anything of a state. -/
def NothingToLose (cfg : Config) (p : PersistedState) : Prop :=
  p.history = [] ∧ (p.lstEmpty = "" ∨ p.lstEmpty = cfg.state.lstEmpty)

section Startup

variable (serde : Serde) (cfg : Config)

/-- The files before startup. -/
def beforeStartup (content : List UInt8) (leftover : Option (File UInt8)) :
    Files := Store.initial (some ⟨content, true⟩) leftover

/-- The state startup saves, from what its one read of the file gave. -/
def startupState (content : List UInt8) (readable : Bool) (now : String) :
    PersistedState :=
  snapshot cfg (loadRuntime cfg (load serde readable (some ⟨content, true⟩)) now)

/-- Startup as steps of the store: its save, cut off anywhere. -/
def startupSteps (content : List UInt8) (readable : Bool) (now : String)
    (steps : List (AtomicReplace.Action UInt8 PersistedState)) :
    List (AtomicReplace.Action UInt8 PersistedState) :=
  .start (startupState serde cfg content readable now) :: steps

variable {serde cfg}

theorem load_intact {content : List UInt8} {p : PersistedState}
    (hintact : serde.fromSlice content = some p) :
    load serde true (some ⟨content, true⟩) = .ok (some p) := by
  simp only [load, ↓reduceIte, hintact]

/-- What is stored after startup. -/
theorem load_after_startup {content : List UInt8}
    {leftover : Option (File UInt8)} {p : PersistedState}
    (hintact : serde.fromSlice content = some p) {readable : Bool} {now : String}
    (hback : serde.ReadsBack (startupState serde cfg content readable now))
    {steps : List (AtomicReplace.Action UInt8 PersistedState)}
    (hsteps : ∀ a ∈ steps, ∀ v, a ≠ .start v) {s : Files}
    (hrun : (beforeStartup content leftover).run serde.toVecPretty
      (startupSteps serde cfg content readable now steps) = some s) :
    (.rename ∈ steps → load serde true s.target =
      .ok (some (startupState serde cfg content readable now))) ∧
    (.rename ∉ steps → load serde true s.target = .ok (some p)) := by
  have horigin : ∀ f : File UInt8, some ⟨content, true⟩ = some f →
      f.synced = true := by
    intro f hf
    rw [← Option.some.inj hf]
  have hinv := (Store.inv_initial (some ⟨content, true⟩) leftover).run horigin hrun
  constructor
  · intro hrename
    have hrenamed := Store.renamed_of_mem hsteps hrename hrun
    have hlast : s.renamed.getLast? =
        some (startupState serde cfg content readable now) := by
      rw [hrenamed, List.getLast?_concat]
    have hreads : ∀ state, s.renamed.getLast? = some state →
        serde.ReadsBack state := by
      intro state hstate
      rw [← Option.some.inj (hlast.symm.trans hstate)]
      exact hback
    rw [load_of_targetHolds hreads hinv.target, hlast]
  · intro hrename
    have hmem : AtomicReplace.Action.rename ∉
        startupSteps serde cfg content readable now steps := by
      rw [startupSteps, List.mem_cons, not_or]
      exact ⟨by simp, hrename⟩
    have hnone : s.renamed.getLast? = none := by
      rw [Store.run_renamed_of_not_mem hmem hrun]
      rfl
    have hreads : ∀ state, s.renamed.getLast? = some state →
        serde.ReadsBack state := by
      intro state hstate
      cases hnone.symm.trans hstate
    rw [load_of_targetHolds hreads hinv.target, hnone]
    exact load_intact hintact

/-- Startup from a read that succeeded saves what was read. -/
theorem keeps_of_readable {content : List UInt8} {p : PersistedState}
    (hintact : serde.fromSlice content = some p) (now : String) :
    Keeps (.ok (some (startupState serde cfg content true now))) p := by
  refine ⟨_, rfl, ?_, ?_⟩
  · rw [startupState, load_intact hintact]
    exact List.Sublist.refl _
  · intro hne
    rw [startupState, load_intact hintact]
    exact if_neg hne

/-- Startup from a read that failed saves the seed. -/
theorem keeps_of_unreadable {content : List UInt8} {p : PersistedState}
    (now : String) :
    Keeps (.ok (some (startupState serde cfg content false now))) p ↔
      NothingToLose cfg p := by
  constructor
  · rintro ⟨p', heq, hhistory, hempty⟩
    cases heq
    refine ⟨List.sublist_nil.mp hhistory, ?_⟩
    by_cases h : p.lstEmpty = ""
    · exact Or.inl h
    · exact Or.inr (hempty h).symm
  · rintro ⟨hhistory, hempty⟩
    refine ⟨_, rfl, ?_, fun hne => ?_⟩
    · rw [hhistory]
      exact List.nil_sublist _
    · exact (hempty.resolve_left hne).symm

end Startup

/-- Startup keeps the records and the baseline of an intact state file exactly
when its read of the file succeeds, or its save never comes to the rename, or
the file holds nothing the seed would lose. -/
theorem startup_keeps_iff (serde : Serde) (cfg : Config) (content : List UInt8)
    (leftover : Option (File UInt8)) (p : PersistedState)
    (hintact : serde.fromSlice content = some p) (readable : Bool) (now : String)
    (hback : serde.ReadsBack (startupState serde cfg content readable now))
    (steps : List (AtomicReplace.Action UInt8 PersistedState))
    (hsteps : ∀ a ∈ steps, ∀ v, a ≠ .start v) (s : Files)
    (hrun : (beforeStartup content leftover).run serde.toVecPretty
      (startupSteps serde cfg content readable now steps) = some s) :
    Keeps (load serde true s.target) p ↔
      readable = true ∨ .rename ∉ steps ∨ NothingToLose cfg p := by
  obtain ⟨hsaved, hunsaved⟩ := load_after_startup hintact hback hsteps hrun
  by_cases hrename : .rename ∈ steps
  · rw [hsaved hrename]
    cases readable with
    | true => exact iff_of_true (keeps_of_readable hintact now) (Or.inl rfl)
    | false =>
        rw [keeps_of_unreadable]
        constructor
        · exact fun h => Or.inr (Or.inr h)
        · rintro (h | h | h)
          · cases h
          · exact absurd hrename h
          · exact h
  · rw [hunsaved hrename]
    exact iff_of_true ⟨p, rfl, List.Sublist.refl _, fun _ => rfl⟩
      (Or.inr (Or.inl hrename))

namespace Sample

/-- A save that completes. -/
def completeSave (size : ℕ) : List (AtomicReplace.Action UInt8 PersistedState) :=
  [.create, .write size, .sync, .rename, .finish]

theorem completeSave_run {encode : PersistedState → Option (List UInt8)}
    (content : List UInt8) {bytes : List UInt8} {state : PersistedState}
    (hprint : encode state = some bytes) :
    ∃ s, (beforeStartup content none).run encode
      (.start state :: completeSave bytes.length) = some s := by
  have hwritten : bytes.drop bytes.length = [] := List.drop_length
  simp only [completeSave, beforeStartup, Store.run, Machine.run,
    Store.initial, Store.step, hprint, hwritten, Option.map_some,
    Option.bind_some]
  exact ⟨_, rfl⟩

theorem serde_seeded :
    serde.toVecPretty seeded = some (Utf8.encode seededText) := by
  have hne : seeded ≠ persisted := by decide +kernel
  simp only [serde, if_neg hne, ↓reduceIte]

theorem serde_persisted :
    serde.toVecPretty persisted = some (Utf8.encode persistedText) ∧
      serde.fromSlice (Utf8.encode persistedText) = some persisted := by
  simp only [serde, ↓reduceIte, and_self]

/-- Startup over the sample state file, its save complete. -/
def startupRun (readable : Bool) (size : ℕ) : Option Files :=
  (beforeStartup (Utf8.encode persistedText) none).run serde.toVecPretty
    (startupSteps serde config (Utf8.encode persistedText) readable
      "2026-06-10T20:00:00+02:00" (completeSave size))

theorem completeSave_ne_start (size : ℕ) :
    ∀ a ∈ completeSave size, ∀ v, a ≠ .start v := by
  simp [completeSave]

end Sample

/-- A read error on a good file at startup erases its reading. -/
theorem startup_erases_after_read_error :
    ¬ ∀ (readable : Bool) (size : ℕ) (s : Files),
        Sample.startupRun readable size = some s →
        Keeps (load Sample.serde true s.target) Sample.persisted := by
  intro hkeeps
  have hstate : startupState Sample.serde Sample.config
      (Utf8.encode Sample.persistedText) false "2026-06-10T20:00:00+02:00" =
      Sample.seeded := rfl
  obtain ⟨s, hs⟩ := Sample.completeSave_run
    (Utf8.encode Sample.persistedText) Sample.serde_seeded
  rw [← hstate] at hs
  have hkept := hkeeps false _ s hs
  rw [(load_after_startup Sample.serde_persisted.2 (Sample.serde_roundTrips _)
    (Sample.completeSave_ne_start _) hs).1 (by simp [Sample.completeSave]),
    keeps_of_unreadable] at hkept
  exact absurd hkept.1 (by decide)

theorem startup_keeps_after_good_read :
    ∃ s, Sample.startupRun true (Utf8.encode Sample.persistedText).length =
        some s ∧
      Keeps (load Sample.serde true s.target) Sample.persisted := by
  have hstate : startupState Sample.serde Sample.config
      (Utf8.encode Sample.persistedText) true "2026-06-10T20:00:00+02:00" =
      Sample.persisted := by
    rw [startupState, load_intact Sample.serde_persisted.2]
    decide +kernel
  obtain ⟨s, hs⟩ := Sample.completeSave_run
    (Utf8.encode Sample.persistedText) Sample.serde_persisted.1
  rw [← hstate] at hs
  refine ⟨s, hs, ?_⟩
  exact (startup_keeps_iff Sample.serde Sample.config _ none _
    Sample.serde_persisted.2 true _ (Sample.serde_roundTrips _) _
    (Sample.completeSave_ne_start _) s hs).mpr (Or.inl rfl)

end Aquilo
