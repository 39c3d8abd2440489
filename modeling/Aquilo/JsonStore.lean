/-
The JSON file store: what a load reads, and saves cut short at any step.  The
reader and the printer of the state are the serialization library's and enter
as a parameter.
-/
import Aquilo.AtomicReplace
import Aquilo.Serve

namespace Aquilo

open AtomicReplace

/-- The serialization library at the persisted state. -/
structure Serde where
  toVecPretty : PersistedState → Option (List UInt8)
  fromSlice : List UInt8 → Option PersistedState

/-- What is printed for a state is read back. -/
def Serde.ReadsBack (serde : Serde) (state : PersistedState) : Prop :=
  ∀ bytes, serde.toVecPretty state = some bytes →
    serde.fromSlice bytes = some state

/-- What is printed is read back. -/
def Serde.RoundTrips (serde : Serde) : Prop := ∀ state, serde.ReadsBack state

/-- The state file and the temporary file beside it. -/
structure JsonFileStore where
  path : String
  tmp : String

namespace JsonFileStore

def new (path : String) : JsonFileStore := ⟨path, path ++ ".tmp"⟩

/-- The contents of the two files, the save under way and the states whose
rename took effect. -/
abbrev Files := Store UInt8 PersistedState

section Load

variable (serde : Serde)

/-- An absent file is no state; a read that fails is an error, whatever the
file holds. -/
def load (readable : Bool) (target : Option (File UInt8)) : Disk :=
  if readable then
    match target with
    | none => .ok none
    | some f =>
        match serde.fromSlice f.contents with
        | some state => .ok (some state)
        | none => .error .corrupt
  else .error .unreadable

variable {serde}

/-- What is loaded is the last state renamed into place. -/
theorem load_of_targetHolds {origin target : Option (File UInt8)}
    {renamed : List PersistedState}
    (hback : ∀ state, renamed.getLast? = some state → serde.ReadsBack state)
    (h : Store.TargetHolds serde.toVecPretty origin target renamed) :
    load serde true target =
      match renamed.getLast? with
      | some state => .ok (some state)
      | none => load serde true origin := by
  rw [Store.TargetHolds] at h
  cases hlast : renamed.getLast? with
  | none =>
      rw [hlast] at h
      rw [h]
  | some state =>
      rw [hlast] at h
      obtain ⟨contents, hprint, rfl⟩ := h
      simp only [load, ↓reduceIte, hback state hlast contents hprint]

end Load

end JsonFileStore

open JsonFileStore in
/-- After any steps of any saves on one path, with any temporary file left from
before: the state file is absent or the complete serialization of a saved
state, a load gives the last state renamed into place, a save that fails leaves
what a load gives unchanged, and so does everything short of a rename. -/
theorem store_crash_atomic (serde : Serde) (hround : serde.RoundTrips)
    (leftover : Option (File UInt8))
    (actions : List (AtomicReplace.Action UInt8 PersistedState)) (s : Files)
    (hrun : (Store.initial none leftover).run serde.toVecPretty actions =
      some s) :
    ((s.renamed = [] ∧ s.target = none) ∨
        ∃ state ∈ s.renamed, ∃ bytes,
          serde.toVecPretty state = some bytes ∧ s.target = some ⟨bytes, true⟩) ∧
      load serde true s.target = .ok s.renamed.getLast? ∧
      (∀ state steps s', (∀ a ∈ steps, ∀ v, a ≠ .start v) →
        s.run serde.toVecPretty (.start state :: (steps ++ [.fail])) = some s' →
          load serde true s'.target = load serde true s.target) ∧
      ∀ steps s', .rename ∉ steps →
        s.run serde.toVecPretty steps = some s' →
          load serde true s'.target = load serde true s.target := by
  have horigin : ∀ f : File UInt8, none = some f → f.synced = true :=
    fun _ h => by cases h
  have hinv : Store.Inv serde.toVecPretty none s :=
    (Store.inv_initial none leftover).run horigin hrun
  have hload : ∀ s' : Files, Store.Inv serde.toVecPretty none s' →
      load serde true s'.target = .ok s'.renamed.getLast? := by
    intro s' h
    rw [load_of_targetHolds (fun state _ => hround state) h.target]
    cases s'.renamed.getLast? with
    | none => rfl
    | some state => rfl
  refine ⟨?_, hload s hinv, ?_, ?_⟩
  · have htarget := hinv.target
    rw [Store.TargetHolds] at htarget
    split at htarget
    · rename_i hlast
      exact Or.inl ⟨List.getLast?_eq_none_iff.mp hlast, htarget⟩
    · rename_i state hlast
      exact Or.inr ⟨state, List.mem_of_getLast? hlast, htarget⟩
  · intro state steps s' hsteps hrun'
    rw [hload s' (hinv.run horigin hrun'), hload s hinv,
      Store.renamed_of_failed hsteps hrun']
  · intro steps s' hsteps hrun'
    rw [hload s' (hinv.run horigin hrun'), hload s hinv,
      Store.run_renamed_of_not_mem hsteps hrun']

namespace Sample

/-- The state file's text, around its history, last state and baseline. -/
def stateFileText (history lstEmpty lvl pct lstRead daysLeft lvlToFull : String) :
    String :=
  "\x7b\n  \"history\": " ++ history ++ ",\n  \"lst_empty\": \"" ++ lstEmpty ++
  "\",\n  \"last_state\": \x7b\n    \"id\": \"ae5058\",\n    \"name\": \"ae5058\"" ++
  ",\n    \"lvl\": " ++ lvl ++ ",\n    \"pct\": " ++ pct ++
  ",\n    \"bat\": 83,\n    \"lst_read\": \"" ++ lstRead ++
  "\",\n    \"lst_empty\": \"" ++ lstEmpty ++ "\",\n    \"days_left\": " ++
  daysLeft ++ ",\n    \"lvl_to_full\": " ++ lvlToFull ++
  ",\n    \"from\": \"node-4\"\n  \x7d,\n  \"calibration\": \x7b\n" ++
  "    \"full_dist\": 40.0,\n    \"empty_dist\": 178.0\n  \x7d\n\x7d"

/-- A state file with one reading. -/
def persisted : PersistedState where
  history := [⟨"2026-06-09T12:00:00+02:00", 764 / 5, 83⟩]
  lstEmpty := "2026-06-01T00:00:00+02:00"
  lastState := some
    { id := "ae5058"
      name := "ae5058"
      lvl := 764 / 5
      pct := 18
      bat := 83
      lstRead := "2026-06-09T12:00:00+02:00"
      lstEmpty := "2026-06-01T00:00:00+02:00"
      daysLeft := 7
      lvlToFull := 113
      «from» := "node-4" }
  calibration := Calibration.default

def persistedText : String :=
  stateFileText ("[\n    \x7b\n      \"ts\": \"2026-06-09T12:00:00+02:00\",\n" ++
    "      \"lvl\": 152.8,\n      \"bat\": 83\n    \x7d\n  ]")
    "2026-06-01T00:00:00+02:00" "152.8" "18" "2026-06-09T12:00:00+02:00" "7" "113"

/-- What a server without a state saves first. -/
def seeded : PersistedState :=
  snapshot config (seedRuntime config "2026-06-10T20:00:00+02:00")

def seededText : String :=
  stateFileText "[]" "2026-05-30T00:17:19+02:00" "150.2" "20"
    "2026-06-10T20:00:00+02:00" "51" "110"

/-- The serialization of the two sample states. -/
def serde : Serde where
  toVecPretty state :=
    if state = persisted then some (Utf8.encode persistedText)
    else if state = seeded then some (Utf8.encode seededText)
    else none
  fromSlice bytes :=
    if bytes = Utf8.encode persistedText then some persisted
    else if bytes = Utf8.encode seededText then some seeded
    else none

theorem serde_roundTrips : serde.RoundTrips := by
  have hne : Utf8.encode seededText ≠ Utf8.encode persistedText := by
    rw [Utf8.encode_injective.ne_iff]
    decide +kernel
  intro state bytes hprint
  simp only [serde] at hprint ⊢
  split at hprint
  · rename_i hstate
    cases Option.some.inj hprint
    rw [if_pos rfl, hstate]
  · split at hprint
    · rename_i hstate
      cases Option.some.inj hprint
      rw [if_neg hne, if_pos rfl, hstate]
    · cases hprint

/-- One save that completes over a leftover temporary file, then one cut off
after a part of its bytes, which the crash garbles. -/
def cutSaves (size : ℕ) : List (AtomicReplace.Action UInt8 PersistedState) :=
  [ .start seeded, .create, .write 100, .write size, .sync, .rename, .finish,
    .start persisted, .create, .write 7, .crash (some [0, 0]) ]

theorem cutSaves_run {encode : PersistedState → Option (List UInt8)}
    {first second leftover : List UInt8} (hfirst : encode seeded = some first)
    (hsecond : encode persisted = some second) :
    ∃ s, (Store.initial none (some ⟨leftover, true⟩)).run encode
        (cutSaves first.length) = some s ∧
      s.temp = some ⟨[0, 0], true⟩ ∧ s.renamed = [seeded] := by
  have hwritten : (first.drop 100).drop first.length = [] := by
    rw [List.drop_drop, List.drop_eq_nil_of_le (by omega)]
  simp only [cutSaves, Store.run, Machine.run, Store.initial, Store.step,
    hfirst, hsecond, hwritten, Option.map_some, Option.bind_some]
  exact ⟨_, rfl, rfl, rfl⟩

end Sample

/-- The cut-off save leaves the completed one to be loaded. -/
theorem cutSaves_keep_first :
    ∃ s, (Store.initial none (some ⟨[0x7b], true⟩)).run Sample.serde.toVecPretty
        (Sample.cutSaves (Utf8.encode Sample.seededText).length) = some s ∧
      s.temp = some ⟨[0, 0], true⟩ ∧
      JsonFileStore.load Sample.serde true s.target =
        .ok (some Sample.seeded) := by
  have hseeded : Sample.serde.toVecPretty Sample.seeded =
      some (Utf8.encode Sample.seededText) := by
    have hne : Sample.seeded ≠ Sample.persisted := by decide +kernel
    simp only [Sample.serde, if_neg hne, ↓reduceIte]
  have hpersisted : Sample.serde.toVecPretty Sample.persisted =
      some (Utf8.encode Sample.persistedText) := if_pos rfl
  obtain ⟨s, hs, htemp, hrenamed⟩ := Sample.cutSaves_run hseeded hpersisted
  refine ⟨s, hs, htemp, ?_⟩
  rw [(store_crash_atomic Sample.serde Sample.serde_roundTrips _ _ s hs).2.1,
    hrenamed]
  rfl

end Aquilo
