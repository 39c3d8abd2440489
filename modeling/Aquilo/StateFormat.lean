/-
The format of the state file: how the persisted state and what it holds are
written as JSON values and read back.  Every field of the file has a default, and
keys of a later version are passed over.
-/
import Aquilo.DerivedStruct
import Aquilo.JsonStore

namespace Aquilo

open DerivedStruct ExactFloat

namespace Json

/-- A structure is read from an object or from an array. -/
def layout : Json → Option (Layout Json)
  | obj fields => some (.keyed fields)
  | arr items => some (.positional items)
  | _ => none

/-- An array of values that all read. -/
def asVec {α : Type} (read : Json → Option α) : Json → Option (List α)
  | arr items => items.mapM read
  | _ => none

/-- Null, or a value that reads. -/
def asOption {α : Type} (read : Json → Option α) : Json → Option (Option α)
  | null => some none
  | v => (read v).map some

end Json

/-- The layout of a structure with so many fields. -/
def structOf (fields : ℕ) (v : Json) : Option (Layout Json) :=
  v.layout.filter fun l => decide (l.Fits fields)

@[simp] theorem structOf_obj (fields : ℕ) (entries : List (String × Json)) :
    structOf fields (.obj entries) = some (.keyed entries) := rfl

namespace ReadingRecord

def fields (r : ReadingRecord) : List (String × Json) :=
  [("ts", .str r.ts), ("lvl", .float r.lvl), ("bat", .int r.bat)]

def serialize (r : ReadingRecord) : Json := .obj r.fields

def deserialize (v : Json) : Option ReadingRecord := do
  let l ← structOf 3 v
  let ts ← (Field.required "ts" Json.asStr).get 0 l
  let lvl ← (Field.required "lvl" Json.asF64).get 1 l
  let bat ← (Field.required "bat" Json.asI64).get 2 l
  return { ts, lvl, bat }

end ReadingRecord

namespace Calibration

def fields (c : Calibration) : List (String × Json) :=
  [("full_dist", .float c.fullDist), ("empty_dist", .float c.emptyDist)]

def serialize (c : Calibration) : Json := .obj c.fields

def deserialize (v : Json) : Option Calibration := do
  let l ← structOf 2 v
  let fullDist ← (Field.defaulted "full_dist" Json.asF64 defaultFullDist).get 0 l
  let emptyDist ← (Field.defaulted "empty_dist" Json.asF64 defaultEmptyDist).get 1 l
  return { fullDist, emptyDist }

end Calibration

namespace SensorState

def fields (s : SensorState) : List (String × Json) :=
  [ ("id", .str s.id), ("name", .str s.name), ("lvl", .float s.lvl),
    ("pct", .int s.pct), ("bat", .int s.bat), ("lst_read", .str s.lstRead),
    ("lst_empty", .str s.lstEmpty), ("days_left", .int s.daysLeft),
    ("lvl_to_full", .int s.lvlToFull), ("from", .str s.from) ]

def serialize (s : SensorState) : Json := .obj s.fields

def deserialize (v : Json) : Option SensorState := do
  let l ← structOf 10 v
  let id ← (Field.required "id" Json.asStr).get 0 l
  let name ← (Field.required "name" Json.asStr).get 1 l
  let lvl ← (Field.required "lvl" Json.asF64).get 2 l
  let pct ← (Field.required "pct" Json.asI64).get 3 l
  let bat ← (Field.required "bat" Json.asI64).get 4 l
  let lstRead ← (Field.required "lst_read" Json.asStr).get 5 l
  let lstEmpty ← (Field.required "lst_empty" Json.asStr).get 6 l
  let daysLeft ← (Field.required "days_left" Json.asI64).get 7 l
  let lvlToFull ← (Field.required "lvl_to_full" Json.asI64).get 8 l
  let from' ← (Field.required "from" Json.asStr).get 9 l
  return { id, name, lvl, pct, bat, lstRead, lstEmpty, daysLeft, lvlToFull,
           «from» := from' }

end SensorState

namespace PersistedState

def history? : Field Json (List ReadingRecord) :=
  .defaulted "history" (Json.asVec ReadingRecord.deserialize) []

def lstEmpty? : Field Json String := .defaulted "lst_empty" Json.asStr ""

def lastState? : Field Json (Option SensorState) :=
  .defaulted "last_state" (Json.asOption SensorState.deserialize) none

def calibration? : Field Json Calibration :=
  .defaulted "calibration" Calibration.deserialize Calibration.default

def fields (s : PersistedState) : List (String × Json) :=
  [ ("history", .arr (s.history.map ReadingRecord.serialize)),
    ("lst_empty", .str s.lstEmpty),
    ("last_state", (s.lastState.map SensorState.serialize).getD .null),
    ("calibration", s.calibration.serialize) ]

def serialize (s : PersistedState) : Json := .obj s.fields

def deserialize (v : Json) : Option PersistedState := do
  let l ← structOf 4 v
  let history ← history?.get 0 l
  let lstEmpty ← lstEmpty?.get 1 l
  let lastState ← lastState?.get 2 l
  let calibration ← calibration?.get 3 l
  return { history, lstEmpty, lastState, calibration }

end PersistedState

/-- The integers of a state are the 64-bit ones of the source. -/
structure PersistedState.InRange (s : PersistedState) : Prop where
  history : ∀ r ∈ s.history, InI64 r.bat
  lastState : ∀ last ∈ s.lastState, last.InRange

section RoundTrip

theorem ReadingRecord.deserialize_serialize {r : ReadingRecord} (h : InI64 r.bat) :
    deserialize r.serialize = some r := by
  simp [deserialize, serialize, fields, Field.get, Field.required, Json.asStr,
    Json.asF64, Json.asI64, h]

theorem Calibration.deserialize_serialize (c : Calibration) :
    deserialize c.serialize = some c := by
  simp [deserialize, serialize, fields, Field.get, Field.defaulted, Json.asF64]

theorem SensorState.deserialize_serialize {s : SensorState} (h : s.InRange) :
    deserialize s.serialize = some s := by
  simp [deserialize, serialize, fields, Field.get, Field.required, Json.asStr,
    Json.asF64, Json.asI64, h.pct, h.bat, h.daysLeft, h.lvlToFull]

theorem asVec_history {history : List ReadingRecord}
    (h : ∀ r ∈ history, InI64 r.bat) :
    Json.asVec ReadingRecord.deserialize
      (.arr (history.map ReadingRecord.serialize)) = some history := by
  induction history with
  | nil => rfl
  | cons r rest ih =>
      have hr := ReadingRecord.deserialize_serialize (h r List.mem_cons_self)
      have hrest := ih fun r' hr' => h r' (List.mem_cons_of_mem r hr')
      rw [Json.asVec] at hrest ⊢
      rw [List.map_cons, List.mapM_cons, hr, hrest]
      rfl

theorem asOption_lastState {lastState : Option SensorState}
    (h : ∀ last ∈ lastState, last.InRange) :
    Json.asOption SensorState.deserialize
      ((lastState.map SensorState.serialize).getD .null) = some lastState := by
  cases lastState with
  | none => rfl
  | some last =>
      show (SensorState.deserialize last.serialize).map some = _
      rw [SensorState.deserialize_serialize (h last rfl)]
      rfl

namespace PersistedState

/-- The state with the fields dropped from the file at their defaults. -/
def keep (kept : String → Bool) (s : PersistedState) : PersistedState where
  history := if kept "history" then s.history else []
  lstEmpty := if kept "lst_empty" then s.lstEmpty else ""
  lastState := if kept "last_state" then s.lastState else none
  calibration := if kept "calibration" then s.calibration else Calibration.default

@[simp] theorem keep_all (s : PersistedState) : s.keep (fun _ => true) = s := rfl

/-- Each of the fields is read wherever it stands, whatever is read of the
others. -/
theorem deserialize_of_rearranges {s : PersistedState} (h : s.InRange)
    {kept : String → Bool} {entries : List (String × Json)}
    (hentries : Rearranges s.fields kept entries) :
    deserialize (.obj entries) = some (s.keep kept) := by
  have hhistory : history?.get 0 (.keyed entries) = some (s.keep kept).history :=
    Field.get_defaulted hentries
      (v := .arr (s.history.map ReadingRecord.serialize)) (by simp [fields])
      (asVec_history h.history) 0
  have hempty : lstEmpty?.get 1 (.keyed entries) = some (s.keep kept).lstEmpty :=
    Field.get_defaulted hentries (v := .str s.lstEmpty) (by simp [fields])
      (show Json.asStr (.str s.lstEmpty) = some s.lstEmpty from rfl) 1
  have hlast : lastState?.get 2 (.keyed entries) = some (s.keep kept).lastState :=
    Field.get_defaulted hentries
      (v := (s.lastState.map SensorState.serialize).getD .null) (by simp [fields])
      (asOption_lastState h.lastState) 2
  have hcalibration : calibration?.get 3 (.keyed entries) =
      some (s.keep kept).calibration :=
    Field.get_defaulted hentries (v := s.calibration.serialize) (by simp [fields])
      s.calibration.deserialize_serialize 3
  simp only [deserialize, structOf_obj, hhistory, hempty, hlast, hcalibration,
    Option.bind_eq_bind, Option.bind_some]
  rfl

end PersistedState

theorem ReadingRecord.inI64_of_deserialize {v : Json} {r : ReadingRecord}
    (h : deserialize v = some r) : InI64 r.bat := by
  obtain ⟨l, -, h⟩ := Option.bind_eq_some_iff.mp h
  obtain ⟨ts, -, h⟩ := Option.bind_eq_some_iff.mp h
  obtain ⟨lvl, -, h⟩ := Option.bind_eq_some_iff.mp h
  obtain ⟨bat, hbat, h⟩ := Option.bind_eq_some_iff.mp h
  cases h
  obtain ⟨w, hw⟩ := Field.get_required hbat
  exact Json.asI64_inI64 hw

theorem SensorState.inRange_of_deserialize {v : Json} {s : SensorState}
    (h : deserialize v = some s) : s.InRange := by
  obtain ⟨l, -, h⟩ := Option.bind_eq_some_iff.mp h
  obtain ⟨id, -, h⟩ := Option.bind_eq_some_iff.mp h
  obtain ⟨name, -, h⟩ := Option.bind_eq_some_iff.mp h
  obtain ⟨lvl, -, h⟩ := Option.bind_eq_some_iff.mp h
  obtain ⟨pct, hpct, h⟩ := Option.bind_eq_some_iff.mp h
  obtain ⟨bat, hbat, h⟩ := Option.bind_eq_some_iff.mp h
  obtain ⟨lstRead, -, h⟩ := Option.bind_eq_some_iff.mp h
  obtain ⟨lstEmpty, -, h⟩ := Option.bind_eq_some_iff.mp h
  obtain ⟨daysLeft, hdays, h⟩ := Option.bind_eq_some_iff.mp h
  obtain ⟨lvlToFull, hfull, h⟩ := Option.bind_eq_some_iff.mp h
  obtain ⟨from', -, h⟩ := Option.bind_eq_some_iff.mp h
  cases h
  have hin : ∀ {key : String} {i : ℕ} {n : ℤ},
      (Field.required key Json.asI64).get i l = some n → InI64 n := by
    intro key i n hn
    obtain ⟨w, hw⟩ := Field.get_required hn
    exact Json.asI64_inI64 hw
  exact ⟨hin hpct, hin hbat, hin hdays, hin hfull⟩

theorem exists_of_mem_mapM {α β : Type} {f : α → Option β} {xs : List α}
    {ys : List β} (h : xs.mapM f = some ys) : ∀ y ∈ ys, ∃ x ∈ xs, f x = some y := by
  induction xs generalizing ys with
  | nil =>
      cases Option.some.inj h
      simp
  | cons x rest ih =>
      rw [List.mapM_cons] at h
      obtain ⟨y, hy, h⟩ := Option.bind_eq_some_iff.mp h
      obtain ⟨ys', hys, h⟩ := Option.bind_eq_some_iff.mp h
      cases Option.some.inj h
      rintro y' hy'
      rcases List.mem_cons.mp hy' with rfl | hy'
      · exact ⟨x, List.mem_cons_self, hy⟩
      · obtain ⟨x', hx', hread⟩ := ih hys y' hy'
        exact ⟨x', List.mem_cons_of_mem x hx', hread⟩

theorem inI64_of_asVec {v : Json} {history : List ReadingRecord}
    (h : Json.asVec ReadingRecord.deserialize v = some history) :
    ∀ r ∈ history, InI64 r.bat := by
  cases v with
  | arr items =>
      intro r hr
      obtain ⟨item, -, hread⟩ := exists_of_mem_mapM h r hr
      exact ReadingRecord.inI64_of_deserialize hread
  | _ => cases h

namespace PersistedState

/-- What is read from a file is in range. -/
theorem inRange_of_deserialize {v : Json} {s : PersistedState}
    (h : deserialize v = some s) : s.InRange := by
  obtain ⟨l, -, h⟩ := Option.bind_eq_some_iff.mp h
  obtain ⟨history, hhistory, h⟩ := Option.bind_eq_some_iff.mp h
  obtain ⟨lstEmpty, -, h⟩ := Option.bind_eq_some_iff.mp h
  obtain ⟨lastState, hlast, h⟩ := Option.bind_eq_some_iff.mp h
  obtain ⟨calibration, -, h⟩ := Option.bind_eq_some_iff.mp h
  cases h
  constructor
  · rcases Field.get_eq_some hhistory with ⟨w, hw⟩ | habsent | hshort
    · exact inI64_of_asVec hw
    · cases habsent
      simp
    · cases hshort
      simp
  · rcases Field.get_eq_some hlast with ⟨w, hw⟩ | habsent | hshort
    · intro last hmem
      obtain rfl := Option.mem_def.mp hmem
      obtain ⟨last', hlast', heq⟩ : ∃ last', SensorState.deserialize w = some last' ∧
          some last' = some last := by
        cases w <;> first | cases hw | exact Option.map_eq_some_iff.mp hw
      cases heq
      exact SensorState.inRange_of_deserialize hlast'
    · cases habsent
      simp
    · cases hshort
      simp

/-- A known key that stands twice is refused. -/
theorem deserialize_of_duplicate {entries : List (String × Json)} {key : String}
    (hkey : key ∈ ["history", "lst_empty", "last_state", "calibration"])
    {v v' : Json} {rest : List Json} (h : under key entries = v :: v' :: rest) :
    deserialize (.obj entries) = none := by
  rw [Option.eq_none_iff_forall_ne_some]
  intro s hs
  rw [deserialize, structOf_obj] at hs
  obtain ⟨l, hl, hs⟩ := Option.bind_eq_some_iff.mp hs
  cases Option.some.inj hl
  obtain ⟨history, hhistory, hs⟩ := Option.bind_eq_some_iff.mp hs
  obtain ⟨lstEmpty, hempty, hs⟩ := Option.bind_eq_some_iff.mp hs
  obtain ⟨lastState, hlast, hs⟩ := Option.bind_eq_some_iff.mp hs
  obtain ⟨calibration, hcalibration, -⟩ := Option.bind_eq_some_iff.mp hs
  have hrefused : ∀ {α : Type} {f : Field Json α} {i : ℕ} {a : α}, f.key = key →
      f.get i (.keyed entries) ≠ some a := by
    rintro α f i a rfl hread
    rw [Field.get_of_duplicate h] at hread
    cases hread
  simp only [List.mem_cons, List.not_mem_nil, or_false] at hkey
  rcases hkey with rfl | rfl | rfl | rfl
  · exact hrefused rfl hhistory
  · exact hrefused rfl hempty
  · exact hrefused rfl hlast
  · exact hrefused rfl hcalibration

end PersistedState

end RoundTrip

/-- The text layer of the JSON library. -/
structure JsonText where
  print : Json → Option (List UInt8)
  parse : List UInt8 → Option Json

/-- A printed value is read back. -/
def JsonText.RoundTrips (text : JsonText) : Prop :=
  ∀ v bytes, text.print v = some bytes → text.parse bytes = some v

/-- The serialization the store uses, over a text layer. -/
def Serde.derived (text : JsonText) : Serde where
  toVecPretty s := text.print s.serialize
  fromSlice bytes := (text.parse bytes).bind PersistedState.deserialize

/-- A state with 64-bit integers is read back from what is printed for it. -/
theorem Serde.derived_readsBack {text : JsonText} (htext : text.RoundTrips)
    {s : PersistedState} (hs : s.InRange) : (Serde.derived text).ReadsBack s := by
  intro bytes hprint
  have hread := PersistedState.deserialize_of_rearranges hs (rearranges_self s.fields)
  rw [PersistedState.keep_all] at hread
  simp only [derived, htext _ _ hprint, Option.bind_some]
  exact hread

/-- The state file's format.  What the store writes is read back, wherever its keys
stand, with unknown keys beside them and with any of the four left out, which then
have their defaults; a known key twice is refused; whatever is read is written and
read back the same; and over a text layer that reads back what it prints, a save
reads back as the state that was saved. -/
theorem stateFile_format :
    (∀ s : PersistedState, s.InRange → ∀ kept entries,
        Rearranges s.fields kept entries →
          PersistedState.deserialize (.obj entries) = some (s.keep kept)) ∧
      (∀ entries key, key ∈ ["history", "lst_empty", "last_state", "calibration"] →
        2 ≤ (under key entries).length →
          PersistedState.deserialize (.obj entries) = none) ∧
      (∀ v s, PersistedState.deserialize v = some s →
        PersistedState.deserialize s.serialize = some s) ∧
      ∀ text : JsonText, text.RoundTrips → ∀ s : PersistedState, s.InRange →
        (Serde.derived text).ReadsBack s := by
  refine ⟨fun s hs kept entries => PersistedState.deserialize_of_rearranges hs, ?_, ?_,
    fun text htext s => Serde.derived_readsBack htext⟩
  · intro entries key hkey htwice
    match hunder : under key entries with
    | [] => simp [hunder] at htwice
    | [v] => simp [hunder] at htwice
    | v :: v' :: rest => exact PersistedState.deserialize_of_duplicate hkey hunder
  · intro v s hread
    exact PersistedState.deserialize_of_rearranges
      (PersistedState.inRange_of_deserialize hread) (rearranges_self s.fields)

/-- A file without the last state and with a key of a later version. -/
example : PersistedState.deserialize (.obj [
    ("schema", .int 2), ("lst_empty", .str "2026-06-01T00:00:00+02:00"),
    ("history", .arr [.obj [("bat", .int 83), ("lvl", .int 150), ("ts", .str "t")]])]) =
    some
      { history := [⟨"t", 150, 83⟩]
        lstEmpty := "2026-06-01T00:00:00+02:00"
        lastState := none
        calibration := Calibration.default } := by
  decide +kernel

end Aquilo
