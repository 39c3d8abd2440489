/-
The raw telemetry string: which strings are accepted, when an accepted one is
read positionally, and its round trip.
-/
import Aquilo.Reading
import Aquilo.Separated

namespace Aquilo

open ExactFloat RustStr

/-- What separates the fields. -/
def isUnderscore (c : Char) : Bool := c == '_'

/-- The segments between the outermost characters that are no underscores,
empty ones included. -/
def rawSegments (raw : String) : List String :=
  (Separated.segments isUnderscore raw.toList).map String.ofList

theorem rawParts_eq_pieces (raw : String) :
    rawParts raw =
      (Separated.pieces isUnderscore raw.toList).map String.ofList := rfl

namespace RawFrame

/-- The numeric fields in their order. -/
def numbers (f : RawFrame) : List ℤ :=
  [f.levelMm, f.batteryMv, f.amp, f.temp, f.readNo, f.lastSent] ++ f.rest

/-- A frame that stands in a list of segments position by position. -/
def StandsIn (f : RawFrame) (segs : List String) : Prop :=
  segs.take 2 = [f.version, f.sensor] ∧
    (segs.drop 2).map parseI64 = f.numbers.map some

/-- Enough segments, of which those from the third on are integers. -/
def Acceptable (segs : List String) : Prop :=
  8 ≤ segs.length ∧ ∀ s ∈ segs.drop 2, (parseI64 s).isSome = true

instance (segs : List String) : Decidable (Acceptable segs) :=
  inferInstanceAs (Decidable (_ ∧ _))

end RawFrame

theorem rawNum_eq_ok_iff {idx : ℕ} {field : String} {n : ℤ} :
    rawNum idx field = .ok n ↔ parseI64 field = some n := by
  rw [rawNum]
  cases parseI64 field <;> simp

theorem rawRest_eq_ok_iff {fields : List String} {ns : List ℤ} :
    rawRest fields = .ok ns ↔ fields.map parseI64 = ns.map some := by
  induction fields generalizing ns with
  | nil => cases ns <;> simp [rawRest]
  | cons field fields ih =>
      rw [rawRest]
      cases hfield : parseI64 field with
      | none => cases ns <;> simp [hfield]
      | some n =>
          cases ns with
          | nil => cases rawRest fields <;> simp [Except.map]
          | cons m ms =>
              cases h : rawRest fields with
              | error e =>
                  have hno : fields.map parseI64 ≠ ms.map some := fun heq => by
                    rw [ih.mpr heq] at h
                    cases h
                  simp [Except.map, hno]
              | ok rest =>
                  have hih := ih.mp h
                  simp [Except.map, hfield, hih,
                    (List.map_injective_iff.mpr (Option.some_injective ℤ)).eq_iff]

theorem bind_eq_ok_iff {ε α β : Type} {x : Except ε α} {f : α → Except ε β}
    {b : β} : (x >>= f) = .ok b ↔ ∃ a, x = .ok a ∧ f a = .ok b := by
  constructor
  · exact bind_eq_ok
  · rintro ⟨a, rfl, h⟩
    exact h

namespace RawFrame

theorem StandsIn.length_le {f : RawFrame} {segs : List String}
    (h : f.StandsIn segs) : 8 ≤ segs.length := by
  have hlen := congrArg List.length h.2
  simp only [List.length_map, List.length_drop, numbers, List.length_append,
    List.length_cons] at hlen
  omega

/-- At most one frame stands in a list of segments. -/
theorem StandsIn.unique {f g : RawFrame} {segs : List String}
    (hf : f.StandsIn segs) (hg : g.StandsIn segs) : f = g := by
  have htexts := hf.1.symm.trans hg.1
  have hnumbers := List.map_injective_iff.mpr (Option.some_injective ℤ)
    (hf.2.symm.trans hg.2)
  cases f
  cases g
  simp_all [numbers]

theorem acceptable_iff {segs : List String} :
    Acceptable segs ↔ ∃ f, StandsIn f segs := by
  constructor
  · rintro ⟨hlen, hnums⟩
    match segs, hlen with
    | version :: sensor :: p2 :: p3 :: p4 :: p5 :: p6 :: p7 :: trailing, _ =>
        rw [List.drop_succ_cons, List.drop_succ_cons, List.drop_zero] at hnums
        simp only [List.forall_mem_cons, Option.isSome_iff_exists] at hnums
        obtain ⟨⟨n2, h2⟩, ⟨n3, h3⟩, ⟨n4, h4⟩, ⟨n5, h5⟩, ⟨n6, h6⟩, ⟨n7, h7⟩,
          htrailing⟩ := hnums
        choose! value hvalue using htrailing
        refine ⟨⟨version, sensor, n2, n3, n4, n5, n6, n7,
          trailing.map value⟩, rfl, ?_⟩
        simpa [numbers, h2, h3, h4, h5, h6, h7] using hvalue
  · rintro ⟨f, h⟩
    refine ⟨h.length_le, ?_⟩
    intro s hs
    have hmem : parseI64 s ∈ f.numbers.map some := by
      rw [← h.2]
      exact List.mem_map_of_mem hs
    obtain ⟨n, -, hn⟩ := List.mem_map.mp hmem
    rw [← hn]
    rfl

/-- A string is read as the frame that stands in its nonempty segments. -/
theorem parse_eq_ok_iff {raw : String} {f : RawFrame} :
    RawFrame.parse raw = .ok f ↔ f.StandsIn (rawParts raw) := by
  rw [RawFrame.parse]
  split
  · rename_i version sensor p2 p3 p4 p5 p6 p7 trailing heq
    simp only [bind_eq_ok_iff, rawNum_eq_ok_iff, rawRest_eq_ok_iff, heq,
      StandsIn]
    constructor
    · rintro ⟨n2, h2, n3, h3, n4, h4, n5, h5, n6, h6, n7, h7, ns, hns, hf⟩
      cases hf
      simp [numbers, h2, h3, h4, h5, h6, h7, hns]
    · obtain ⟨v, s, n2, n3, n4, n5, n6, n7, ns⟩ := f
      rintro ⟨htexts, hnums⟩
      simp only [numbers, List.take_succ_cons, List.take_zero,
        List.drop_succ_cons, List.drop_zero, List.map_cons, List.cons_append,
        List.nil_append, List.cons.injEq, and_true] at htexts hnums
      obtain ⟨rfl, rfl⟩ := htexts
      obtain ⟨h2, h3, h4, h5, h6, h7, hns⟩ := hnums
      exact ⟨n2, h2, n3, h3, n4, h4, n5, h5, n6, h6, n7, h7, ns, hns, rfl⟩
  · rename_i hshort
    refine iff_of_false (by simp) ?_
    intro h
    match hparts : rawParts raw, h.length_le with
    | version :: sensor :: p2 :: p3 :: p4 :: p5 :: p6 :: p7 :: trailing, _ =>
        exact hshort version sensor p2 p3 p4 p5 p6 p7 trailing hparts

theorem acceptable_iff_parse {raw : String} :
    Acceptable (rawParts raw) ↔ ∃ f, RawFrame.parse raw = .ok f := by
  simp only [acceptable_iff, parse_eq_ok_iff]

end RawFrame

theorem ne_empty_of_mem_rawParts {raw s : String} (h : s ∈ rawParts raw) :
    s ≠ "" := by
  rw [rawParts_eq_pieces] at h
  obtain ⟨cs, hcs, rfl⟩ := List.mem_map.mp h
  intro hempty
  refine Separated.ne_nil_of_mem_pieces hcs ?_
  rw [← String.toList_ofList (l := cs), hempty]
  rfl

/-- Without an empty segment nothing is dropped. -/
theorem rawParts_eq_rawSegments {raw : String} (h : "" ∉ rawSegments raw) :
    rawParts raw = rawSegments raw := by
  rw [rawParts_eq_pieces, rawSegments, Separated.pieces_eq_segments]
  intro hmem
  exact h (List.mem_map.mpr ⟨[], hmem, rfl⟩)

/-- Whatever a string is read as stands in its segments, position by
position. -/
def ReadsPositionally (raw : String) : Prop :=
  ∀ f, RawFrame.parse raw = .ok f → f.StandsIn (rawSegments raw)

open RawFrame

/-- A string is read positionally exactly when its nonempty segments are refused
or no segment is empty. -/
theorem readsPositionally_iff (raw : String) :
    ReadsPositionally raw ↔
      (Acceptable (rawParts raw) → "" ∉ rawSegments raw) := by
  constructor
  · intro hread haccept hempty
    obtain ⟨f, hf⟩ := acceptable_iff_parse.mp haccept
    have hparts := parse_eq_ok_iff.mp hf
    have hsegments := hread f hf
    rw [← List.take_append_drop 2 (rawSegments raw)] at hempty
    rcases List.mem_append.mp hempty with hempty | hempty
    · -- the first two segments are those of the frame, which are not empty
      rw [hsegments.1, ← hparts.1] at hempty
      exact ne_empty_of_mem_rawParts (List.mem_of_mem_take hempty) rfl
    · -- the others are integers, which the empty segment is not
      have hnum := List.mem_map_of_mem (f := parseI64) hempty
      rw [hsegments.2, parseI64_empty] at hnum
      obtain ⟨n, -, hn⟩ := List.mem_map.mp hnum
      cases hn
  · intro hnone f hf
    have haccept := acceptable_iff_parse.mpr ⟨f, hf⟩
    rw [← rawParts_eq_rawSegments (hnone haccept)]
    exact parse_eq_ok_iff.mp hf

/-- With the level missing, the battery voltage is read as the level and every
later field moves up. -/
theorem missingLevel_shifts :
    RawFrame.parse "_e23_ae5058__3770_59_0_73044_72976_1_2" =
        .ok { version := "e23", sensor := "ae5058", levelMm := 3770,
              batteryMv := 59, amp := 0, temp := 73044, readNo := 72976,
              lastSent := 1, rest := [2] } ∧
      ¬ ReadsPositionally "_e23_ae5058__3770_59_0_73044_72976_1_2" := by
  refine and_iff_left_of_imp ?_ |>.mpr (by decide +kernel)
  intro hparse hread
  have hnumbers := (hread _ hparse).2
  revert hnumbers
  decide +kernel

namespace RawFrame

/-- The fields as they are printed. -/
def fields (f : RawFrame) : List String :=
  f.version :: f.sensor :: f.numbers.map displayI64

/-- The fields joined by underscores. -/
def joined (f : RawFrame) : String := "_".intercalate f.fields

/-- The texts hold no separator and the numbers fit 64 signed bits. -/
structure Printable (f : RawFrame) : Prop where
  version_ne : f.version ≠ ""
  version_plain : '_' ∉ f.version.toList
  sensor_ne : f.sensor ≠ ""
  sensor_plain : '_' ∉ f.sensor.toList
  inI64 : ∀ n ∈ f.numbers, InI64 n

theorem Printable.fields_ne {f : RawFrame} (h : f.Printable) :
    ∀ s ∈ f.fields, s ≠ "" := by
  intro s hs
  rw [fields, List.mem_cons, List.mem_cons, List.mem_map] at hs
  rcases hs with rfl | rfl | ⟨n, hn, rfl⟩
  · exact h.version_ne
  · exact h.sensor_ne
  · intro hempty
    have hparse := parseI64_displayI64 (h.inI64 n hn)
    rw [hempty, parseI64_empty] at hparse
    cases hparse

theorem Printable.fields_plain {f : RawFrame} (h : f.Printable) :
    ∀ s ∈ f.fields, '_' ∉ s.toList := by
  intro s hs
  rw [fields, List.mem_cons, List.mem_cons, List.mem_map] at hs
  rcases hs with rfl | rfl | ⟨n, -, rfl⟩
  · exact h.version_plain
  · exact h.sensor_plain
  · exact notMem_displayI64 (by decide) (by decide) n

/-- The fields of a frame are the pieces of its text, whatever underscores stand
around it. -/
theorem Printable.rawParts_joined {f : RawFrame} (h : f.Printable)
    (front back : ℕ) :
    rawParts (String.ofList (List.replicate front '_') ++ f.joined ++
      String.ofList (List.replicate back '_')) = f.fields := by
  have hseps : ∀ n : ℕ, ∀ c ∈ List.replicate n '_', isUnderscore c = true := by
    intro n c hc
    rw [List.eq_of_mem_replicate hc]
    rfl
  have hjoined : f.joined.toList =
      ['_'].intercalate (f.fields.map String.toList) := by
    rw [joined, String.toList_intercalate]
    rfl
  have hne : ∀ part ∈ f.fields.map String.toList, part ≠ [] := by
    simpa using h.fields_ne
  have hplain : ∀ part ∈ f.fields.map String.toList, '_' ∉ part := by
    simpa using h.fields_plain
  have hpieces : Separated.pieces isUnderscore f.joined.toList =
      f.fields.map String.toList := by
    rw [hjoined]
    exact Separated.pieces_intercalate hne hplain
  rw [rawParts_eq_pieces, String.toList_append, String.toList_append,
    String.toList_ofList, String.toList_ofList,
    Separated.pieces_append_right (hseps back),
    Separated.pieces_append_left (hseps front), hpieces, List.map_map]
  simp

theorem Printable.standsIn_fields {f : RawFrame} (h : f.Printable) :
    f.StandsIn f.fields := by
  refine ⟨rfl, ?_⟩
  rw [fields, List.drop_succ_cons, List.drop_succ_cons, List.drop_zero,
    List.map_map]
  exact List.map_congr_left fun n hn => parseI64_displayI64 (h.inI64 n hn)

/-- A printed frame is read back, whatever underscores stand around it. -/
theorem parse_joined (f : RawFrame) (h : f.Printable) (front back : ℕ) :
    RawFrame.parse (String.ofList (List.replicate front '_') ++ f.joined ++
      String.ofList (List.replicate back '_')) = .ok f := by
  rw [parse_eq_ok_iff, h.rawParts_joined]
  exact h.standsIn_fields

/-- A frame with both limits of the integers and a negative trailing field. -/
def extremes : RawFrame where
  version := "e23"
  sensor := "ae5058"
  levelMm := -9223372036854775808
  batteryMv := 9223372036854775807
  amp := -1
  temp := 0
  readNo := 73044
  lastSent := 72976
  rest := [1, -2]

theorem parse_joined_extremes :
    RawFrame.parse ("__e23_ae5058_-9223372036854775808_9223372036854775807" ++
      "_-1_0_73044_72976_1_-2_") = .ok extremes := by
  have hprintable : extremes.Printable :=
    ⟨by decide, by decide, by decide, by decide, by decide⟩
  have hparse := parse_joined extremes hprintable 2 1
  have htext : String.ofList (List.replicate 2 '_') ++ extremes.joined ++
      String.ofList (List.replicate 1 '_') =
      "__e23_ae5058_-9223372036854775808_9223372036854775807" ++
        "_-1_0_73044_72976_1_-2_" := by decide +kernel
  rwa [htext] at hparse

end RawFrame

end Aquilo
