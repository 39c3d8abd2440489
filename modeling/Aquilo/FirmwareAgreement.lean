/-
The two readings of a `/log` text: on which texts the server and the onboarding
proxy find the same version.
-/
import Aquilo.Firmware
import Aquilo.Separated

namespace Aquilo

open RustStr

theorem trim_eq_strip (text : String) :
    trim text = String.ofList (Separated.strip isWhitespace text.toList) := rfl

theorem splitWhitespace_eq_pieces (text : String) :
    splitWhitespace text =
      (Separated.pieces isWhitespace text.toList).map String.ofList := rfl

/-- The trimmed text has no whitespace inside. -/
def SingleToken (text : String) : Prop :=
  ∀ c ∈ (trim text).toList, isWhitespace c = false

instance (text : String) : Decidable (SingleToken text) :=
  inferInstanceAs (Decidable (∀ _ ∈ _, _))

theorem splitWhitespace_of_empty {text : String} (h : trim text = "") :
    splitWhitespace text = [] := by
  have hnil : Separated.strip isWhitespace text.toList = [] :=
    String.ofList_eq_empty_iff.mp h
  rw [splitWhitespace_eq_pieces, ← Separated.pieces_strip, hnil]
  rfl

theorem splitWhitespace_of_singleToken {text : String} (h : SingleToken text)
    (hne : trim text ≠ "") : splitWhitespace text = [trim text] := by
  rw [SingleToken, trim_eq_strip, String.toList_ofList] at h
  have hnil : Separated.strip isWhitespace text.toList ≠ [] := fun hnil =>
    hne (String.ofList_eq_empty_iff.mpr hnil)
  rw [splitWhitespace_eq_pieces, ← Separated.pieces_strip,
    Separated.pieces_of_not_sep hnil h]
  rfl

/-- With whitespace inside, the whole text is no token of itself. -/
theorem trim_notMem_splitWhitespace {text : String} (h : ¬ SingleToken text) :
    trim text ∉ splitWhitespace text := by
  intro hmem
  rw [splitWhitespace_eq_pieces] at hmem
  obtain ⟨cs, hcs, heq⟩ := List.mem_map.mp hmem
  apply h
  rw [SingleToken, ← heq, String.toList_ofList]
  exact Separated.not_sep_of_mem_pieces hcs

/-- What the server makes of a `/log` text. -/
def wholeVersion (text : String) : Option String :=
  if looksLikeVersion (trim text) then some (trim text) else none

/-- What the onboarding proxy makes of it. -/
def firstVersion (text : String) : Option String :=
  (splitWhitespace text).find? versionToken

/-- The only token of a text has a colon exactly when it has a brace or a comma;
of several tokens none looks like a version, nor does the whole. -/
def ReadsAlike (text : String) : Prop :=
  if SingleToken text then
    contains (trim text) '.' = true → len (trim text) < 64 →
      (contains (trim text) ':' = true ↔
        contains (trim text) '{' = true ∨ contains (trim text) ',' = true)
  else
    looksLikeVersion (trim text) = false ∧
      ∀ tok ∈ splitWhitespace text, versionToken tok = false

instance (text : String) : Decidable (ReadsAlike text) :=
  inferInstanceAs (Decidable (ite _ _ _))

/-- Of a text with several tokens each reading finds something else or
nothing. -/
theorem wholeVersion_eq_firstVersion_iff_none {text : String}
    (h : ¬ SingleToken text) :
    wholeVersion text = firstVersion text ↔
      looksLikeVersion (trim text) = false ∧
        ∀ tok ∈ splitWhitespace text, versionToken tok = false := by
  have hfirst : firstVersion text = none ↔
      ∀ tok ∈ splitWhitespace text, versionToken tok = false := by
    simp only [firstVersion, List.find?_eq_none, Bool.not_eq_true]
  rw [← hfirst, wholeVersion]
  cases hlooks : looksLikeVersion (trim text) with
  | false => simp [eq_comm]
  | true =>
      refine iff_of_false ?_ (by simp)
      intro heq
      exact trim_notMem_splitWhitespace h (List.mem_of_find?_eq_some heq.symm)

theorem versionToken_eq_looksLikeVersion_iff {tok : String}
    (hspace : ∀ c ∈ tok.toList, isWhitespace c = false) (hne : tok ≠ "") :
    looksLikeVersion tok = versionToken tok ↔
      (contains tok '.' = true → len tok < 64 →
        (contains tok ':' = true ↔
          contains tok '{' = true ∨ contains tok ',' = true)) := by
  have hblank : contains tok ' ' = false := by
    apply decide_eq_false
    intro hmem
    have := hspace ' ' hmem
    cases this
  simp only [looksLikeVersion, versionToken, hblank, Bool.false_or]
  cases contains tok '.' <;> cases contains tok ':' <;>
    cases contains tok '{' <;> cases contains tok ',' <;>
    by_cases hlen : len tok < 64 <;> simp [hlen, hne]

theorem wholeVersion_eq_firstVersion_iff (text : String) :
    wholeVersion text = firstVersion text ↔ ReadsAlike text := by
  by_cases htoken : SingleToken text
  · rw [ReadsAlike, if_pos htoken]
    by_cases hempty : trim text = ""
    · rw [firstVersion, splitWhitespace_of_empty hempty, wholeVersion, hempty]
      exact iff_of_true rfl fun hdot => absurd hdot (by decide)
    · rw [← versionToken_eq_looksLikeVersion_iff htoken hempty, firstVersion,
        splitWhitespace_of_singleToken htoken hempty, wholeVersion]
      cases looksLikeVersion (trim text) <;>
        cases htok : versionToken (trim text) <;> simp [htok]
  · rw [ReadsAlike, if_neg htoken]
    exact wholeVersion_eq_firstVersion_iff_none htoken

/-- The two readings of a payload agree exactly when a version stands under a
key, or its text is read alike. -/
theorem parseFirmware_eq_firmwareFromLog_iff (codec : Codec)
    (payload : List UInt8) :
    parseFirmware codec payload = firmwareFromLog codec payload ↔
      (jsonVersion codec payload).isSome = true ∨
        ∀ text, Utf8.fromUtf8 payload = some text → ReadsAlike text := by
  have hserve : parseFirmware codec payload = (jsonVersion codec payload).or
      ((Utf8.fromUtf8 payload).bind wholeVersion) := rfl
  have honboard : firmwareFromLog codec payload =
      (jsonVersion codec payload).or
        ((Utf8.fromUtf8 payload).bind firstVersion) := rfl
  rw [hserve, honboard]
  cases jsonVersion codec payload with
  | some v => simp
  | none =>
      cases Utf8.fromUtf8 payload with
      | none => simp
      | some text => simp [wholeVersion_eq_firstVersion_iff]

/-- The version and the address the device announces: the proxy finds the
version, the server finds nothing. -/
theorem versionAndMac_disagree :
    let payload := Utf8.encode "1.7.1.9_sh_en D8:BC:38:AE:83:FC"
    parseFirmware Sample.codec payload = none ∧
      firmwareFromLog Sample.codec payload = some "1.7.1.9_sh_en" ∧
      parseFirmware Sample.codec payload ≠
        firmwareFromLog Sample.codec payload := by
  decide +kernel

end Aquilo
