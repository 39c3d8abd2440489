/-
String operations of the source language's standard library, on character
lists where a proof has to look inside.
-/
import Aquilo.DecimalText
import Aquilo.ExactFloat
import Aquilo.Utf8

namespace RustStr

open ExactFloat

/-- The Unicode `White_Space` property. -/
def isWhitespace (c : Char) : Bool :=
  let n := c.toNat
  decide ((0x09 ≤ n ∧ n ≤ 0x0D) ∨ n = 0x20 ∨ n = 0x85 ∨ n = 0xA0 ∨ n = 0x1680 ∨
    (0x2000 ≤ n ∧ n ≤ 0x200A) ∨ n = 0x2028 ∨ n = 0x2029 ∨ n = 0x202F ∨
    n = 0x205F ∨ n = 0x3000)

/-- Length in bytes. -/
def len (s : String) : Nat := (Utf8.encode s).length

/-- `str::trim`. -/
def trim (s : String) : String :=
  let front := s.toList.dropWhile isWhitespace
  String.ofList (front.reverse.dropWhile isWhitespace).reverse

/-- `str::split_whitespace`. -/
def splitWhitespace (s : String) : List String :=
  ((s.toList.splitOnP isWhitespace).filter (· ≠ [])).map String.ofList

def contains (s : String) (c : Char) : Bool := decide (c ∈ s.toList)

def startsWith (s pre : String) : Bool := pre.toList.isPrefixOf s.toList

def endsWith (s suffix : String) : Bool := suffix.toList.isSuffixOf s.toList

/-- `str::strip_prefix`. -/
def stripPrefix (s pre : String) : Option String :=
  if startsWith s pre then some (String.ofList (s.toList.drop pre.toList.length))
  else none

/-- The value of a nonempty run of decimal digits. -/
def digitsValue (digits : List Char) : Option ℕ :=
  if digits ≠ [] ∧ digits.all Char.isDigit then
    some (Nat.ofDigitChars 10 digits 0)
  else none

/-- `str::parse::<i64>`: an optional sign, then digits, within range. -/
def parseI64 (s : String) : Option ℤ :=
  let value : Option ℤ :=
    match s.toList with
    | '-' :: digits => (digitsValue digits).map fun n => -(n : ℤ)
    | '+' :: digits => (digitsValue digits).map fun n => (n : ℤ)
    | digits => (digitsValue digits).map fun n => (n : ℤ)
  value.filter fun n => decide (InI64 n)

theorem parseI64_empty : parseI64 "" = none := by decide

theorem digitsValue_digits (n : ℕ) :
    digitsValue (DecimalText.digits n) = some n := by
  have hall : (DecimalText.digits n).all Char.isDigit = true :=
    List.all_eq_true.mpr (DecimalText.digits_isDigit n)
  rw [digitsValue, if_pos ⟨DecimalText.digits_ne_nil n, hall⟩,
    DecimalText.digits, Nat.ofDigitChars_ten_toDigits]

/-- `i64::to_string`. -/
def displayI64 (n : ℤ) : String := String.ofList (DecimalText.intText n)

/-- An integer in range is parsed back from its text. -/
theorem parseI64_displayI64 {n : ℤ} (h : InI64 n) :
    parseI64 (displayI64 n) = some n := by
  have hvalue := digitsValue_digits n.natAbs
  have hin : (some n).filter (fun n => decide (InI64 n)) = some n := by
    simp [h]
  rw [parseI64, displayI64, String.toList_ofList]
  by_cases hneg : n < 0
  · have habs : -(n.natAbs : ℤ) = n := by omega
    simp only [DecimalText.intText, hneg, if_true, hvalue]
    change (some (-(n.natAbs : ℤ))).filter _ = some n
    rw [habs, hin]
  · have habs : (n.natAbs : ℤ) = n := by omega
    obtain ⟨c, r, heq, hc⟩ := DecimalText.digits_eq_cons n.natAbs
    rw [DecimalText.intText, if_neg hneg]
    rw [heq] at hvalue ⊢
    split
    · rename_i hcons
      exact absurd (List.cons.inj hcons).1 (DecimalText.isDigit_ne hc (by decide))
    · rename_i hcons
      exact absurd (List.cons.inj hcons).1 (DecimalText.isDigit_ne hc (by decide))
    · simp only [hvalue]
      change (some (n.natAbs : ℤ)).filter _ = some n
      rw [habs, hin]

/-- The text of an integer has no character that numbers are not made of. -/
theorem notMem_displayI64 {c : Char} (hc : c.isDigit = false) (hminus : c ≠ '-')
    (n : ℤ) : c ∉ (displayI64 n).toList := by
  rw [displayI64, String.toList_ofList, DecimalText.intText]
  have hdigits : c ∉ DecimalText.digits n.natAbs := by
    intro hmem
    rw [DecimalText.digits_isDigit n.natAbs c hmem] at hc
    cases hc
  split
  · exact fun hmem => (List.mem_cons.mp hmem).elim hminus hdigits
  · exact hdigits

example : parseI64 "-3770" = some (-3770) := by decide
example : parseI64 "9223372036854775808" = none := by decide
example : splitWhitespace "1.7.1.9_sh_en D8:BC" = ["1.7.1.9_sh_en", "D8:BC"] := by
  decide

end RustStr
