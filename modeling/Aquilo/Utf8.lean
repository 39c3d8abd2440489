/-
UTF-8 over byte lists: encoding, strict decoding, and the lossy decoding that
replaces each maximal ill-formed piece by one replacement character.
-/
import Mathlib

namespace Utf8

/-- The bytes of a string. -/
def encode (s : String) : List UInt8 :=
  s.toList.flatMap String.utf8EncodeChar

/-- One decoding step after the leading byte: a character or an ill-formed
piece, each with the number of further bytes it takes. -/
inductive Step where
  | char (c : Char) (extra : Nat)
  | bad (extra : Nat)
deriving DecidableEq

def isTail (b : UInt8) : Bool :=
  decide (0x80 ≤ b.toNat ∧ b.toNat ≤ 0xBF)

/-- The second bytes that may follow a three-byte or four-byte leader. -/
def isSecond (leader : Nat) (b : UInt8) : Bool :=
  let lo := if leader = 0xE0 then 0xA0 else if leader = 0xF0 then 0x90 else 0x80
  let hi := if leader = 0xED then 0x9F else if leader = 0xF4 then 0x8F else 0xBF
  decide (lo ≤ b.toNat ∧ b.toNat ≤ hi)

def decodeStep (b : UInt8) (rest : List UInt8) : Step :=
  let n := b.toNat
  if n ≤ 0x7F then .char (Char.ofNat n) 0
  else if 0xC2 ≤ n ∧ n ≤ 0xDF then
    match rest with
    | b₁ :: _ =>
        if isTail b₁ then
          .char (Char.ofNat ((n - 0xC0) * 64 + (b₁.toNat - 0x80))) 1
        else .bad 0
    | [] => .bad 0
  else if 0xE0 ≤ n ∧ n ≤ 0xEF then
    match rest with
    | b₁ :: b₂ :: _ =>
        if isSecond n b₁ then
          if isTail b₂ then
            .char (Char.ofNat ((n - 0xE0) * 4096 + (b₁.toNat - 0x80) * 64 +
              (b₂.toNat - 0x80))) 2
          else .bad 1
        else .bad 0
    | [b₁] => if isSecond n b₁ then .bad 1 else .bad 0
    | [] => .bad 0
  else if 0xF0 ≤ n ∧ n ≤ 0xF4 then
    match rest with
    | b₁ :: b₂ :: b₃ :: _ =>
        if isSecond n b₁ then
          if isTail b₂ then
            if isTail b₃ then
              .char (Char.ofNat ((n - 0xF0) * 262144 +
                (b₁.toNat - 0x80) * 4096 + (b₂.toNat - 0x80) * 64 +
                (b₃.toNat - 0x80))) 3
            else .bad 2
          else .bad 1
        else .bad 0
    | [b₁, b₂] =>
        if isSecond n b₁ then if isTail b₂ then .bad 2 else .bad 1 else .bad 0
    | [b₁] => if isSecond n b₁ then .bad 1 else .bad 0
    | [] => .bad 0
  else .bad 0

/-- The character that stands in for an ill-formed piece. -/
def replacement : Char := '\uFFFD'

/-- Lossy decoding, never failing. -/
def decodeLossy : List UInt8 → List Char
  | [] => []
  | b :: rest =>
      match decodeStep b rest with
      | .char c extra => c :: decodeLossy (rest.drop extra)
      | .bad extra => replacement :: decodeLossy (rest.drop extra)
termination_by bytes => bytes.length
decreasing_by
  all_goals simp only [List.length_drop, List.length_cons]; omega

/-- Strict decoding, failing at the first ill-formed piece. -/
def decodeStrict : List UInt8 → Option (List Char)
  | [] => some []
  | b :: rest =>
      match decodeStep b rest with
      | .char c extra => (decodeStrict (rest.drop extra)).map (c :: ·)
      | .bad _ => none
termination_by bytes => bytes.length
decreasing_by
  simp only [List.length_drop, List.length_cons]; omega

/-- `String::from_utf8_lossy`. -/
def fromUtf8Lossy (bytes : List UInt8) : String :=
  String.ofList (decodeLossy bytes)

/-- `std::str::from_utf8`. -/
def fromUtf8 (bytes : List UInt8) : Option String :=
  (decodeStrict bytes).map String.ofList

theorem ofNat_eq_of_val (c : Char) {v : Nat} (h : v = c.val.toNat) :
    Char.ofNat v = c := by
  subst h
  exact Char.ofNat_toNat c

/-- What makes bytes the encoding of a character: whatever follows they decode
to it, and cut short they are one ill-formed piece. -/
structure Encodes (c : Char) (b : UInt8) (rest : List UInt8) : Prop where
  whole : ∀ more, decodeStep b (rest ++ more) = .char c rest.length
  cut : ∀ short, short <+: rest → short ≠ rest →
    decodeStep b short = .bad short.length

theorem encodes_one {c : Char} {v : Nat} (hv : c.val.toNat = v)
    (hle : v ≤ 0x7F) : Encodes c (UInt8.ofNat v) [] where
  whole := by
    intro more
    have hb : v % 256 = v := Nat.mod_eq_of_lt (by omega)
    simp [decodeStep, hb, hle, ofNat_eq_of_val c hv.symm]
  cut := by
    intro short hshort hne
    exact absurd (List.prefix_nil.mp hshort) hne

theorem encodes_two {c : Char} {v : Nat} (hv : c.val.toNat = v)
    (hlo : 0x7F < v) (hhi : v ≤ 0x7FF) :
    Encodes c (UInt8.ofNat (v / 64 % 0x20 + 0xC0))
      [UInt8.ofNat (v % 0x40 + 0x80)] := by
  have hb : (v / 64 % 32 + 192) % 256 = v / 64 + 192 := by omega
  have hone : ¬ v / 64 + 192 ≤ 127 := by omega
  have htwo : 194 ≤ v / 64 + 192 ∧ v / 64 + 192 ≤ 223 := by omega
  constructor
  · intro more
    have hb₁ : (v % 64 + 128) % 256 = v % 64 + 128 := by omega
    have htail : v % 64 + 128 ≤ 191 := by omega
    have hc : Char.ofNat (v / 64 * 64 + v % 64) = c :=
      ofNat_eq_of_val c (by omega)
    simp [decodeStep, isTail, hb, hb₁, hone, htwo, htail, hc]
  · intro short hshort hne
    rcases List.prefix_cons_iff.mp hshort with rfl | ⟨tail, rfl, htail⟩
    · simp [decodeStep, hb, hone, htwo]
    · exact absurd (by rw [List.prefix_nil.mp htail]) hne

theorem encodes_three {c : Char} {v : Nat} (hv : c.val.toNat = v)
    (hlo : 0x7FF < v) (hhi : v ≤ 0xFFFF)
    (hvalid : v < 0xD800 ∨ 0xDFFF < v) :
    Encodes c (UInt8.ofNat (v / 4096 % 0x10 + 0xE0))
      [UInt8.ofNat (v / 64 % 0x40 + 0x80), UInt8.ofNat (v % 0x40 + 0x80)] := by
  have hb : (v / 4096 % 16 + 224) % 256 = v / 4096 + 224 := by omega
  have hb₁ : (v / 64 % 64 + 128) % 256 = v / 64 % 64 + 128 := by omega
  have hone : ¬ v / 4096 + 224 ≤ 127 := by omega
  have hthree : 224 ≤ v / 4096 + 224 ∧ v / 4096 + 224 ≤ 239 := by omega
  have hsecond : isSecond (v / 4096 + 224)
      (UInt8.ofNat (v / 64 % 64 + 128)) = true := by
    simp only [isSecond, UInt8.toNat_ofNat', decide_eq_true_eq]
    norm_num only [hb₁]
    split_ifs <;> omega
  constructor
  · intro more
    have hb₂ : (v % 64 + 128) % 256 = v % 64 + 128 := by omega
    have htail : v % 64 + 128 ≤ 191 := by omega
    have hc : Char.ofNat (v / 4096 * 4096 + v / 64 % 64 * 64 + v % 64) = c :=
      ofNat_eq_of_val c (by omega)
    simp [-UInt8.ofNat_add, decodeStep, isTail, hb, hb₁, hb₂, hone, hthree, hsecond,
      htail, hc]
  · intro short hshort hne
    rcases List.prefix_cons_iff.mp hshort with rfl | ⟨tail, rfl, htail⟩
    · simp [-UInt8.ofNat_add, decodeStep, hb, hone, hthree]
    · rcases List.prefix_cons_iff.mp htail with rfl | ⟨tail₂, rfl, htail₂⟩
      · simp [-UInt8.ofNat_add, decodeStep, hb, hone, hthree, hsecond]
      · exact absurd (by rw [List.prefix_nil.mp htail₂]) hne

theorem encodes_four {c : Char} {v : Nat} (hv : c.val.toNat = v)
    (hlo : 0xFFFF < v) (hhi : v < 0x110000) :
    Encodes c (UInt8.ofNat (v / 262144 % 0x08 + 0xF0))
      [UInt8.ofNat (v / 4096 % 0x40 + 0x80), UInt8.ofNat (v / 64 % 0x40 + 0x80),
        UInt8.ofNat (v % 0x40 + 0x80)] := by
  have hb : (v / 262144 % 8 + 240) % 256 = v / 262144 + 240 := by omega
  have hb₁ : (v / 4096 % 64 + 128) % 256 = v / 4096 % 64 + 128 := by omega
  have hb₂ : (v / 64 % 64 + 128) % 256 = v / 64 % 64 + 128 := by omega
  have hone : ¬ v / 262144 + 240 ≤ 127 := by omega
  have hfour : 240 ≤ v / 262144 + 240 ∧ v / 262144 + 240 ≤ 244 := by omega
  have hsecond : isSecond (v / 262144 + 240)
      (UInt8.ofNat (v / 4096 % 64 + 128)) = true := by
    simp only [isSecond, UInt8.toNat_ofNat', decide_eq_true_eq]
    norm_num only [hb₁]
    split_ifs <;> omega
  have htail₂ : v / 64 % 64 + 128 ≤ 191 := by omega
  constructor
  · intro more
    have hb₃ : (v % 64 + 128) % 256 = v % 64 + 128 := by omega
    have htail₃ : v % 64 + 128 ≤ 191 := by omega
    have hc : Char.ofNat (v / 262144 * 262144 + v / 4096 % 64 * 4096 +
        v / 64 % 64 * 64 + v % 64) = c := ofNat_eq_of_val c (by omega)
    simp [-UInt8.ofNat_add, decodeStep, isTail, hb, hb₁, hb₂, hb₃, hone, hfour,
      hsecond, htail₂, htail₃, hc]
  · intro short hshort hne
    rcases List.prefix_cons_iff.mp hshort with rfl | ⟨tail, rfl, hshort₁⟩
    · simp [-UInt8.ofNat_add, decodeStep, hb, hone, hfour]
    · rcases List.prefix_cons_iff.mp hshort₁ with rfl | ⟨tail₂, rfl, hshort₂⟩
      · simp [-UInt8.ofNat_add, decodeStep, hb, hone, hfour, hsecond]
      · rcases List.prefix_cons_iff.mp hshort₂ with
          rfl | ⟨tail₃, rfl, hshort₃⟩
        · simp [-UInt8.ofNat_add, decodeStep, isTail, hb, hb₂, hone, hfour,
            hsecond, htail₂]
        · exact absurd (by rw [List.prefix_nil.mp hshort₃]) hne

/-- Every encoded character has a leading byte and continuation bytes that
encode it. -/
theorem utf8EncodeChar_encodes (c : Char) :
    ∃ b rest, String.utf8EncodeChar c = b :: rest ∧ Encodes c b rest := by
  have hvalid : c.val.toNat < 0xD800 ∨
      (0xDFFF < c.val.toNat ∧ c.val.toNat < 0x110000) := c.valid
  generalize hv : c.val.toNat = v at hvalid
  by_cases hone : v ≤ 0x7F
  · exact ⟨_, _, by simp [String.utf8EncodeChar, hv, hone],
      encodes_one hv hone⟩
  · by_cases htwo : v ≤ 0x7FF
    · exact ⟨_, _, by simp [String.utf8EncodeChar, hv, hone, htwo],
        encodes_two hv (by omega) htwo⟩
    · by_cases hthree : v ≤ 0xFFFF
      · exact ⟨_, _, by simp [String.utf8EncodeChar, hv, hone, htwo, hthree],
          encodes_three hv (by omega) hthree (by omega)⟩
      · exact ⟨_, _, by simp [String.utf8EncodeChar, hv, hone, htwo, hthree],
          encodes_four hv (by omega) (by omega)⟩

theorem decodeLossy_encodeChar_append (c : Char) (more : List UInt8) :
    decodeLossy (String.utf8EncodeChar c ++ more) = c :: decodeLossy more := by
  obtain ⟨b, rest, heq, henc⟩ := utf8EncodeChar_encodes c
  rw [heq, List.cons_append, decodeLossy, henc.whole more]
  simp

theorem decodeLossy_flatMap_encodeChar (cs : List Char) :
    decodeLossy (cs.flatMap String.utf8EncodeChar) = cs := by
  induction cs with
  | nil => simp [decodeLossy]
  | cons c cs ih =>
      rw [List.flatMap_cons, decodeLossy_encodeChar_append, ih]

/-- Lossy decoding is the identity on encoded strings. -/
@[simp] theorem fromUtf8Lossy_encode (s : String) :
    fromUtf8Lossy (encode s) = s := by
  rw [fromUtf8Lossy, encode, decodeLossy_flatMap_encodeChar,
    String.ofList_toList]

theorem length_encode_le_of_isInfix {part whole : List Char}
    (h : part <:+: whole) :
    (encode (String.ofList part)).length ≤
      (encode (String.ofList whole)).length := by
  obtain ⟨front, back, rfl⟩ := h
  simp only [encode, String.toList_ofList, List.flatMap_append,
    List.length_append]
  omega

theorem encode_injective : Function.Injective encode := by
  intro s t h
  rw [← fromUtf8Lossy_encode s, h, fromUtf8Lossy_encode]

theorem length_replacement : (String.utf8EncodeChar replacement).length = 3 := by
  decide

/-- A prefix of an encoded string decodes, lossily, to at most two bytes more
than it had: only its last character can be cut, into one replacement. -/
theorem length_encode_decodeLossy_take (cs : List Char) (n : Nat) :
    ((decodeLossy ((cs.flatMap String.utf8EncodeChar).take n)).flatMap
      String.utf8EncodeChar).length ≤ n + 2 := by
  induction cs generalizing n with
  | nil => simp [decodeLossy]
  | cons c cs ih =>
      rw [List.flatMap_cons, List.take_append]
      by_cases hfits : (String.utf8EncodeChar c).length ≤ n
      · rw [List.take_of_length_le hfits, decodeLossy_encodeChar_append,
          List.flatMap_cons, List.length_append]
        have := ih (n - (String.utf8EncodeChar c).length)
        omega
      · obtain ⟨b, rest, heq, henc⟩ := utf8EncodeChar_encodes c
        rw [Nat.sub_eq_zero_of_le (by omega), List.take_zero, List.append_nil]
        rw [heq] at hfits ⊢
        cases n with
        | zero => simp [decodeLossy]
        | succ n =>
            have hcut := henc.cut (rest.take n) (List.take_prefix n rest) (by
              intro hall
              have hlen := congrArg List.length hall
              simp only [List.length_cons, List.length_take] at hfits hlen
              omega)
            have hrest : List.drop (rest.take n).length (rest.take n) = [] :=
              List.drop_length
            rw [List.take_succ_cons, decodeLossy, hcut]
            simp only [hrest, decodeLossy, List.flatMap_cons, List.flatMap_nil,
              List.append_nil, length_replacement]
            omega

end Utf8
