/-
Decimal text of exactly read numbers.  Integers are written as they are
displayed, floats as the debug format writes them (plain between 1e-4 and 1e16,
else with an exponent); the reader takes both back.
-/
import Mathlib

namespace DecimalText

def digits (n : ℕ) : List Char := Nat.toDigits 10 n

/-- An integer as `Display` writes it. -/
def intText (n : ℤ) : List Char :=
  if n < 0 then '-' :: digits n.natAbs else digits n.natAbs

/-- A number with finitely many decimals. -/
def IsDecimal (q : ℚ) : Prop := ∃ (m : ℤ) (k : ℕ), q = m / 10 ^ k

/-- The least number of decimals from `k` on that clears the denominator. -/
def scaleFrom (den : ℕ) : (fuel k : ℕ) → ℕ
  | 0, k => k
  | fuel + 1, k => if den ∣ 10 ^ k then k else scaleFrom den fuel (k + 1)

/-- How many decimals a number has. -/
def scale (q : ℚ) : ℕ := scaleFrom q.den q.den 0

/-- The absolute value as a whole number of units of the last decimal. -/
def units (q : ℚ) : ℕ := q.num.natAbs * (10 ^ scale q / q.den)

/-- A run of exactly `k` digits. -/
def padded (k n : ℕ) : List Char :=
  List.replicate (k - (digits n).length) '0' ++ digits n

/-- Plain notation, with at least one decimal. -/
def plainText (n k : ℕ) : List Char :=
  digits (n / 10 ^ k) ++ '.' ::
    (if k = 0 then ['0'] else padded k (n % 10 ^ k))

/-- Trailing zeros taken off, with their number. -/
def stripZeros : (fuel n z : ℕ) → ℕ × ℕ
  | 0, n, z => (n, z)
  | fuel + 1, n, z =>
      if n % 10 = 0 then stripZeros fuel (n / 10) (z + 1) else (n, z)

/-- Scientific notation of `n` units of `10 ^ -k`. -/
def exponentText (n k : ℕ) : List Char :=
  let stripped := stripZeros n n 0
  let ds := digits stripped.1
  let e : ℤ := (ds.length : ℤ) - 1 + stripped.2 - k
  ds.take 1 ++ (if ds.length = 1 then [] else '.' :: ds.drop 1) ++
    'e' :: intText e

/-- A float as `{:?}` writes it. -/
def floatText (q : ℚ) : List Char :=
  let n := units q
  let k := scale q
  (if q < 0 then ['-'] else []) ++
    (if q ≠ 0 ∧ (|q| < 1 / 10000 ∨ 10000000000000000 ≤ |q|) then
      exponentText n k
    else plainText n k)

/-- A number as it is read: a point or an exponent makes it a float. -/
inductive Number where
  | int (n : ℤ)
  | float (q : ℚ)
deriving DecidableEq, Repr

/-- The value and the number of digits, underscores between digits allowed. -/
def readDigits (s : List Char) : Option (ℕ × ℕ) :=
  let groups := s.splitOn '_'
  if ∀ g ∈ groups, g ≠ [] ∧ ∀ c ∈ g, c.isDigit = true then
    some (Nat.ofDigitChars 10 groups.flatten 0, groups.flatten.length)
  else none

/-- A whole part has no leading zero. -/
def readWhole (s : List Char) : Option ℕ :=
  if s.head? = some '0' ∧ s ≠ ['0'] then none else (readDigits s).map Prod.fst

/-- An optional sign: the factor it stands for, and what follows. -/
def readSign : List Char → ℤ × List Char
  | '-' :: s => (-1, s)
  | '+' :: s => (1, s)
  | s => (1, s)

/-- What stands before the first character of a kind, and after it. -/
def cut (p : Char → Bool) (s : List Char) : List Char × Option (List Char) :=
  (s.takeWhile fun c => !p c, (s.dropWhile fun c => !p c).tail?)

/-- The decimals after a point, as a fraction. -/
def readFraction : Option (List Char) → Option ℚ
  | none => some 0
  | some s => (readDigits s).map fun (n, k) => (n : ℚ) / 10 ^ k

/-- The power of ten an exponent stands for. -/
def readExponent : Option (List Char) → Option ℚ
  | none => some 1
  | some s =>
      let (sign, s) := readSign s
      (readDigits s).map fun (n, _) => (10 : ℚ) ^ (sign * n)

def isExponent (c : Char) : Bool := c = 'e' || c = 'E'

def isPoint (c : Char) : Bool := c = '.'

def readNumber (s : List Char) : Option Number := do
  let (sign, s) := readSign s
  let (mantissa, exponent) := cut isExponent s
  let (whole, fraction) := cut isPoint mantissa
  let n ← readWhole whole
  if fraction = none ∧ exponent = none then
    return .int (sign * n)
  else
    let f ← readFraction fraction
    let e ← readExponent exponent
    return .float (sign * ((n + f) * e))

example : String.ofList (floatText (751 / 5)) = "150.2" := by decide +kernel
example : String.ofList (floatText 120000000000000000) = "1.2e17" := by
  decide +kernel

theorem digits_isDigit (n : ℕ) : ∀ c ∈ digits n, c.isDigit = true :=
  fun _ hc => Nat.isDigit_of_mem_toDigits (by decide) (by decide) hc

theorem digits_ne_nil (n : ℕ) : digits n ≠ [] := Nat.toDigits_ne_nil

/-- Only zero starts with a zero. -/
theorem digits_head_ne (n : ℕ) (hn : n ≠ 0) : (digits n).head? ≠ some '0' := by
  induction n using Nat.strong_induction_on with
  | h n ih =>
      rcases Nat.lt_or_ge n 10 with hlt | hge
      · rw [digits, Nat.toDigits_of_lt_base hlt]
        interval_cases n <;> first | exact absurd rfl hn | decide
      · rw [digits, Nat.toDigits_of_base_le (by decide) hge,
          List.head?_append_of_ne_nil _ Nat.toDigits_ne_nil]
        exact ih (n / 10) (by omega) (by omega)

theorem readDigits_of_isDigit {s : List Char} (hne : s ≠ [])
    (h : ∀ c ∈ s, c.isDigit = true) :
    readDigits s = some (Nat.ofDigitChars 10 s 0, s.length) := by
  have hsep : '_' ∉ s := fun hmem => absurd (h _ hmem) (by decide)
  rw [readDigits, List.splitOn_eq_singleton hsep]
  simp only [List.mem_singleton, forall_eq, List.flatten_cons,
    List.flatten_nil, List.append_nil]
  exact if_pos ⟨hne, h⟩

theorem readDigits_digits (n : ℕ) :
    readDigits (digits n) = some (n, (digits n).length) := by
  rw [readDigits_of_isDigit (digits_ne_nil n) (digits_isDigit n), digits,
    Nat.ofDigitChars_ten_toDigits]

theorem readWhole_digits (n : ℕ) : readWhole (digits n) = some n := by
  have hhead : ¬((digits n).head? = some '0' ∧ digits n ≠ ['0']) := by
    rintro ⟨hzero, hne⟩
    by_cases hn : n = 0
    · subst hn
      exact hne rfl
    · exact digits_head_ne n hn hzero
  rw [readWhole, if_neg hhead, readDigits_digits]
  rfl

theorem cut_of_forall {p : Char → Bool} {s : List Char}
    (h : ∀ c ∈ s, p c = false) : cut p s = (s, none) := by
  have hall : ∀ c ∈ s, (!p c) = true := by simpa using h
  rw [cut, List.takeWhile_eq_self_iff.mpr hall,
    List.dropWhile_eq_nil_iff.mpr hall]
  rfl

theorem cut_append {p : Char → Bool} {s : List Char} {c : Char}
    (h : ∀ c ∈ s, p c = false) (hc : p c = true) (rest : List Char) :
    cut p (s ++ c :: rest) = (s, some rest) := by
  have hall : ∀ c ∈ s, (!p c) = true := by simpa using h
  rw [cut, List.takeWhile_append_of_pos hall, List.dropWhile_append_of_pos hall]
  simp [hc]

/-- A digit is neither a sign, nor a point, nor an exponent mark. -/
theorem isDigit_ne {c d : Char} (hc : c.isDigit = true)
    (hd : d.isDigit = false) : c ≠ d := by
  rintro rfl
  rw [hc] at hd
  cases hd

theorem isExponent_of_isDigit {c : Char} (h : c.isDigit = true) :
    isExponent c = false := by
  simp [isExponent, isDigit_ne h (show 'e'.isDigit = false by decide),
    isDigit_ne h (show 'E'.isDigit = false by decide)]

theorem isPoint_of_isDigit {c : Char} (h : c.isDigit = true) :
    isPoint c = false := by
  simp [isPoint, isDigit_ne h (show '.'.isDigit = false by decide)]

theorem readSign_of_isDigit {c : Char} (h : c.isDigit = true) (s : List Char) :
    readSign (c :: s) = (1, c :: s) := by
  unfold readSign
  split
  · rename_i heq
    exact absurd (List.cons.inj heq).1 (isDigit_ne h (by decide))
  · rename_i heq
    exact absurd (List.cons.inj heq).1 (isDigit_ne h (by decide))
  · rfl

/-- A minus in front of a digit is read as one; without it the sign is
positive. -/
theorem readSign_signed (neg : Prop) [Decidable neg] {s : List Char}
    (hs : ∃ c r, s = c :: r ∧ c.isDigit = true) :
    readSign ((if neg then ['-'] else []) ++ s) =
      (if neg then -1 else 1, s) := by
  obtain ⟨c, r, rfl, hc⟩ := hs
  split
  · rfl
  · exact readSign_of_isDigit hc r

theorem digits_eq_cons (n : ℕ) :
    ∃ c r, digits n = c :: r ∧ c.isDigit = true := by
  obtain ⟨c, r, heq⟩ := List.exists_cons_of_ne_nil (digits_ne_nil n)
  exact ⟨c, r, heq, digits_isDigit n c (by rw [heq]; exact List.mem_cons_self)⟩

theorem intText_eq (n : ℤ) :
    intText n = (if n < 0 then ['-'] else []) ++ digits n.natAbs := by
  rw [intText]
  split <;> rfl

theorem sign_mul_natAbs (n : ℤ) :
    (if n < 0 then -1 else 1) * (n.natAbs : ℤ) = n := by
  split <;> omega

theorem readSign_intText (n : ℤ) :
    readSign (intText n) = (if n < 0 then -1 else 1, digits n.natAbs) := by
  rw [intText_eq, readSign_signed (n < 0) (digits_eq_cons _)]

theorem readNumber_intText (n : ℤ) :
    readNumber (intText n) = some (.int n) := by
  have hdigits := digits_isDigit n.natAbs
  rw [readNumber, readSign_intText]
  simp only [cut_of_forall fun c hc => isExponent_of_isDigit (hdigits c hc),
    cut_of_forall fun c hc => isPoint_of_isDigit (hdigits c hc),
    readWhole_digits, Option.bind_eq_bind, Option.bind_some, and_self,
    if_true, sign_mul_natAbs]
  rfl

theorem readExponent_intText (e : ℤ) :
    readExponent (some (intText e)) = some ((10 : ℚ) ^ e) := by
  rw [readExponent, readSign_intText]
  simp only [readDigits_digits, Option.map_some, sign_mul_natAbs]

/-- The text of optional decimals. -/
def fractionText (fraction : Option (List Char)) : List Char :=
  fraction.elim [] ('.' :: ·)

/-- A whole part with decimals, an exponent or both, after a sign. -/
theorem readNumber_float (neg : Prop) [Decidable neg] {whole : List Char}
    {n : ℕ} (hwhole : readWhole whole = some n) (hne : whole ≠ [])
    (hdigits : ∀ c ∈ whole, c.isDigit = true) {fraction : Option (List Char)}
    {f : ℚ} (hfraction : readFraction fraction = some f)
    (hdecimals : ∀ s ∈ fraction, ∀ c ∈ s, c.isDigit = true)
    {exponent : Option (List Char)} {e : ℚ}
    (hexponent : readExponent exponent = some e)
    (hfloat : ¬(fraction = none ∧ exponent = none)) :
    readNumber ((if neg then ['-'] else []) ++ (whole ++ fractionText fraction ++
        exponent.elim [] ('e' :: ·))) =
      some (.float ((if neg then -1 else 1) * ((n + f) * e))) := by
  obtain ⟨c, r, rfl⟩ := List.exists_cons_of_ne_nil hne
  have hhead : ∃ d t, c :: r ++ fractionText fraction ++
      exponent.elim [] ('e' :: ·) = d :: t ∧ d.isDigit = true :=
    ⟨c, _, rfl, hdigits c List.mem_cons_self⟩
  have hwhole' : ∀ d ∈ c :: r, isPoint d = false :=
    fun d hd => isPoint_of_isDigit (hdigits d hd)
  have hmantissa : ∀ d ∈ c :: r ++ fractionText fraction,
      isExponent d = false := by
    intro d hd
    rcases List.mem_append.mp hd with hd | hd
    · exact isExponent_of_isDigit (hdigits d hd)
    · cases fraction with
      | none => cases hd
      | some s =>
          rcases List.mem_cons.mp hd with rfl | hd
          · decide
          · exact isExponent_of_isDigit (hdecimals s rfl d hd)
  have hcutExponent : cut isExponent (c :: r ++ fractionText fraction ++
      exponent.elim [] ('e' :: ·)) = (c :: r ++ fractionText fraction, exponent) := by
    cases exponent with
    | none => rw [Option.elim_none, List.append_nil, cut_of_forall hmantissa]
    | some x => exact cut_append hmantissa rfl x
  have hcutPoint : cut isPoint (c :: r ++ fractionText fraction) =
      (c :: r, fraction) := by
    cases fraction with
    | none => rw [fractionText, Option.elim_none, List.append_nil, cut_of_forall hwhole']
    | some s => exact cut_append hwhole' rfl s
  rw [readNumber, readSign_signed neg hhead]
  simp only [hcutExponent, hcutPoint, hwhole, hfraction, hexponent,
    Option.bind_eq_bind, Option.bind_some, hfloat, if_false]
  split <;> simp

theorem length_digits_le {n k : ℕ} (hk : 0 < k) (h : n < 10 ^ k) :
    (digits n).length ≤ k :=
  (Nat.length_toDigits_le_iff (by decide) hk).mpr h

theorem padded_isDigit (k n : ℕ) : ∀ c ∈ padded k n, c.isDigit = true := by
  intro c hc
  rcases List.mem_append.mp hc with hc | hc
  · rw [List.eq_of_mem_replicate hc]
    decide
  · exact digits_isDigit n c hc

theorem readDigits_padded {k n : ℕ} (hk : 0 < k) (h : n < 10 ^ k) :
    readDigits (padded k n) = some (n, k) := by
  have hle := length_digits_le hk h
  have hne : padded k n ≠ [] := by
    simp [padded, digits_ne_nil]
  rw [readDigits_of_isDigit hne (padded_isDigit k n)]
  congr 2
  · rw [padded, Nat.ofDigitChars_append, Nat.ofDigitChars_replicate_zero,
      Nat.mul_zero, digits, Nat.ofDigitChars_ten_toDigits]
  · rw [padded, List.length_append, List.length_replicate]
    omega

/-- Plain notation is read back as so many units of the last decimal. -/
theorem readNumber_plainText (neg : Prop) [Decidable neg] (n k : ℕ) :
    readNumber ((if neg then ['-'] else []) ++ plainText n k) =
      some (.float ((if neg then -1 else 1) * ((n : ℚ) / 10 ^ k))) := by
  have hread : readFraction (some (if k = 0 then ['0'] else
      padded k (n % 10 ^ k))) = some (((n % 10 ^ k : ℕ) : ℚ) / 10 ^ k) := by
    rw [readFraction]
    split
    · rename_i hk
      subst hk
      rw [show readDigits ['0'] = some (0, 1) from readDigits_digits 0]
      simp [Nat.mod_one]
    · rename_i hk
      rw [readDigits_padded (Nat.pos_of_ne_zero hk)
        (Nat.mod_lt _ (by positivity))]
      rfl
  have hdecimals : ∀ c ∈ (if k = 0 then ['0'] else padded k (n % 10 ^ k)),
      c.isDigit = true := by
    intro c hc
    split at hc
    · rw [List.mem_singleton.mp hc]
      decide
    · exact padded_isDigit _ _ c hc
  have hvalue : ((n / 10 ^ k : ℕ) : ℚ) + ((n % 10 ^ k : ℕ) : ℚ) / 10 ^ k =
      n / 10 ^ k := by
    have hsplit : ((10 ^ k * (n / 10 ^ k) + n % 10 ^ k : ℕ) : ℚ) = n := by
      rw [Nat.div_add_mod]
    push_cast at hsplit
    field_simp
    linarith
  have h := readNumber_float neg (readWhole_digits (n / 10 ^ k))
    (digits_ne_nil _) (digits_isDigit _) hread (by simpa using hdecimals)
    (show readExponent none = some 1 from rfl) (by simp)
  rw [hvalue, mul_one] at h
  simpa [plainText, fractionText] using h

theorem stripZeros_spec {fuel n z m y : ℕ}
    (h : stripZeros fuel n z = (m, y)) : n * 10 ^ z = m * 10 ^ y := by
  induction fuel generalizing n z with
  | zero =>
      cases h
      rfl
  | succ fuel ih =>
      rw [stripZeros] at h
      split at h
      · rename_i hzero
        rw [← ih h, pow_succ, mul_comm (10 ^ z) 10, ← mul_assoc,
          Nat.div_mul_cancel (Nat.dvd_of_mod_eq_zero hzero)]
      · cases h
        rfl

/-- A number is its leading digit shifted past the others, plus these. -/
theorem leading_digit {m : ℕ} {c : Char} {r : List Char}
    (h : digits m = c :: r) :
    10 ^ r.length * (c.toNat - '0'.toNat) + Nat.ofDigitChars 10 r 0 = m := by
  have hvalue : Nat.ofDigitChars 10 (digits m) 0 = m :=
    Nat.ofDigitChars_ten_toDigits
  rw [h, Nat.ofDigitChars_cons, Nat.mul_zero, Nat.zero_add,
    Nat.ofDigitChars_eq_ofDigitChars_zero] at hvalue
  exact hvalue

theorem readWhole_singleton {c : Char} (hc : c.isDigit = true) :
    readWhole [c] = some (c.toNat - '0'.toNat) := by
  have hhead : ¬([c].head? = some '0' ∧ [c] ≠ ['0']) := by simp
  rw [readWhole, if_neg hhead, readDigits_of_isDigit (by simp) (by simpa using hc)]
  simp [Nat.ofDigitChars_cons]

theorem readFraction_digits {r : List Char} (hr : ∀ d ∈ r, d.isDigit = true) :
    readFraction (if r = [] then none else some r) =
      some ((Nat.ofDigitChars 10 r 0 : ℚ) / 10 ^ r.length) := by
  split
  · rename_i hnil
    subst hnil
    simp [readFraction]
  · rename_i hne
    rw [readFraction, readDigits_of_isDigit hne hr]
    rfl

/-- Scientific notation is read back likewise. -/
theorem readNumber_exponentText (neg : Prop) [Decidable neg] (n k : ℕ) :
    readNumber ((if neg then ['-'] else []) ++ exponentText n k) =
      some (.float ((if neg then -1 else 1) * ((n : ℚ) / 10 ^ k))) := by
  obtain ⟨⟨m, z⟩, hstrip⟩ : ∃ p, stripZeros n n 0 = p := ⟨_, rfl⟩
  obtain ⟨c, r, hds, hc⟩ := digits_eq_cons m
  have hr : ∀ d ∈ r, d.isDigit = true := fun d hd =>
    digits_isDigit m d (hds ▸ List.mem_cons_of_mem c hd)
  have h := readNumber_float neg (readWhole_singleton hc) (by simp)
    (by simpa using hc) (readFraction_digits hr)
    (by intro s hs; split at hs <;> simp_all)
    (readExponent_intText ((r.length : ℤ) + z - k)) (by simp)
  have hvalue : (((c.toNat - '0'.toNat : ℕ) : ℚ) +
      (Nat.ofDigitChars 10 r 0 : ℚ) / 10 ^ r.length) *
        10 ^ ((r.length : ℤ) + z - k) = n / 10 ^ k := by
    have hm : (10 : ℚ) ^ r.length * (c.toNat - '0'.toNat : ℕ) +
        Nat.ofDigitChars 10 r 0 = m := by exact_mod_cast leading_digit hds
    have hunits : (n : ℚ) = m * 10 ^ z := by
      have hstripped := stripZeros_spec hstrip
      rw [pow_zero, mul_one] at hstripped
      exact_mod_cast hstripped
    rw [zpow_sub₀ (by norm_num), zpow_add₀ (by norm_num), zpow_natCast,
      zpow_natCast, zpow_natCast, hunits, ← hm]
    field_simp
  have htext : exponentText n k =
      [c] ++ fractionText (if r = [] then none else some r) ++
        (some (intText ((r.length : ℤ) + z - k))).elim [] ('e' :: ·) := by
    simp only [exponentText, hstrip, hds, List.length_cons]
    push_cast
    rw [add_sub_cancel_right]
    cases r with
    | nil => rfl
    | cons d r => simp [fractionText]
  rw [hvalue] at h
  rw [htext]
  exact h

theorem dvd_ten_pow_self {den k : ℕ} (h : den ∣ 10 ^ k) : den ∣ 10 ^ den := by
  rw [show 10 = 2 * 5 from rfl, mul_pow] at h
  obtain ⟨a, b, ha, hb, rfl⟩ := Nat.dvd_mul.mp h
  obtain ⟨i, -, rfl⟩ := (Nat.dvd_prime_pow Nat.prime_two).mp ha
  obtain ⟨j, -, rfl⟩ := (Nat.dvd_prime_pow Nat.prime_five).mp hb
  have hi : i ≤ 2 ^ i * 5 ^ j :=
    (Nat.lt_two_pow_self.le).trans (Nat.le_mul_of_pos_right _ (by positivity))
  have hj : j ≤ 2 ^ i * 5 ^ j :=
    (Nat.lt_pow_self (by decide)).le.trans
      (Nat.le_mul_of_pos_left _ (by positivity))
  rw [show 10 = 2 * 5 from rfl, mul_pow]
  exact mul_dvd_mul (pow_dvd_pow 2 hi) (pow_dvd_pow 5 hj)

theorem scaleFrom_spec {den fuel k : ℕ} (h : den ∣ 10 ^ (k + fuel)) :
    den ∣ 10 ^ scaleFrom den fuel k := by
  induction fuel generalizing k with
  | zero => exact h
  | succ fuel ih =>
      rw [scaleFrom]
      split
      · assumption
      · exact ih (by rwa [Nat.add_right_comm k 1 fuel])

theorem den_dvd_of_isDecimal {q : ℚ} (h : IsDecimal q) :
    ∃ k, q.den ∣ 10 ^ k := by
  obtain ⟨m, k, rfl⟩ := h
  refine ⟨k, ?_⟩
  have hdvd := Rat.den_dvd m (10 ^ k)
  exact_mod_cast hdvd

/-- The units of the last decimal give the absolute value back. -/
theorem abs_eq_units {q : ℚ} (h : IsDecimal q) :
    |q| = (units q : ℚ) / 10 ^ scale q := by
  obtain ⟨k, hk⟩ := den_dvd_of_isDecimal h
  have hscale : q.den ∣ 10 ^ scale q :=
    scaleFrom_spec (by rw [Nat.zero_add]; exact dvd_ten_pow_self hk)
  obtain ⟨c, hc⟩ := hscale
  have hden : (q.den : ℚ) ≠ 0 := by exact_mod_cast q.den_ne_zero
  have hcpos : c ≠ 0 := by
    rintro rfl
    rw [Nat.mul_zero] at hc
    exact absurd hc (by positivity)
  have hpow : (10 : ℚ) ^ scale q = q.den * c := by exact_mod_cast hc
  have hunits : units q = q.num.natAbs * c := by
    rw [units, hc, Nat.mul_div_cancel_left c q.den_pos]
  have habs : |q| = (q.num.natAbs : ℚ) / q.den := by
    rw [Rat.abs_def, Rat.divInt_eq_div]
    rfl
  rw [habs, hunits, hpow]
  push_cast
  have hc' : (c : ℚ) ≠ 0 := by exact_mod_cast hcpos
  field_simp

/-- A float is read back from its text. -/
theorem readNumber_floatText {q : ℚ} (hq : IsDecimal q) :
    readNumber (floatText q) = some (.float q) := by
  have habs : (if q < 0 then -1 else 1) * ((units q : ℚ) / 10 ^ scale q) = q := by
    rw [← abs_eq_units hq]
    split
    · rename_i hneg
      rw [abs_of_neg hneg]
      ring
    · rename_i hnonneg
      rw [abs_of_nonneg (not_lt.mp hnonneg), one_mul]
  simp only [floatText]
  by_cases hfar : q ≠ 0 ∧ (|q| < 1 / 10000 ∨ 10000000000000000 ≤ |q|)
  · rw [if_pos hfar, readNumber_exponentText, habs]
  · rw [if_neg hfar, readNumber_plainText, habs]

/-- The characters a number is made of. -/
def isNumberChar (c : Char) : Bool :=
  c.isDigit || c = '-' || c = '+' || c = '.' || c = 'e' || c = 'E' || c = '_'

theorem digits_isNumberChar (n : ℕ) : ∀ c ∈ digits n, isNumberChar c = true := by
  intro c hc
  simp [isNumberChar, digits_isDigit n c hc]

theorem intText_isNumberChar (n : ℤ) :
    ∀ c ∈ intText n, isNumberChar c = true := by
  rw [intText]
  split
  · exact List.forall_mem_cons.mpr ⟨rfl, digits_isNumberChar _⟩
  · exact digits_isNumberChar _

theorem plainText_isNumberChar (n k : ℕ) :
    ∀ c ∈ plainText n k, isNumberChar c = true := by
  intro c hc
  rcases List.mem_append.mp hc with hc | hc
  · exact digits_isNumberChar _ c hc
  · rcases List.mem_cons.mp hc with rfl | hc
    · rfl
    · split at hc
      · rw [List.mem_singleton.mp hc]
        decide
      · simp [isNumberChar, padded_isDigit _ _ c hc]

theorem exponentText_isNumberChar (n k : ℕ) :
    ∀ c ∈ exponentText n k, isNumberChar c = true := by
  intro c hc
  rcases List.mem_append.mp hc with hc | hc
  · rcases List.mem_append.mp hc with hc | hc
    · exact digits_isNumberChar _ c (List.mem_of_mem_take hc)
    · split at hc
      · cases hc
      · rcases List.mem_cons.mp hc with rfl | hc
        · rfl
        · exact digits_isNumberChar _ c (List.mem_of_mem_drop hc)
  · rcases List.mem_cons.mp hc with rfl | hc
    · rfl
    · exact intText_isNumberChar _ c hc

theorem floatText_isNumberChar (q : ℚ) :
    ∀ c ∈ floatText q, isNumberChar c = true := by
  intro c hc
  rcases List.mem_append.mp hc with hc | hc
  · split at hc
    · rw [List.mem_singleton.mp hc]
      rfl
    · cases hc
  · split at hc
    · exact exponentText_isNumberChar _ _ c hc
    · exact plainText_isNumberChar _ _ c hc

/-- What is read as a number starts like one. -/
theorem intText_head (n : ℤ) :
    ∃ c r, intText n = c :: r ∧ isNumberChar c = true := by
  have hne : intText n ≠ [] := by
    rw [intText_eq]
    simp [digits_ne_nil]
  obtain ⟨c, r, heq⟩ := List.exists_cons_of_ne_nil hne
  exact ⟨c, r, heq, intText_isNumberChar n c (by rw [heq]; exact List.mem_cons_self)⟩

end DecimalText
