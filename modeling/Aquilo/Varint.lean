/-
Base-128 numbers, low digit first; every byte but the last carries the
continuation bit.
-/
import Mathlib

namespace Varint

def Continued (b : UInt8) : Prop := b &&& 0x80 ≠ 0

instance (b : UInt8) : Decidable (Continued b) :=
  inferInstanceAs (Decidable (b &&& 0x80 ≠ 0))

/-- The seven value bits. -/
def digit (b : UInt8) : ℕ := (b &&& 0x7f).toNat

def value : List UInt8 → ℕ
  | [] => 0
  | b :: rest => digit b + 128 * value rest

/-- A complete number: only the last byte is not continued. -/
def Terminated : List UInt8 → Prop
  | [] => False
  | [b] => ¬ Continued b
  | b :: rest => Continued b ∧ Terminated rest

/-- The writer: a low digit at a time until nothing is left. -/
def encode (n : ℕ) : List UInt8 :=
  let byte := UInt8.ofNat (n % 128)
  if 0 < n / 128 then (byte ||| 0x80) :: encode (n / 128) else [byte]
termination_by n
decreasing_by omega

theorem terminated_cons {b : UInt8} {rest : List UInt8} (hne : rest ≠ []) :
    Terminated (b :: rest) ↔ Continued b ∧ Terminated rest := by
  cases rest with
  | nil => contradiction
  | cons c rest => rfl

theorem Terminated.ne_nil {bytes : List UInt8} (h : Terminated bytes) :
    bytes ≠ [] := by
  rintro rfl
  exact h

theorem digit_ofNat_or {n : ℕ} (h : n < 128) :
    digit (UInt8.ofNat n ||| 0x80) = n := by
  revert n
  decide

theorem continued_ofNat_or {n : ℕ} (h : n < 128) :
    Continued (UInt8.ofNat n ||| 0x80) := by
  revert n
  decide

theorem digit_ofNat {n : ℕ} (h : n < 128) : digit (UInt8.ofNat n) = n := by
  revert n
  decide

theorem not_continued_ofNat {n : ℕ} (h : n < 128) :
    ¬ Continued (UInt8.ofNat n) := by
  revert n
  decide

theorem encode_of_lt {n : ℕ} (h : n < 128) : encode n = [UInt8.ofNat n] := by
  rw [encode, if_neg (by omega), Nat.mod_eq_of_lt h]

theorem encode_of_le {n : ℕ} (h : 128 ≤ n) :
    encode n = (UInt8.ofNat (n % 128) ||| 0x80) :: encode (n / 128) := by
  rw [encode, if_pos (by omega)]

theorem encode_ne_nil (n : ℕ) : encode n ≠ [] := by
  rw [encode]
  split <;> simp

theorem terminated_encode (n : ℕ) : Terminated (encode n) := by
  induction n using Nat.strong_induction_on with
  | h n ih =>
      by_cases hlt : n < 128
      · rw [encode_of_lt hlt]
        exact not_continued_ofNat hlt
      · rw [encode_of_le (by omega), terminated_cons (encode_ne_nil _)]
        exact ⟨continued_ofNat_or (Nat.mod_lt n (by decide)),
          ih (n / 128) (by omega)⟩

@[simp] theorem value_encode (n : ℕ) : value (encode n) = n := by
  induction n using Nat.strong_induction_on with
  | h n ih =>
      by_cases hlt : n < 128
      · simp [encode_of_lt hlt, value, digit_ofNat hlt]
      · rw [encode_of_le (by omega), value, ih (n / 128) (by omega),
          digit_ofNat_or (Nat.mod_lt n (by decide))]
        omega

theorem digit_lt (b : UInt8) : digit b < 128 := by
  have hle : (b &&& 0x7f).toNat ≤ 127 := by
    rw [UInt8.toNat_and]
    exact Nat.and_le_right
  rw [digit]
  omega

theorem value_lt (bytes : List UInt8) : value bytes < 128 ^ bytes.length := by
  induction bytes with
  | nil => exact Nat.one_pos
  | cons b rest ih =>
      have hb := digit_lt b
      rw [value, List.length_cons, Nat.pow_succ]
      omega

/-- `k + 1` digits suffice exactly for the numbers below `128 ^ (k + 1)`. -/
theorem length_encode_le_iff (k n : ℕ) :
    (encode n).length ≤ k + 1 ↔ n < 128 ^ (k + 1) := by
  induction k generalizing n with
  | zero =>
      by_cases hlt : n < 128
      · simp [encode_of_lt hlt, hlt]
      · have hpos := List.length_pos_iff.mpr (encode_ne_nil (n / 128))
        rw [encode_of_le (by omega), List.length_cons]
        constructor <;> intro h <;> omega
  | succ k ih =>
      by_cases hlt : n < 128
      · have hpow : 128 ≤ 128 ^ (k + 1 + 1) :=
          Nat.le_self_pow (by omega) 128
        rw [encode_of_lt hlt, List.length_singleton]
        constructor <;> intro h <;> omega
      · rw [encode_of_le (by omega), List.length_cons, Nat.add_le_add_iff_right,
          ih, Nat.div_lt_iff_lt_mul (by decide), ← Nat.pow_succ]

/-- A number cut off before its last byte is all continuation. -/
theorem continued_of_isPrefix {short bytes : List UInt8} (h : Terminated bytes)
    (hpre : short <+: bytes) (hne : short ≠ bytes) :
    ∀ b ∈ short, Continued b := by
  induction bytes generalizing short with
  | nil => exact absurd h id
  | cons b rest ih =>
      rcases List.prefix_cons_iff.mp hpre with rfl | ⟨tail, rfl, htail⟩
      · simp
      · have hrest : rest ≠ [] := by
          rintro rfl
          exact hne (by rw [List.prefix_nil.mp htail])
        obtain ⟨hb, hterm⟩ := (terminated_cons hrest).mp h
        have hih := ih hterm htail (fun heq => hne (by rw [heq]))
        simpa [hb] using hih

theorem Terminated.not_all_continued {bytes : List UInt8}
    (h : Terminated bytes) : ¬ ∀ b ∈ bytes, Continued b := by
  induction bytes with
  | nil => exact absurd h id
  | cons b rest ih =>
      cases rest with
      | nil => exact fun hall => h (hall b (by simp))
      | cons c rest =>
          exact fun hall => ih h.2 fun d hd =>
            hall d (List.mem_cons_of_mem b hd)

/-- Numbers are self-delimiting. -/
theorem Terminated.eq_of_append_eq {xs ys more more' : List UInt8}
    (hx : Terminated xs) (hy : Terminated ys) (h : xs ++ more = ys ++ more') :
    xs = ys := by
  by_contra hne
  rcases List.append_eq_append_iff.mp h with ⟨mid, rfl, -⟩ | ⟨mid, rfl, -⟩
  · exact hx.not_all_continued
      (continued_of_isPrefix hy (List.prefix_append xs mid) hne)
  · exact hy.not_all_continued
      (continued_of_isPrefix hx (List.prefix_append ys mid) (Ne.symm hne))

/-- The head of any byte list, as far as `k` bytes tell: a complete number, `k`
continued bytes, or fewer bytes that are all continued. -/
theorem head_cases (k : ℕ) (bytes : List UInt8) :
    (∃ field more, bytes = field ++ more ∧ Terminated field ∧
      field.length ≤ k) ∨
    (∃ field more, bytes = field ++ more ∧ field.length = k ∧
      ∀ b ∈ field, Continued b) ∨
    (bytes.length < k ∧ ∀ b ∈ bytes, Continued b) := by
  induction k generalizing bytes with
  | zero => exact Or.inr (Or.inl ⟨[], bytes, rfl, rfl, by simp⟩)
  | succ k ih =>
      cases bytes with
      | nil => exact Or.inr (Or.inr ⟨by simp, by simp⟩)
      | cons b rest =>
          by_cases hb : Continued b
          · rcases ih rest with ⟨field, more, rfl, hterm, hlen⟩ |
              ⟨field, more, rfl, hlen, hall⟩ | ⟨hlen, hall⟩
            · exact Or.inl ⟨b :: field, more, rfl,
                (terminated_cons hterm.ne_nil).mpr ⟨hb, hterm⟩, by simpa using hlen⟩
            · exact Or.inr (Or.inl ⟨b :: field, more, rfl, by simpa using hlen,
                by simpa [hb] using hall⟩)
            · exact Or.inr (Or.inr ⟨by simpa using hlen,
                by simpa [hb] using hall⟩)
          · exact Or.inl ⟨[b], rest, rfl, hb, by simp⟩

/-- Continued bytes can always be completed by one more. -/
theorem terminated_append_zero {bytes : List UInt8}
    (h : ∀ b ∈ bytes, Continued b) : Terminated (bytes ++ [0]) := by
  induction bytes with
  | nil =>
      change ¬ Continued 0
      decide
  | cons b rest ih =>
      rw [List.cons_append, terminated_cons (by simp)]
      exact ⟨h b (by simp), ih fun c hc => h c (List.mem_cons_of_mem b hc)⟩

end Varint
