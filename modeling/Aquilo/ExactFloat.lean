/-
Floating-point operations read exactly: rounding half away from zero, the
saturating cast to a 64-bit integer, and the three non-finite values that only
a division by zero can produce.  Finite values are rationals; nothing is lost
to rounding below the point where the program rounds itself.
-/
import Mathlib

namespace ExactFloat

/-- Round to the nearest integer, ties away from zero. -/
def roundHalfAway (x : ℚ) : ℤ :=
  if 0 ≤ x then ⌊x + 1 / 2⌋ else ⌈x - 1 / 2⌉

theorem roundHalfAway_of_nonneg {x : ℚ} (hx : 0 ≤ x) :
    roundHalfAway x = ⌊x + 1 / 2⌋ := if_pos hx

theorem roundHalfAway_of_neg {x : ℚ} (hx : x < 0) :
    roundHalfAway x = ⌈x - 1 / 2⌉ := if_neg (not_le.mpr hx)

theorem roundHalfAway_nonneg {x : ℚ} (hx : 0 ≤ x) : 0 ≤ roundHalfAway x := by
  rw [roundHalfAway_of_nonneg hx]
  exact Int.floor_nonneg.mpr (by linarith)

theorem roundHalfAway_nonpos {x : ℚ} (hx : x < 0) : roundHalfAway x ≤ 0 := by
  rw [roundHalfAway_of_neg hx, Int.ceil_le]
  push_cast
  linarith

theorem roundHalfAway_mono : Monotone roundHalfAway := by
  intro x y hxy
  rcases lt_or_ge x 0 with hx | hx
  · rcases lt_or_ge y 0 with hy | hy
    · rw [roundHalfAway_of_neg hx, roundHalfAway_of_neg hy]
      exact Int.ceil_mono (by linarith)
    · exact (roundHalfAway_nonpos hx).trans (roundHalfAway_nonneg hy)
  · rw [roundHalfAway_of_nonneg hx, roundHalfAway_of_nonneg (hx.trans hxy)]
    exact Int.floor_mono (by linarith)

@[simp] theorem roundHalfAway_intCast (n : ℤ) : roundHalfAway (n : ℚ) = n := by
  rcases lt_or_ge (n : ℚ) 0 with hn | hn
  · rw [roundHalfAway_of_neg hn, Int.ceil_eq_iff]
    constructor <;> linarith
  · rw [roundHalfAway_of_nonneg hn, Int.floor_eq_iff]
    constructor <;> linarith

/-- Values a whole number apart stay as far apart. -/
theorem add_roundHalfAway_le {x y : ℚ} {n : ℤ} (hx : 0 ≤ x) (hy : 0 ≤ y)
    (h : x + n ≤ y) : roundHalfAway x + n ≤ roundHalfAway y := by
  rw [roundHalfAway_of_nonneg hx, roundHalfAway_of_nonneg hy, ← Int.floor_add_intCast]
  exact Int.floor_mono (by linarith)

/-- Rounding moves two values apart by less than one. -/
theorem lt_of_add_roundHalfAway_le {x y : ℚ} {n : ℤ} (hx : 0 ≤ x) (hy : 0 ≤ y)
    (h : roundHalfAway x + n ≤ roundHalfAway y) : x + n < y + 1 := by
  rw [roundHalfAway_of_nonneg hx, roundHalfAway_of_nonneg hy] at h
  have hbelow := Int.lt_floor_add_one (x + 1 / 2)
  have habove := Int.floor_le (y + 1 / 2)
  have hcast : ((⌊x + 1 / 2⌋ + n : ℤ) : ℚ) ≤ ⌊y + 1 / 2⌋ := by exact_mod_cast h
  push_cast at hcast
  linarith

/-- The least 64-bit signed integer. -/
def i64Min : ℤ := -2 ^ 63

/-- The greatest 64-bit signed integer. -/
def i64Max : ℤ := 2 ^ 63 - 1

/-- The integers a 64-bit signed variable can hold. -/
def InI64 (n : ℤ) : Prop := i64Min ≤ n ∧ n ≤ i64Max

instance (n : ℤ) : Decidable (InI64 n) := inferInstanceAs (Decidable (_ ∧ _))

/-- The saturating cast of an integral value to 64 bits. -/
def saturate (n : ℤ) : ℤ := max i64Min (min i64Max n)

theorem saturate_inI64 (n : ℤ) : InI64 (saturate n) := by
  simp only [InI64, saturate, i64Min, i64Max]
  omega

theorem saturate_eq_self {n : ℤ} (hn : InI64 n) : saturate n = n := by
  simp only [InI64, i64Min, i64Max] at hn
  simp only [saturate, i64Min, i64Max]
  omega

theorem saturate_mono : Monotone saturate := by
  intro m n hmn
  simp only [saturate]
  omega

/-- Two's complement reduction, what an overflowing 64-bit operation leaves. -/
def wrap (n : ℤ) : ℤ := n.bmod (2 ^ 64)

theorem wrap_eq_self {n : ℤ} (hn : InI64 n) : wrap n = n := by
  simp only [InI64, i64Min, i64Max] at hn
  exact Int.bmod_eq_of_le (by omega) (by omega)

/-- The integer clamped between two bounds. -/
def clamp (lo hi n : ℤ) : ℤ := max lo (min hi n)

theorem le_clamp (lo hi n : ℤ) : lo ≤ clamp lo hi n := le_max_left _ _

theorem clamp_le {lo hi : ℤ} (h : lo ≤ hi) (n : ℤ) : clamp lo hi n ≤ hi := by
  simp only [clamp]
  omega

/-- Clamping absorbs the saturation of the cast. -/
theorem clamp_saturate {lo hi : ℤ} (hlo : i64Min ≤ lo) (hhi : hi ≤ i64Max)
    (n : ℤ) : clamp lo hi (saturate n) = clamp lo hi n := by
  simp only [clamp, saturate, i64Min, i64Max] at hlo hhi ⊢
  omega

/-- Between integral bounds, clamping may be done before rounding. -/
theorem clamp_roundHalfAway (lo hi : ℤ) (x : ℚ) :
    clamp lo hi (roundHalfAway x) =
      roundHalfAway (max (lo : ℚ) (min (hi : ℚ) x)) := by
  rw [roundHalfAway_mono.map_max, roundHalfAway_mono.map_min,
    roundHalfAway_intCast, roundHalfAway_intCast, clamp]

/-- An `f64` read exactly: a rational, or what IEEE 754 gives when the
divisor is zero. -/
inductive F64 where
  | fin (q : ℚ)
  | posInf
  | negInf
  | nan
deriving DecidableEq, Repr

namespace F64

/-- Division; the zero divisor is the positive zero a subtraction leaves. -/
def div (a b : ℚ) : F64 :=
  if b ≠ 0 then fin (a / b)
  else if a = 0 then nan
  else if 0 < a then posInf
  else negInf

/-- Multiplication by a finite value; infinity times zero is not a number. -/
def mul (x : F64) (k : ℚ) : F64 :=
  match x with
  | fin q => fin (q * k)
  | posInf => if k = 0 then nan else if 0 < k then posInf else negInf
  | negInf => if k = 0 then nan else if 0 < k then negInf else posInf
  | nan => nan

/-- Addition of a finite value. -/
def add (k : ℚ) : F64 → F64
  | fin q => fin (k + q)
  | posInf => posInf
  | negInf => negInf
  | nan => nan

/-- Round, then cast to 64 bits: infinities saturate, not-a-number is zero. -/
def roundToI64 : F64 → ℤ
  | fin q => saturate (roundHalfAway q)
  | posInf => i64Max
  | negInf => i64Min
  | nan => 0

theorem roundToI64_inI64 (x : F64) : InI64 x.roundToI64 := by
  cases x with
  | fin q => exact saturate_inI64 _
  | posInf => decide
  | negInf => decide
  | nan => decide

theorem div_of_ne_zero (a : ℚ) {b : ℚ} (hb : b ≠ 0) : div a b = fin (a / b) :=
  if_pos hb

end F64

end ExactFloat
