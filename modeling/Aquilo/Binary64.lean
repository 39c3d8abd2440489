/-
IEEE 754 binary64 arithmetic on the values it stands for.  Each operation is the
exact one, rounded to the nearest representable number with ties to even, below the
normal range in steps of its least positive number.
-/
import Aquilo.ExactFloat

namespace Binary64

open ExactFloat

/-- Round to the nearest integer, ties to even. -/
def halfEven (x : ℚ) : ℤ :=
  if x - ⌊x⌋ < 1 / 2 ∨ x - ⌊x⌋ = 1 / 2 ∧ Even ⌊x⌋ then ⌊x⌋ else ⌊x⌋ + 1

/-- The distance between neighbouring representable numbers at a magnitude. -/
def unit (x : ℚ) : ℚ := 2 ^ max (Int.log 2 |x| - 52) (-1074)

/-- The representable number nearest to a value. -/
def nearest (x : ℚ) : ℚ := halfEven (x / unit x) * unit x

/-- Rounding, with what is too large for the format infinite. -/
def round (x : ℚ) : F64 :=
  if |nearest x| < 2 ^ 1024 then .fin (nearest x)
  else if 0 < x then .posInf else .negInf

def neg : F64 → F64
  | .fin q => .fin (-q)
  | .posInf => .negInf
  | .negInf => .posInf
  | .nan => .nan

def add : F64 → F64 → F64
  | .fin a, .fin b => round (a + b)
  | .nan, _ | _, .nan | .posInf, .negInf | .negInf, .posInf => .nan
  | .posInf, _ | _, .posInf => .posInf
  | .negInf, _ | _, .negInf => .negInf

def sub (a b : F64) : F64 := add a (neg b)

def mul : F64 → F64 → F64
  | .fin a, .fin b => round (a * b)
  | x, .fin k => F64.mul x k
  | .fin k, y => F64.mul y k
  | .nan, _ | _, .nan => .nan
  | .posInf, y => y
  | .negInf, y => neg y

/-- Division; the zero divisor is the positive one a subtraction leaves. -/
def div : F64 → F64 → F64
  | .fin a, .fin b => if b = 0 then F64.div a b else round (a / b)
  | .nan, _ | _, .nan => .nan
  | .fin _, _ => .fin 0
  | .posInf, .fin b => if 0 ≤ b then .posInf else .negInf
  | .negInf, .fin b => if 0 ≤ b then .negInf else .posInf
  | _, _ => .nan

/-- The comparison with zero, which not-a-number fails. -/
def isNonpos : F64 → Bool
  | .fin q => decide (q ≤ 0)
  | .negInf => true
  | .posInf | .nan => false

/-- A 64-bit integer as a floating-point number. -/
def ofInt (n : ℤ) : ℚ := nearest n

section Nearest

theorem unit_pos (x : ℚ) : 0 < unit x := by
  rw [unit]
  positivity

theorem halfEven_intCast (n : ℤ) : halfEven n = n := by
  simp [halfEven]

theorem abs_halfEven_sub_le (x : ℚ) : |halfEven x - x| ≤ 1 / 2 := by
  have hfloor := Int.floor_le x
  have hnext := Int.lt_floor_add_one x
  rw [halfEven, abs_le]
  split_ifs with hlow
  · have hhalf : x - ⌊x⌋ ≤ 1 / 2 := by
      rcases hlow with hlt | ⟨heq, -⟩
      · exact hlt.le
      · exact heq.le
    constructor <;> linarith
  · rw [not_or, not_lt] at hlow
    push_cast
    constructor <;> linarith [hlow.1]

/-- Rounding moves a value by half a unit at most. -/
theorem abs_nearest_sub_le_unit (x : ℚ) : |nearest x - x| ≤ unit x / 2 := by
  have hpos := unit_pos x
  have hscaled : nearest x - x = (halfEven (x / unit x) - x / unit x) * unit x := by
    rw [nearest, sub_mul, div_mul_cancel₀ _ hpos.ne']
  rw [hscaled, abs_mul, abs_of_pos hpos]
  have hhalf := abs_halfEven_sub_le (x / unit x)
  calc |(halfEven (x / unit x) : ℚ) - x / unit x| * unit x
      ≤ 1 / 2 * unit x := mul_le_mul_of_nonneg_right hhalf hpos.le
    _ = unit x / 2 := by ring

/-- The unit at a magnitude is small against it. -/
theorem unit_le (x : ℚ) : unit x ≤ (|x| + 1) / 2 ^ 52 := by
  have htiny : (2 : ℚ) ^ (-1074 : ℤ) ≤ 1 / 2 ^ 52 := by
    calc (2 : ℚ) ^ (-1074 : ℤ) ≤ 2 ^ (-52 : ℤ) :=
        zpow_le_zpow_right₀ (by norm_num) (by norm_num)
      _ = 1 / 2 ^ 52 := by norm_num
  rw [unit]
  rcases max_choice (Int.log 2 |x| - 52) (-1074) with hmax | hmax
  · rw [hmax, zpow_sub₀ (by norm_num)]
    rcases eq_or_ne x 0 with rfl | hx
    · simp
    · have hlog : (2 : ℚ) ^ Int.log 2 |x| ≤ |x| :=
        Int.zpow_log_le_self (by norm_num) (abs_pos.mpr hx)
      have h52 : (2 : ℚ) ^ (52 : ℤ) = 2 ^ 52 := by norm_cast
      rw [h52]
      gcongr
      linarith
  · rw [hmax]
    calc (2 : ℚ) ^ (-1074 : ℤ) ≤ 1 / 2 ^ 52 := htiny
      _ ≤ (|x| + 1) / 2 ^ 52 := by
        gcongr
        linarith [abs_nonneg x]

/-- Half a unit in the last place of a number of magnitude one. -/
def ulp : ℚ := 1 / 2 ^ 53

theorem abs_nearest_sub_le (x : ℚ) : |nearest x - x| ≤ (|x| + 1) * ulp := by
  have hhalf := abs_nearest_sub_le_unit x
  have hunit := unit_le x
  rw [ulp]
  linarith

theorem abs_nearest_le (x : ℚ) : |nearest x| ≤ 2 * (|x| + 1) := by
  have hulp : (|x| + 1) * ulp ≤ |x| + 1 :=
    mul_le_of_le_one_right (by positivity) (by norm_num [ulp])
  calc |nearest x| = |(nearest x - x) + x| := by ring_nf
    _ ≤ |nearest x - x| + |x| := abs_add_le _ _
    _ ≤ 2 * (|x| + 1) := by linarith [abs_nearest_sub_le x]

/-- A number of at most 53 binary digits is kept. -/
theorem nearest_eq_self {m k : ℤ} (hm : |m| < 2 ^ 53) (hk : -1074 ≤ k) :
    nearest (m * 2 ^ k) = m * 2 ^ k := by
  rcases eq_or_ne m 0 with rfl | hne
  · simp [nearest, halfEven]
  · obtain ⟨j, hj, hunit⟩ : ∃ j ≤ k, unit (m * 2 ^ k) = 2 ^ j := by
      refine ⟨_, max_le ?_ hk, rfl⟩
      have hlt : |(m : ℚ) * 2 ^ k| < 2 ^ (53 + k) := by
        have hk : (0 : ℚ) < 2 ^ k := zpow_pos two_pos k
        have hm' : |(m : ℚ)| < 2 ^ (53 : ℤ) := by exact_mod_cast hm
        rw [abs_mul, abs_of_pos hk, zpow_add₀ two_ne_zero]
        exact mul_lt_mul_of_pos_right hm' hk
      have hpos : 0 < |(m : ℚ) * 2 ^ k| := by positivity
      have hlog := (Int.lt_zpow_iff_log_lt one_lt_two hpos).mp
        (by exact_mod_cast hlt)
      omega
    -- in units it is a whole number, which rounding keeps
    have hscaled : (m : ℚ) * 2 ^ k / 2 ^ j = ((m * 2 ^ (k - j).toNat : ℤ) : ℚ) := by
      have hexp : ((k - j).toNat : ℤ) = k - j := Int.toNat_of_nonneg (by omega)
      push_cast
      rw [mul_div_assoc, ← zpow_sub₀ two_ne_zero, ← zpow_natCast, hexp]
    rw [nearest, hunit, hscaled, halfEven_intCast, ← hscaled,
      div_mul_cancel₀ _ (zpow_ne_zero j two_ne_zero)]

theorem abs_mul_zpow_le {m k : ℤ} (hm : |m| < 2 ^ 53) (hk : k ≤ 100) :
    |(m : ℚ) * 2 ^ k| ≤ 2 ^ 200 := by
  have hpow : (2 : ℚ) ^ k ≤ 2 ^ (100 : ℤ) := zpow_le_zpow_right₀ one_le_two hk
  have hpow_pos : (0 : ℚ) < 2 ^ k := zpow_pos two_pos k
  have hdigits : |(m : ℚ)| ≤ 2 ^ 53 := by exact_mod_cast hm.le
  rw [abs_mul, abs_of_pos hpow_pos]
  calc |(m : ℚ)| * 2 ^ k ≤ 2 ^ 53 * 2 ^ (100 : ℤ) :=
        mul_le_mul hdigits hpow hpow_pos.le (by positivity)
    _ ≤ 2 ^ 200 := by norm_num

theorem nearest_intCast {n : ℤ} (hn : |n| < 2 ^ 53) : nearest n = n := by
  have h := nearest_eq_self hn (show (-1074 : ℤ) ≤ 0 by norm_num)
  rwa [zpow_zero, mul_one] at h

theorem nearest_half {n : ℤ} (hn : |n| < 2 ^ 53) : nearest (n / 2) = n / 2 := by
  have h := nearest_eq_self hn (show (-1074 : ℤ) ≤ -1 by norm_num)
  rwa [zpow_neg_one, ← div_eq_mul_inv] at h

theorem ofInt_eq {n : ℤ} (hn : |n| < 2 ^ 53) : ofInt n = n := nearest_intCast hn

theorem nearest_zero : nearest 0 = 0 := by
  have h := nearest_intCast (show |(0 : ℤ)| < 2 ^ 53 by norm_num)
  rwa [Int.cast_zero] at h

end Nearest

section Operations

theorem round_of_le {x : ℚ} (h : |x| ≤ 2 ^ 200) : round x = .fin (nearest x) := by
  have hsmall : |nearest x| < 2 ^ 1024 := by
    calc |nearest x| ≤ 2 * (|x| + 1) := abs_nearest_le x
      _ ≤ 2 * (2 ^ 200 + 1) := by gcongr
      _ ≤ 2 ^ 202 := by norm_num
      _ < 2 ^ 1024 := pow_lt_pow_right₀ one_lt_two (by norm_num)
  rw [round, if_pos hsmall]

theorem round_eq_self {m k : ℤ} (hm : |m| < 2 ^ 53) (hk : -1074 ≤ k) (hk' : k ≤ 100) :
    round (m * 2 ^ k) = .fin (m * 2 ^ k) := by
  rw [round_of_le (abs_mul_zpow_le hm hk'), nearest_eq_self hm hk]

theorem round_zero : round 0 = .fin 0 := by
  rw [round_of_le (by norm_num), nearest_zero]

theorem sub_fin (a b : ℚ) : sub (.fin a) (.fin b) = round (a - b) := by
  rw [sub_eq_add_neg]
  rfl

theorem div_fin (a : ℚ) {b : ℚ} (hb : b ≠ 0) :
    div (.fin a) (.fin b) = round (a / b) := if_neg hb

theorem mul_fin (a b : ℚ) : mul (.fin a) (.fin b) = round (a * b) := rfl

theorem add_fin (a b : ℚ) : add (.fin a) (.fin b) = round (a + b) := rfl

/-- A difference of rounded numbers, rounded, is near the exact difference. -/
theorem sub_nearest_near {a b : ℚ} (hbound : |a| + |b| ≤ 2 ^ 100) :
    ∃ d, sub (.fin (nearest a)) (.fin (nearest b)) = .fin d ∧
      |d - (a - b)| ≤ 5 * (|a| + |b| + 1) * ulp := by
  have ha := abs_nearest_sub_le a
  have hb := abs_nearest_sub_le b
  have hround := abs_nearest_sub_le (nearest a - nearest b)
  have hnear : |nearest a - nearest b - (a - b)| ≤ (|a| + |b| + 2) * ulp := by
    calc |nearest a - nearest b - (a - b)|
        = |(nearest a - a) - (nearest b - b)| := by ring_nf
      _ ≤ |nearest a - a| + |nearest b - b| := abs_sub _ _
      _ ≤ (|a| + 1) * ulp + (|b| + 1) * ulp := add_le_add ha hb
      _ = (|a| + |b| + 2) * ulp := by ring
  have hsize : |nearest a - nearest b| ≤ 2 * (|a| + |b| + 1) := by
    have htriangle : |nearest a - nearest b| ≤
        |a - b| + |nearest a - nearest b - (a - b)| := by
      calc |nearest a - nearest b|
          = |(a - b) + (nearest a - nearest b - (a - b))| := by ring_nf
        _ ≤ _ := abs_add_le _ _
    have hdiff : |a - b| ≤ |a| + |b| := abs_sub _ _
    have hulp : (|a| + |b| + 2) * ulp ≤ |a| + |b| + 2 :=
      mul_le_of_le_one_right (by positivity) (by norm_num [ulp])
    linarith
  refine ⟨nearest (nearest a - nearest b), ?_, ?_⟩
  · rw [sub_fin, round_of_le]
    calc |nearest a - nearest b| ≤ 2 * (|a| + |b| + 1) := hsize
      _ ≤ 2 * (2 ^ 100 + 1) := by linarith
      _ ≤ 2 ^ 200 := by norm_num
  · have hlast : |nearest (nearest a - nearest b) - (nearest a - nearest b)| ≤
        (2 * (|a| + |b| + 1) + 1) * ulp := by
      refine hround.trans ?_
      have hpos : (0 : ℚ) ≤ ulp := by norm_num [ulp]
      gcongr
    calc |nearest (nearest a - nearest b) - (a - b)|
        = |(nearest (nearest a - nearest b) - (nearest a - nearest b)) +
            (nearest a - nearest b - (a - b))| := by ring_nf
      _ ≤ |nearest (nearest a - nearest b) - (nearest a - nearest b)| +
            |nearest a - nearest b - (a - b)| := abs_add_le _ _
      _ ≤ (2 * (|a| + |b| + 1) + 1) * ulp + (|a| + |b| + 2) * ulp :=
          add_le_add hlast hnear
      _ = 3 * (|a| + |b|) * ulp + 5 * ulp := by ring
      _ ≤ 5 * (|a| + |b| + 1) * ulp := by
          have hpos : (0 : ℚ) ≤ ulp := by norm_num [ulp]
          nlinarith [mul_nonneg (add_nonneg (abs_nonneg a) (abs_nonneg b)) hpos]

/-- Rounding adds little to the distance from another value. -/
theorem nearest_near {x y c δ : ℚ} (hc : 1 ≤ c) (hδ : δ ≤ 1)
    (h : |y - x| ≤ δ * (|x| + c)) :
    |y| ≤ 2 * (|x| + c) ∧ |nearest y - x| ≤ (δ + 3 * ulp) * (|x| + c) := by
  have hpos : 0 ≤ |x| + c := by linarith [abs_nonneg x]
  have hδ' : δ * (|x| + c) ≤ |x| + c := mul_le_of_le_one_left hpos hδ
  have hsize : |y| ≤ 2 * (|x| + c) := by
    calc |y| = |(y - x) + x| := by ring_nf
      _ ≤ |y - x| + |x| := abs_add_le _ _
      _ ≤ 2 * (|x| + c) := by linarith
  have hulp : 0 ≤ ulp := by norm_num [ulp]
  have hlast : (|y| + 1) * ulp ≤ 3 * ulp * (|x| + c) := by
    have hone : |y| + 1 ≤ 3 * (|x| + c) := by linarith [abs_nonneg x]
    calc (|y| + 1) * ulp ≤ 3 * (|x| + c) * ulp := mul_le_mul_of_nonneg_right hone hulp
      _ = 3 * ulp * (|x| + c) := by ring
  refine ⟨hsize, ?_⟩
  calc |nearest y - x| = |(nearest y - y) + (y - x)| := by ring_nf
    _ ≤ |nearest y - y| + |y - x| := abs_add_le _ _
    _ ≤ (|y| + 1) * ulp + δ * (|x| + c) := add_le_add (abs_nearest_sub_le y) h
    _ ≤ (δ + 3 * ulp) * (|x| + c) := by linarith

/-- A quotient of numbers near others is near their quotient. -/
theorem quotient_near {a b a' b' ε : ℚ} (hε : 0 ≤ ε) (hhalf : ε ≤ 1 / 2) (hb : 0 < b)
    (ha' : |a' - a| ≤ ε * (|a| + b)) (hb' : |b' - b| ≤ ε * b) :
    0 < b' ∧ |a' / b' - a / b| ≤ 4 * ε * (|a / b| + 1) := by
  have hlow := (abs_le.mp hb').1
  have hsmall : ε * b ≤ 1 / 2 * b := mul_le_mul_of_nonneg_right hhalf hb.le
  have hpos : b / 2 ≤ b' := by linarith
  have hpos' : 0 < b' := by linarith
  refine ⟨hpos', ?_⟩
  have hquot : |a / b| * b = |a| := by
    rw [abs_div, abs_of_pos hb, div_mul_cancel₀ _ hb.ne']
  have hcross : |a' - a / b * b'| ≤ ε * (2 * |a / b| + 1) * b := by
    have hsplit : a' - a / b * b' = (a' - a) - a / b * (b' - b) := by
      field_simp
      ring
    calc |a' - a / b * b'| = |(a' - a) - a / b * (b' - b)| := by rw [hsplit]
      _ ≤ |a' - a| + |a / b * (b' - b)| := abs_sub _ _
      _ = |a' - a| + |a / b| * |b' - b| := by rw [abs_mul]
      _ ≤ ε * (|a| + b) + |a / b| * (ε * b) := by gcongr
      _ = ε * (2 * |a / b| + 1) * b := by
          rw [← hquot]
          ring
  have hdiff : a' / b' - a / b = (a' - a / b * b') / b' := by
    rw [sub_div, mul_div_cancel_right₀ _ hpos'.ne']
  rw [hdiff, abs_div, abs_of_pos hpos', div_le_iff₀ hpos']
  have hnonneg : 0 ≤ ε * (2 * |a / b| + 1) := by positivity
  calc |a' - a / b * b'| ≤ ε * (2 * |a / b| + 1) * b := hcross
    _ ≤ ε * (2 * |a / b| + 1) * (2 * b') :=
        mul_le_mul_of_nonneg_left (by linarith) hnonneg
    _ ≤ 4 * ε * (|a / b| + 1) * b' := by
        have hextra : 0 ≤ ε * b' := mul_nonneg hε hpos'.le
        linarith

end Operations

section Sums

/-- The sum of a list, added from the left. -/
def sum (xs : List ℚ) : F64 := xs.foldl (fun total x => add total (.fin x)) (.fin 0)

theorem sum_concat (xs : List ℚ) (x : ℚ) : sum (xs ++ [x]) = add (sum xs) (.fin x) :=
  List.foldl_concat ..

/-- A sum of bounded numbers stays finite. -/
theorem sum_bounded {bound : ℚ} (hone : 1 ≤ bound) (hbound : bound ≤ 2 ^ 100)
    {xs : List ℚ} (hlength : xs.length ≤ 2 ^ 50) (h : ∀ x ∈ xs, |x| ≤ bound) :
    ∃ s, sum xs = .fin s ∧ |s| ≤ 2 * xs.length * bound := by
  induction xs using List.reverseRecOn with
  | nil => exact ⟨0, rfl, by simp⟩
  | append_singleton xs x ih =>
      rw [List.length_append, List.length_singleton] at hlength ⊢
      obtain ⟨s, hs, hs_le⟩ := ih (by omega) fun y hy => h y (List.mem_append_left _ hy)
      have hx := h x (List.mem_append_right _ List.mem_cons_self)
      have hlength' : (xs.length : ℚ) + 1 ≤ 2 ^ 50 := by exact_mod_cast hlength
      have hsum : |s + x| ≤ 2 * xs.length * bound + bound :=
        (abs_add_le _ _).trans (add_le_add hs_le hx)
      have hprod : (xs.length : ℚ) * bound ≤ 2 ^ 50 * 2 ^ 100 :=
        mul_le_mul (by linarith) hbound (by linarith) (by positivity)
      have hround := abs_nearest_sub_le (s + x)
      refine ⟨nearest (s + x), ?_, ?_⟩
      · rw [sum_concat, hs, add_fin, round_of_le]
        calc |s + x| ≤ 2 * (2 ^ 50 * 2 ^ 100) + 2 ^ 100 := by linarith
          _ ≤ 2 ^ 200 := by norm_num
      · -- a step's rounding is at most the bound
        have hlast : (|s + x| + 1) * ulp ≤ bound := by
          calc (|s + x| + 1) * ulp ≤ (2 * (xs.length + 1) * bound) * ulp :=
                mul_le_mul_of_nonneg_right (by linarith) (by norm_num [ulp])
            _ ≤ (2 * 2 ^ 50 * bound) * ulp := by
                refine mul_le_mul_of_nonneg_right ?_ (by norm_num [ulp])
                exact mul_le_mul_of_nonneg_right (by linarith) (by linarith)
            _ = bound * (2 * 2 ^ 50 * ulp) := by ring
            _ ≤ bound * 1 := mul_le_mul_of_nonneg_left (by norm_num [ulp]) (by linarith)
            _ = bound := mul_one bound
        calc |nearest (s + x)| = |(nearest (s + x) - (s + x)) + (s + x)| := by ring_nf
          _ ≤ |nearest (s + x) - (s + x)| + |s + x| := abs_add_le _ _
          _ ≤ bound + (2 * xs.length * bound + bound) :=
              add_le_add (hround.trans hlast) hsum
          _ = 2 * ((xs.length + 1 : ℕ) : ℚ) * bound := by
              push_cast
              ring

/-- Equal numbers are summed exactly while the sum keeps to 53 binary digits. -/
theorem sum_replicate {m k : ℤ} (hk : -1074 ≤ k) (hk' : k ≤ 100) {n : ℕ}
    (hm : |m| * n < 2 ^ 53) :
    sum (List.replicate n (m * 2 ^ k)) = .fin (n * (m * 2 ^ k)) := by
  induction n with
  | zero => simp [sum]
  | succ n ih =>
      have hprev : |m| * (n : ℤ) < 2 ^ 53 := by
        push_cast at hm
        nlinarith [abs_nonneg m]
      have hnext : (n : ℚ) * (m * 2 ^ k) + m * 2 ^ k =
          ((m * (n + 1 : ℕ) : ℤ) : ℚ) * 2 ^ k := by
        push_cast
        ring
      have hdigits : |m * ((n + 1 : ℕ) : ℤ)| < 2 ^ 53 := by
        rwa [abs_mul, Nat.abs_cast]
      rw [List.replicate_succ', sum_concat, ih hprev, add_fin, hnext,
        round_eq_self hdigits hk hk', ← hnext]
      push_cast
      ring_nf

end Sums

section Ties

theorem abs_sub_roundHalfAway_le (x : ℚ) : |x - roundHalfAway x| ≤ 1 / 2 := by
  rw [abs_le]
  rcases lt_or_ge x 0 with hx | hx
  · rw [roundHalfAway_of_neg hx]
    have hle := Int.le_ceil (x - 1 / 2)
    have hlt := Int.ceil_lt_add_one (x - 1 / 2)
    constructor <;> linarith
  · rw [roundHalfAway_of_nonneg hx]
    have hle := Int.floor_le (x + 1 / 2)
    have hlt := Int.lt_floor_add_one (x + 1 / 2)
    constructor <;> linarith

theorem roundHalfAway_eq_of_abs_lt {x : ℚ} {n : ℤ} (h : |x - n| < 1 / 2) :
    roundHalfAway x = n := by
  obtain ⟨hlow, hhigh⟩ := abs_lt.mp h
  rcases lt_or_ge x 0 with hx | hx
  · rw [roundHalfAway_of_neg hx, Int.ceil_eq_iff]
    constructor <;> linarith
  · rw [roundHalfAway_of_nonneg hx, Int.floor_eq_iff]
    constructor <;> linarith

/-- Farther from every tie than a distance. -/
def ClearOfTies (ε x : ℚ) : Prop := ∀ m : ℤ, ε < |x - (m + 1 / 2)|

/-- A value that is off by less than the distance to a tie rounds the same. -/
theorem roundHalfAway_eq_of_near {x y ε : ℚ} (hclear : ClearOfTies ε x)
    (hnear : |y - x| ≤ ε) : roundHalfAway y = roundHalfAway x := by
  obtain ⟨hlow, hhigh⟩ := abs_le.mp (abs_sub_roundHalfAway_le x)
  obtain ⟨hdown, hup⟩ := abs_le.mp hnear
  have habove := hclear (roundHalfAway x)
  have hbelow := hclear (roundHalfAway x - 1)
  push_cast at hbelow
  apply roundHalfAway_eq_of_abs_lt
  rw [abs_of_nonpos (by linarith)] at habove
  rw [abs_of_nonneg (by linarith)] at hbelow
  rw [abs_lt]
  constructor <;> linarith

/-- A value off by half rounds to the same whole number or a neighbouring one. -/
theorem abs_roundHalfAway_sub_le {x y : ℚ} (hnear : |y - x| ≤ 1 / 2) :
    |roundHalfAway y - roundHalfAway x| ≤ 1 := by
  obtain ⟨hlow, hhigh⟩ := abs_le.mp (abs_sub_roundHalfAway_le x)
  obtain ⟨hlow', hhigh'⟩ := abs_le.mp (abs_sub_roundHalfAway_le y)
  obtain ⟨hdown, hup⟩ := abs_le.mp hnear
  have habove : ((roundHalfAway y - roundHalfAway x : ℤ) : ℚ) < (2 : ℤ) := by
    push_cast
    linarith
  have hbelow : ((-2 : ℤ) : ℚ) < ((roundHalfAway y - roundHalfAway x : ℤ) : ℚ) := by
    push_cast
    linarith
  have habove' := Int.cast_lt.mp habove
  have hbelow' := Int.cast_lt.mp hbelow
  rw [abs_le]
  omega

/-- Clamped between whole numbers, only the values between them matter. -/
theorem clamp_roundHalfAway_eq_or {x y : ℚ} {lo hi : ℤ}
    (hbelow : x < lo - 1 → y ≤ lo) (habove : hi + 1 < x → hi ≤ y) :
    clamp lo hi (roundHalfAway y) = clamp lo hi (roundHalfAway x) ∨
      lo - 1 ≤ x ∧ x ≤ hi + 1 := by
  rcases lt_or_ge x (lo - 1) with hlow | hlow
  · have hx : roundHalfAway x ≤ lo := by
      rw [← roundHalfAway_intCast lo]
      exact roundHalfAway_mono (by linarith)
    have hy : roundHalfAway y ≤ lo := by
      rw [← roundHalfAway_intCast lo]
      exact roundHalfAway_mono (hbelow hlow)
    refine Or.inl ?_
    simp only [clamp]
    omega
  · rcases lt_or_ge (hi + 1 : ℚ) x with hhigh | hhigh
    · have hx : hi ≤ roundHalfAway x := by
        rw [← roundHalfAway_intCast hi]
        exact roundHalfAway_mono (by linarith)
      have hy : hi ≤ roundHalfAway y := by
        rw [← roundHalfAway_intCast hi]
        exact roundHalfAway_mono (habove hhigh)
      refine Or.inl ?_
      simp only [clamp]
      omega
    · exact Or.inr ⟨hlow, hhigh⟩

end Ties

end Binary64
