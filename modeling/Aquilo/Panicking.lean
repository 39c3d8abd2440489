/-
Computations that can panic: words that overflow, slices that lie out of bounds,
and loops that do not end within the turns they are granted.
-/
import Mathlib

namespace Panicking

inductive Panic where
  | overflow
  | outOfBounds
  | stuck
deriving DecidableEq, Repr

abbrev Checked := Except Panic

/-- A computation that can also find nothing. -/
abbrev Fallible := OptionT Checked

variable {α β : Type}

section Words

variable (w : ℕ)

/-- Addition of words of `w` bits. -/
def add (a b : ℕ) : Checked ℕ :=
  if a + b < 2 ^ w then .ok (a + b) else .error .overflow

def mul (a b : ℕ) : Checked ℕ :=
  if a * b < 2 ^ w then .ok (a * b) else .error .overflow

/-- A shift that may not lose a bit. -/
def shiftLeft (a k : ℕ) : Checked ℕ :=
  if a <<< k < 2 ^ w then .ok (a <<< k) else .error .overflow

variable {w} {a b : ℕ}

theorem add_ok (h : a + b < 2 ^ w) : add w a b = .ok (a + b) := if_pos h

theorem mul_ok (h : a * b < 2 ^ w) : mul w a b = .ok (a * b) := if_pos h

theorem shiftLeft_ok (h : a <<< b < 2 ^ w) : shiftLeft w a b = .ok (a <<< b) :=
  if_pos h

/-- Subtraction of words, which may not go below zero. -/
def subWord (a b : ℕ) : Checked ℕ :=
  if b ≤ a then .ok (a - b) else .error .overflow

theorem subWord_ok (h : b ≤ a) : subWord a b = .ok (a - b) := if_pos h

end Words

section Integers

variable (lo hi : ℤ)

/-- Subtraction of integers that are kept between two bounds. -/
def subWithin (a b : ℤ) : Checked ℤ :=
  if lo ≤ a - b ∧ a - b ≤ hi then .ok (a - b) else .error .overflow

variable {lo hi} {a b : ℤ}

theorem subWithin_ok (h : lo ≤ a - b ∧ a - b ≤ hi) :
    subWithin lo hi a b = .ok (a - b) := if_pos h

theorem subWithin_overflow (h : ¬ (lo ≤ a - b ∧ a - b ≤ hi)) :
    subWithin lo hi a b = .error .overflow := if_neg h

end Integers

section Slices

def index (xs : List α) (i : ℕ) : Checked α :=
  match xs[i]? with
  | some x => .ok x
  | none => .error .outOfBounds

/-- The elements from `first` on and before `last`. -/
def slice (xs : List α) (first last : ℕ) : Checked (List α) :=
  if first ≤ last ∧ last ≤ xs.length then .ok ((xs.take last).drop first)
  else .error .outOfBounds

/-- What is left without the first `n` elements. -/
def drainFront (xs : List α) (n : ℕ) : Checked (List α) :=
  if n ≤ xs.length then .ok (xs.drop n) else .error .outOfBounds

/-- An element that need not be there. -/
def get? (xs : List α) (i : ℕ) : Fallible α := OptionT.mk (.ok xs[i]?)

variable {xs : List α}

theorem index_ok {i : ℕ} {x : α} (h : xs[i]? = some x) : index xs i = .ok x := by
  rw [index, h]

theorem slice_ok {first last : ℕ} (h : first ≤ last) (hlast : last ≤ xs.length) :
    slice xs first last = .ok ((xs.take last).drop first) := if_pos ⟨h, hlast⟩

theorem drainFront_ok {n : ℕ} (h : n ≤ xs.length) :
    drainFront xs n = .ok (xs.drop n) := if_pos h

end Slices

theorem ok_bind {x : Checked α} {a : α} (h : x = .ok a) (f : α → Checked β) :
    (x >>= f) = f a := by
  rw [h]
  rfl

theorem error_bind {x : Checked α} {e : Panic} (h : x = .error e)
    (f : α → Checked β) : (x >>= f) = .error e := by
  rw [h]
  rfl

/-- An answer that is there already, or is not. -/
def ofOption (o : Option α) : Fallible α := OptionT.mk (.ok o)

/-- Without a panic, `x` finds what `o` says. -/
def Finds (x : Fallible α) (o : Option α) : Prop := x.run = .ok o

namespace Finds

theorem pure (a : α) : Finds (Pure.pure a) (some a) := rfl

theorem failure : Finds (failure : Fallible α) none := rfl

theorem get? (xs : List α) (i : ℕ) : Finds (get? xs i) xs[i]? := rfl

theorem ofOption (o : Option α) : Finds (ofOption o) o := rfl

/-- A step that does not panic. -/
theorem ok_bind {x : Checked α} {a : α} {f : α → Fallible β} {o : Option β}
    (hx : x = .ok a) (hf : Finds (f a) o) : Finds (liftM x >>= f) o := by
  subst hx
  exact hf

/-- A step that can find nothing, and what comes after it when it does find
something. -/
theorem bind {x : Fallible α} {o : Option α} {f : α → Fallible β}
    {g : α → Option β} (hx : Finds x o)
    (hf : ∀ a, o = some a → Finds (f a) (g a)) : Finds (x >>= f) (o.bind g) := by
  rw [Finds, OptionT.run_bind, hx]
  cases o with
  | none => rfl
  | some a => exact hf a rfl

/-- A step that finds what an answer is turned into. -/
theorem map_bind {γ : Type} {x : Fallible α} {o : Option γ} {k : γ → α}
    {f : α → Fallible β} {g : γ → Option β} (hx : Finds x (o.map k))
    (hf : ∀ c, o = some c → Finds (f (k c)) (g c)) :
    Finds (x >>= f) (o.bind g) := by
  rw [Finds, OptionT.run_bind, hx]
  cases o with
  | none => rfl
  | some c => exact hf c rfl

theorem map {x : Fallible α} {o : Option α} (hx : Finds x o) (f : α → β) :
    Finds (x >>= fun a => Pure.pure (f a)) (o.map f) := by
  rw [Option.map_eq_bind]
  exact bind hx fun a _ => pure (f a)

theorem ite {c : Prop} [Decidable c] {x y : Fallible α} {o p : Option α}
    (hx : c → Finds x o) (hy : ¬ c → Finds y p) :
    Finds (if c then x else y) (if c then o else p) := by
  split
  · rename_i hc
    exact hx hc
  · rename_i hc
    exact hy hc

end Finds

section Refusals

variable {ε : Type}

/-- A computation that can also refuse. -/
abbrev Refusable (ε : Type) := ExceptT ε Checked

/-- An answer that is there already, or a refusal. -/
def answer (r : Except ε α) : Refusable ε α := ExceptT.mk (.ok r)

/-- Without a panic, `x` ends as `r` says. -/
def Ends (x : Refusable ε α) (r : Except ε α) : Prop := x.run = .ok r

namespace Ends

theorem pure (a : α) : Ends (Pure.pure a : Refusable ε α) (.ok a) := rfl

theorem throw (e : ε) : Ends (throw e : Refusable ε α) (.error e) := rfl

theorem answer (r : Except ε α) : Ends (answer r) r := rfl

/-- A step that does not panic. -/
theorem ok_bind {x : Checked α} {a : α} {f : α → Refusable ε β} {r : Except ε β}
    (hx : x = .ok a) (hf : Ends (f a) r) : Ends (liftM x >>= f) r := by
  subst hx
  exact hf

/-- A step that can refuse, and what comes after it when it does not. -/
theorem bind {x : Refusable ε α} {r : Except ε α} {f : α → Refusable ε β}
    {g : α → Except ε β} (hx : Ends x r)
    (hf : ∀ a, r = .ok a → Ends (f a) (g a)) : Ends (x >>= f) (r >>= g) := by
  rw [Ends, ExceptT.run_bind, hx]
  cases r with
  | error e => rfl
  | ok a => exact hf a rfl

end Ends

end Refusals

section Loops

variable {σ ρ : Type}

/-- A loop over the indices below a bound. -/
def forRange (body : ℕ → σ → Checked σ) : ℕ → σ → Checked σ
  | 0, s => .ok s
  | n + 1, s => do
      let s' ← forRange body n s
      body n s'

/-- A loop over indices carries what the turns before an index have made. -/
theorem forRange_eq_ok {body : ℕ → σ → Checked σ} (carried : ℕ → σ) {n : ℕ}
    (hturn : ∀ i < n, body i (carried i) = .ok (carried (i + 1))) :
    forRange body n (carried 0) = .ok (carried n) := by
  induction n with
  | zero => rfl
  | succ n ih =>
      have hbefore := ih fun i hi => hturn i (Nat.lt_succ_of_lt hi)
      rw [forRange, ok_bind hbefore]
      exact hturn n (Nat.lt_succ_self n)

/-- How a turn of a loop ends: the loop goes on or is left. -/
inductive Turn (σ ρ : Type) where
  | next (s : σ)
  | done (r : ρ)

/-- A loop that is granted a number of turns. -/
def loop (body : σ → Checked (Turn σ ρ)) : ℕ → σ → Checked ρ
  | 0, _ => .error .stuck
  | turns + 1, s => do
      match ← body s with
      | .next s' => loop body turns s'
      | .done r => .ok r

/-- A loop ends with the result its states stand for, when every turn that goes
on keeps the invariant and the result and lowers the measure. -/
theorem loop_eq_ok {body : σ → Checked (Turn σ ρ)} (inv : σ → Prop)
    (measure : σ → ℕ) (result : σ → ρ)
    (hturn : ∀ s, inv s → body s = .ok (.done (result s)) ∨
      ∃ s', body s = .ok (.next s') ∧ inv s' ∧ measure s' < measure s ∧
        result s' = result s)
    {s : σ} (hs : inv s) {turns : ℕ} (hturns : measure s < turns) :
    loop body turns s = .ok (result s) := by
  induction turns generalizing s with
  | zero => exact absurd hturns (Nat.not_lt_zero _)
  | succ turns ih =>
      rcases hturn s hs with hdone | ⟨s', hnext, hs', hlt, hresult⟩
      · rw [loop, hdone]
        rfl
      · rw [loop, hnext, ← hresult]
        exact ih hs' (by omega)

end Loops

end Panicking
