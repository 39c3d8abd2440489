/-
A rolling window: append, then drop the oldest past a cap.  Folded over a
nonempty list it is the tail of everything ever seen.
-/
import Mathlib

namespace RollingWindow

universe u

variable {α : Type u}

def push (cap : ℕ) (window : List α) (x : α) : List α :=
  (window ++ [x]).rtake cap

def pushAll (cap : ℕ) (window xs : List α) : List α :=
  xs.foldl (push cap) window

theorem rtake_eq_self {n : ℕ} {xs : List α} (h : xs.length ≤ n) :
    xs.rtake n = xs := by
  rw [List.rtake, Nat.sub_eq_zero_of_le h, List.drop_zero]

theorem length_rtake (n : ℕ) (xs : List α) :
    (xs.rtake n).length = min n xs.length := by
  rw [List.rtake, List.length_drop]
  omega

/-- What was cut from the front before an append stays cut after it. -/
theorem rtake_rtake_append (n : ℕ) (xs ys : List α) :
    (xs.rtake n ++ ys).rtake n = (xs ++ ys).rtake n := by
  simp only [List.rtake_eq_reverse_take_reverse, List.reverse_append,
    List.reverse_reverse, List.take_append, List.take_take]
  congr 3
  omega

/-- A cap that reaches past the appended part cuts only the older part. -/
theorem rtake_append_of_length_le {n : ℕ} {xs ys : List α}
    (h : ys.length ≤ n) :
    (xs ++ ys).rtake n = xs.rtake (n - ys.length) ++ ys := by
  rw [List.rtake, List.rtake, List.length_append, List.drop_append]
  have hfront : xs.length + ys.length - n = xs.length - (n - ys.length) := by
    omega
  have hback : xs.length - (n - ys.length) - xs.length = 0 := by omega
  rw [hfront, hback, List.drop_zero]

/-- A cap within the appended part drops all of the older part. -/
theorem rtake_append_of_le_length {n : ℕ} {xs ys : List α}
    (h : n ≤ ys.length) : (xs ++ ys).rtake n = ys.rtake n := by
  have hfront : xs.drop (xs.length + ys.length - n) = [] :=
    List.drop_eq_nil_iff.mpr (by omega)
  have hback : xs.length + ys.length - n - xs.length = ys.length - n := by omega
  rw [List.rtake, List.rtake, List.length_append, List.drop_append, hfront, hback,
    List.nil_append]

theorem rtake_append_length (xs ys : List α) :
    (xs ++ ys).rtake ys.length = ys := by
  rw [rtake_append_of_length_le le_rfl, Nat.sub_self, List.rtake_zero,
    List.nil_append]

theorem rtake_replicate (n k : ℕ) (x : α) :
    (List.replicate k x).rtake n = List.replicate (min n k) x := by
  rw [List.rtake, List.length_replicate, List.drop_replicate]
  congr 1
  omega

theorem pushAll_concat (cap : ℕ) (window xs : List α) (x : α) :
    pushAll cap window (xs ++ [x]) = push cap (pushAll cap window xs) x := by
  simp [pushAll]

/-- The window after a nonempty fold. -/
theorem pushAll_eq_rtake (cap : ℕ) (window : List α) {xs : List α}
    (hne : xs ≠ []) : pushAll cap window xs = (window ++ xs).rtake cap := by
  induction xs using List.reverseRecOn with
  | nil => contradiction
  | append_singleton pre x ih =>
      rw [pushAll_concat, push]
      by_cases hpre : pre = []
      · subst hpre
        rfl
      · rw [ih hpre, rtake_rtake_append, List.append_assoc]

end RollingWindow
