/-
Values taken of a growing log: each was computed from some prefix of it, and none
from a shorter prefix than one taken before.
-/
import Mathlib.Data.List.Basic
import Mathlib.Data.List.Sublists

universe u v

variable {α : Type u} {β : Type v}

def FromPrefixes (f : List α → β) (log : List α) (xs : List β) : Prop :=
  ∃ marks : List ℕ, marks.Pairwise (· ≤ ·) ∧ (∀ n ∈ marks, n ≤ log.length) ∧
    xs = marks.map fun n => f (log.take n)

namespace FromPrefixes

variable {f : List α → β} {log : List α} {xs ys : List β}

theorem nil (f : List α → β) (log : List α) : FromPrefixes f log [] :=
  ⟨[], List.Pairwise.nil, by simp, rfl⟩

/-- A longer log has all the prefixes of a shorter one. -/
theorem extend (h : FromPrefixes f log xs) (more : List α) :
    FromPrefixes f (log ++ more) xs := by
  obtain ⟨marks, hsorted, hbound, rfl⟩ := h
  refine ⟨marks, hsorted, fun n hn => ?_, ?_⟩
  · rw [List.length_append]
    exact (hbound n hn).trans (Nat.le_add_right _ _)
  · apply List.map_congr_left
    intro n hn
    rw [List.take_append_of_le_length (hbound n hn)]

/-- The value of the whole log may always be taken. -/
theorem concat (h : FromPrefixes f log xs) :
    FromPrefixes f log (xs ++ [f log]) := by
  obtain ⟨marks, hsorted, hbound, rfl⟩ := h
  refine ⟨marks ++ [log.length], ?_, ?_, ?_⟩
  · rw [List.pairwise_append]
    refine ⟨hsorted, List.pairwise_singleton _ _, fun n hn m hm => ?_⟩
    rw [List.mem_singleton.mp hm]
    exact hbound n hn
  · intro n hn
    rcases List.mem_append.mp hn with hn | hn
    · exact hbound n hn
    · exact (List.mem_singleton.mp hn).le
  · rw [List.map_append, List.map_singleton, List.take_length]

/-- Leaving values out keeps the order of the rest. -/
theorem sublist (h : FromPrefixes f log ys) (hsub : xs.Sublist ys) :
    FromPrefixes f log xs := by
  obtain ⟨marks, hsorted, hbound, rfl⟩ := h
  obtain ⟨marks', hmarks, rfl⟩ := List.sublist_map_iff.mp hsub
  exact ⟨marks', hsorted.sublist hmarks, fun n hn => hbound n (hmarks.subset hn),
    rfl⟩

end FromPrefixes
