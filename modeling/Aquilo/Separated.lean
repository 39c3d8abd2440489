/-
Text cut at separators.  Cutting and dropping the empty segments sees nothing of
the separators at the two ends; stripping these first and keeping the empty
segments tells where one is missing in the middle.
-/
import Mathlib

namespace Separated

universe u

variable {α : Type u} (p : α → Bool)

/-- The nonempty segments between separators. -/
def pieces (l : List α) : List (List α) := (l.splitOnP p).filter (· ≠ [])

/-- The separators at both ends taken off. -/
def strip (l : List α) : List α :=
  ((l.dropWhile p).reverse.dropWhile p).reverse

/-- All segments, empty ones included, between the outermost symbols that are no
separators. -/
def segments (l : List α) : List (List α) := (strip p l).splitOnP p

variable {p}

theorem pieces_append_cons (xs ys : List α) {sep : α} (hsep : p sep = true) :
    pieces p (xs ++ sep :: ys) = pieces p xs ++ pieces p ys := by
  rw [pieces, List.splitOnP_append_cons xs ys hsep, List.filter_append]
  rfl

theorem pieces_nil : pieces p [] = [] := rfl

theorem pieces_cons {sep : α} (hsep : p sep = true) (l : List α) :
    pieces p (sep :: l) = pieces p l := by
  have h := pieces_append_cons [] l hsep
  rwa [pieces_nil, List.nil_append, List.nil_append] at h

theorem pieces_concat {sep : α} (hsep : p sep = true) (l : List α) :
    pieces p (l ++ [sep]) = pieces p l := by
  rw [pieces_append_cons l [] hsep, pieces_nil, List.append_nil]

/-- A run of separators in front is not seen. -/
theorem pieces_append_left {seps : List α} (hseps : ∀ c ∈ seps, p c = true)
    (l : List α) : pieces p (seps ++ l) = pieces p l := by
  induction seps with
  | nil => rfl
  | cons sep seps ih =>
      rw [List.cons_append, pieces_cons (hseps sep List.mem_cons_self),
        ih fun c hc => hseps c (List.mem_cons_of_mem sep hc)]

/-- Nor one behind. -/
theorem pieces_append_right {seps : List α} (hseps : ∀ c ∈ seps, p c = true)
    (l : List α) : pieces p (l ++ seps) = pieces p l := by
  induction seps using List.reverseRecOn with
  | nil => rw [List.append_nil]
  | append_singleton seps sep ih =>
      rw [← List.append_assoc, pieces_concat (hseps sep (by simp)),
        ih fun c hc => hseps c (List.mem_append_left [sep] hc)]

/-- What stripping takes off is separators only. -/
theorem exists_strip (l : List α) :
    ∃ front back, l = front ++ strip p l ++ back ∧
      (∀ c ∈ front, p c = true) ∧ ∀ c ∈ back, p c = true := by
  refine ⟨l.takeWhile p, ((l.dropWhile p).reverse.takeWhile p).reverse,
    ?_, fun c hc => List.mem_takeWhile_imp hc, fun c hc =>
      List.mem_takeWhile_imp (List.mem_reverse.mp hc)⟩
  rw [List.append_assoc, strip, ← List.reverse_append,
    List.takeWhile_append_dropWhile, List.reverse_reverse,
    List.takeWhile_append_dropWhile]

theorem pieces_strip (l : List α) : pieces p (strip p l) = pieces p l := by
  obtain ⟨front, back, heq, hfront, hback⟩ := exists_strip (p := p) l
  conv_rhs => rw [heq]
  rw [pieces_append_right hback, pieces_append_left hfront]

/-- Pieces and segments differ in the empty ones only. -/
theorem pieces_eq_filter_segments (l : List α) :
    pieces p l = (segments p l).filter (· ≠ []) := by
  rw [← pieces_strip]
  rfl

theorem pieces_eq_segments {l : List α} (h : [] ∉ segments p l) :
    pieces p l = segments p l := by
  rw [pieces_eq_filter_segments, List.filter_eq_self]
  intro seg hseg
  rw [decide_eq_true_eq]
  exact fun hnil => h (hnil ▸ hseg)

theorem ne_nil_of_mem_pieces {l seg : List α} (h : seg ∈ pieces p l) :
    seg ≠ [] := by
  have hne := (List.mem_filter.mp h).2
  exact of_decide_eq_true hne

/-- No segment holds a separator. -/
theorem not_sep_of_mem_splitOnP {l seg : List α} (h : seg ∈ l.splitOnP p) :
    ∀ c ∈ seg, p c = false := by
  induction l generalizing seg with
  | nil =>
      rw [List.splitOnP_nil, List.mem_singleton] at h
      simp [h]
  | cons a l ih =>
      rw [List.splitOnP_cons_eq_if_modifyHead] at h
      split at h
      · rcases List.mem_cons.mp h with rfl | h
        · simp
        · exact ih h
      · rename_i ha
        cases hsegs : l.splitOnP p with
        | nil => exact absurd hsegs (List.splitOnP_ne_nil p l)
        | cons head tail =>
            rw [hsegs] at ih h
            rw [List.modifyHead_cons] at h
            rcases List.mem_cons.mp h with rfl | h
            · intro c hc
              rcases List.mem_cons.mp hc with rfl | hc
              · exact Bool.not_eq_true _ ▸ ha
              · exact ih List.mem_cons_self c hc
            · exact ih (List.mem_cons_of_mem head h)

theorem not_sep_of_mem_pieces {l seg : List α} (h : seg ∈ pieces p l) :
    ∀ c ∈ seg, p c = false :=
  not_sep_of_mem_splitOnP (List.mem_filter.mp h).1

/-- Text without separators is its only piece. -/
theorem pieces_of_not_sep {l : List α} (hne : l ≠ [])
    (h : ∀ c ∈ l, p c = false) : pieces p l = [l] := by
  rw [pieces, List.splitOnP_eq_singleton h]
  simp [hne]

/-- Nonempty parts joined by a separator are the pieces. -/
theorem pieces_intercalate [DecidableEq α] {sep : α} {parts : List (List α)}
    (hne : ∀ part ∈ parts, part ≠ []) (hsep : ∀ part ∈ parts, sep ∉ part) :
    pieces (· == sep) ([sep].intercalate parts) = parts := by
  cases parts with
  | nil => rfl
  | cons part parts =>
      rw [pieces, ← List.splitOn_eq_splitOnP,
        List.splitOn_intercalate sep hsep (by simp), List.filter_eq_self]
      intro seg hseg
      exact decide_eq_true (hne seg hseg)

end Separated
