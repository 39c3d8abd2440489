/-
A conversation with one announcement: each item gets its reply, and at the first
pause at which it is due an announcement is made, once.
-/
import Mathlib

namespace Interlude

universe u v w

variable {α : Type u} {β : Type v} {γ : Type w}

/-- An item to reply to, or a pause in which there is time to announce. -/
inductive Event (α : Type u) (γ : Type w) where
  | item (a : α)
  | pause (c : γ)

/-- The items among events. -/
def items : List (Event α γ) → List α
  | [] => []
  | .item a :: es => a :: items es
  | .pause _ :: es => items es

/-- What had been heard at each pause, after `heard` had been heard before. -/
def pauses (heard : List α) : List (Event α γ) → List (List α × γ)
  | [] => []
  | .item a :: es => pauses (heard ++ [a]) es
  | .pause c :: es => (heard, c) :: pauses heard es

theorem items_append (xs ys : List (Event α γ)) :
    items (xs ++ ys) = items xs ++ items ys := by
  induction xs with
  | nil => rfl
  | cons e es ih =>
      cases e with
      | item a => rw [List.cons_append, items, items, ih, List.cons_append]
      | pause c => rw [List.cons_append, items, items, ih]

theorem items_map_item (as : List α) :
    items (as.map (Event.item (γ := γ))) = as := by
  induction as with
  | nil => rfl
  | cons a as ih => rw [List.map_cons, items, ih]

section Output

variable (reply : α → List β) (due : List α → Bool)
  (announce : List α → γ → List β)

/-- What is said, when `heard` has been heard and the announcement may have been
made already. -/
def output (heard : List α) (made : Bool) : List (Event α γ) → List β
  | [] => []
  | .item a :: es => reply a ++ output (heard ++ [a]) made es
  | .pause c :: es =>
      if !made && due heard then announce heard c ++ output heard true es
      else output heard made es

/-- The first pause at which the announcement is due. -/
def occasion (heard : List α) (es : List (Event α γ)) : Option (List α × γ) :=
  (pauses heard es).find? fun p => due p.1

/-- After the announcement there are only replies. -/
theorem output_made (heard : List α) (es : List (Event α γ)) :
    output reply due announce heard true es = (items es).flatMap reply := by
  induction es generalizing heard with
  | nil => rfl
  | cons e es ih =>
      cases e with
      | item a => rw [output, items, List.flatMap_cons, ih]
      | pause c =>
          rw [output, items, Bool.not_true, Bool.false_and, if_neg (by simp), ih]

/-- Without an occasion there are only replies. -/
theorem output_of_no_occasion {heard : List α} {es : List (Event α γ)}
    (h : occasion due heard es = none) :
    output reply due announce heard false es = (items es).flatMap reply := by
  induction es generalizing heard with
  | nil => rfl
  | cons e es ih =>
      cases e with
      | item a => rw [output, items, List.flatMap_cons, ih h]
      | pause c =>
          rw [occasion, pauses, List.find?_cons] at h
          split at h
          · cases h
          · rename_i hdue
            rw [output, items, hdue, Bool.and_false, if_neg (by simp), ih h]

/-- The announcement comes at the occasion, between the replies to what had been
heard before and the replies to the rest. -/
theorem output_of_occasion {heard done : List α} {c : γ}
    {es : List (Event α γ)} (h : occasion due heard es = some (done, c)) :
    due done = true ∧ ∃ before after, items es = before ++ after ∧
      done = heard ++ before ∧
      output reply due announce heard false es =
        before.flatMap reply ++ announce done c ++ after.flatMap reply := by
  induction es generalizing heard with
  | nil => cases h
  | cons e es ih =>
      cases e with
      | item a =>
          obtain ⟨hdue, before, after, hitems, hdone, hout⟩ := ih h
          refine ⟨hdue, a :: before, after, ?_, ?_, ?_⟩
          · rw [items, hitems, List.cons_append]
          · rw [hdone, List.append_assoc, List.singleton_append]
          · rw [output, hout, List.flatMap_cons]
            simp only [List.append_assoc]
      | pause c' =>
          rw [occasion, pauses, List.find?_cons] at h
          split at h
          · rename_i hdue
            cases h
            refine ⟨hdue, [], items es, rfl, (List.append_nil _).symm, ?_⟩
            rw [output, hdue, Bool.not_false, Bool.true_and, if_pos rfl,
              output_made]
            rfl
          · rename_i hdue
            obtain ⟨hdone, before, after, hitems, heq, hout⟩ := ih h
            refine ⟨hdone, before, after, hitems, heq, ?_⟩
            rw [output, hdue, Bool.and_false, if_neg (by simp), hout]

end Output

section Machine

variable {σ : Type*} {ε : Type*} (step : σ → ε → σ × List β)

/-- What a machine says while it takes events. -/
def said (s : σ) : List ε → List β
  | [] => []
  | e :: es => (step s e).2 ++ said (step s e).1 es

variable {step} {reply : α → List β} {due : List α → Bool}
  {announce : List α → γ → List β} {view : ε → Event α γ}

/-- A machine that keeps track of what it has heard, replies to each item and
announces when due says just that. -/
theorem said_eq_output (tracks : List α → Bool → σ → Prop)
    (hitem : ∀ {heard made s e a}, tracks heard made s → view e = .item a →
      tracks (heard ++ [a]) made (step s e).1 ∧ (step s e).2 = reply a)
    (hpause : ∀ {heard made s e c}, tracks heard made s → view e = .pause c →
      tracks heard (made || due heard) (step s e).1 ∧
        (step s e).2 =
          if !made && due heard then announce heard c else [])
    {heard : List α} {made : Bool} {s : σ} (h : tracks heard made s)
    (es : List ε) :
    said step s es = output reply due announce heard made (es.map view) := by
  induction es generalizing heard made s with
  | nil => rfl
  | cons e es ih =>
      cases hview : view e with
      | item a =>
          obtain ⟨htracks, hout⟩ := hitem h hview
          rw [said, List.map_cons, hview, output, hout, ih htracks]
      | pause c =>
          obtain ⟨htracks, hout⟩ := hpause h hview
          rw [said, List.map_cons, hview, output, hout, ih htracks]
          cases made with
          | true => simp
          | false =>
              cases hdue : due heard with
              | true => simp
              | false => simp

end Machine

end Interlude
