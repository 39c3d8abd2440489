/-
First-come collection: a slot keeps the first value offered to it.
-/
import Mathlib

namespace FirstCome

universe u v w

variable {α : Type u} {β : Type v} {σ : Type w}

/-- A slot of a folded state that takes what each item offers, unless it is
already filled, ends up with the first offer. -/
theorem slot_foldl {step : σ → α → σ} {slot : σ → Option β}
    {offer : α → Option β}
    (hstep : ∀ s x, slot (step s x) = (slot s).or (offer x))
    (s : σ) (items : List α) :
    slot (items.foldl step s) = (slot s).or (items.findSome? offer) := by
  induction items generalizing s with
  | nil => simp
  | cons x rest ih =>
      rw [List.foldl_cons, ih, hstep, Option.or_assoc, List.findSome?_cons]
      cases offer x <;> rfl

/-- A filled slot is kept by whatever follows. -/
theorem slot_foldl_of_some {step : σ → α → σ} {slot : σ → Option β}
    {offer : α → Option β}
    (hstep : ∀ s x, slot (step s x) = (slot s).or (offer x)) {s : σ} {b : β}
    (hs : slot s = some b) (items : List α) :
    slot (items.foldl step s) = some b := by
  rw [slot_foldl hstep, hs, Option.some_or]

/-- Later items do not change a first offer. -/
theorem findSome?_of_prefix {offer : α → Option β} {pre items : List α}
    {b : β} (hpre : pre <+: items) (h : pre.findSome? offer = some b) :
    items.findSome? offer = some b := by
  obtain ⟨rest, rfl⟩ := hpre
  rw [List.findSome?_append, h, Option.some_or]

/-- First offers among the items that are of a kind. -/
theorem findSome?_filterMap {γ : Type w} (kind : α → Option β)
    (offer : β → Option γ) (items : List α) :
    (items.filterMap kind).findSome? offer =
      items.findSome? fun x => (kind x).bind offer := by
  induction items with
  | nil => rfl
  | cons x rest ih =>
      cases h : kind x with
      | none => simp [h, ih]
      | some b => simp [h, ih, List.findSome?_cons]

end FirstCome
