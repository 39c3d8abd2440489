/-
Tables of points read between the points.  The first window whose upper key is
not below the key decides; outside the table its end points do.
-/
import Mathlib

namespace LookupTable

universe u v

variable {α : Type u} {β : Type v} [LinearOrder α]

/-- The first two neighbours of which the upper is not below the key. -/
def window (x : α) : List (α × β) → Option ((α × β) × (α × β))
  | lo :: hi :: rest =>
      if x ≤ hi.1 then some (lo, hi) else window x (hi :: rest)
  | _ => none

/-- The value a table has at a key. -/
def read (between : α × β → α × β → α → β) (points : List (α × β))
    (hne : points ≠ []) (x : α) : β :=
  if x ≤ (points.head hne).1 then (points.head hne).2
  else if (points.getLast hne).1 ≤ x then (points.getLast hne).2
  else
    match window x points with
    | some w => between w.1 w.2 x
    | none => (points.getLast hne).2

theorem exists_window {x : α} {first : α × β} {rest : List (α × β)}
    (hfirst : first.1 < x)
    (hlast : x ≤ ((first :: rest).getLast (by simp)).1) :
    ∃ lo hi, window x (first :: rest) = some (lo, hi) := by
  induction rest generalizing first with
  | nil =>
      rw [List.getLast_singleton] at hlast
      exact absurd hlast (not_le.mpr hfirst)
  | cons hi rest ih =>
      by_cases hx : x ≤ hi.1
      · exact ⟨first, hi, if_pos hx⟩
      · rw [window, if_neg hx]
        exact ih (not_le.mp hx) hlast

/-- The key lies in its window, which lies in the table. -/
theorem window_spec {x : α} {first lo hi : α × β} {rest : List (α × β)}
    (hfirst : first.1 < x) (h : window x (first :: rest) = some (lo, hi)) :
    lo.1 < x ∧ x ≤ hi.1 ∧ lo ∈ first :: rest ∧ hi ∈ first :: rest := by
  induction rest generalizing first with
  | nil => cases h
  | cons b rest ih =>
      rw [window] at h
      split at h
      · rename_i hx
        cases h
        exact ⟨hfirst, hx, by simp, by simp⟩
      · rename_i hx
        obtain ⟨hlo, hhi, hmlo, hmhi⟩ := ih (not_le.mp hx) h
        exact ⟨hlo, hhi, List.mem_cons_of_mem _ hmlo,
          List.mem_cons_of_mem _ hmhi⟩

/-- A window stands in the table as it is. -/
theorem exists_split_of_window {x : α} {lo hi : α × β} {points : List (α × β)}
    (h : window x points = some (lo, hi)) :
    ∃ front back, points = front ++ lo :: hi :: back := by
  induction points with
  | nil => cases h
  | cons a rest ih =>
      cases rest with
      | nil => cases h
      | cons b rest =>
          rw [window] at h
          split at h
          · cases h
            exact ⟨[], rest, rfl⟩
          · obtain ⟨front, back, heq⟩ := ih h
            exact ⟨a :: front, back, by rw [heq, List.cons_append]⟩

theorem mem_of_window {x : α} {lo hi : α × β} {points : List (α × β)}
    (h : window x points = some (lo, hi)) : lo ∈ points := by
  obtain ⟨front, back, rfl⟩ := exists_split_of_window h
  exact List.mem_append_right front List.mem_cons_self

/-- The two ends of a window stand in the order of the table. -/
theorem window_rel {R : α × β → α × β → Prop} {x : α} {lo hi : α × β}
    {points : List (α × β)} (hR : points.Pairwise R)
    (h : window x points = some (lo, hi)) : R lo hi := by
  obtain ⟨front, back, rfl⟩ := exists_split_of_window h
  have hpair := (List.pairwise_append.mp hR).2.1
  exact (List.pairwise_cons.mp hpair).1 _ List.mem_cons_self

/-- The window of a greater key is the same, or starts where the other one ends
or later. -/
theorem window_eq_or_rel {R : α × β → α × β → Prop} (hrefl : ∀ p, R p p)
    {x y : α} (hxy : x ≤ y) {lo hi lo' hi' : α × β} {points : List (α × β)}
    (hR : points.Pairwise R) (hx : window x points = some (lo, hi))
    (hy : window y points = some (lo', hi')) :
    (lo = lo' ∧ hi = hi') ∨ R hi lo' := by
  induction points with
  | nil => cases hx
  | cons a rest ih =>
      cases rest with
      | nil => cases hx
      | cons b rest =>
          have htail := (List.pairwise_cons.mp hR).2
          rw [window] at hx hy
          by_cases hxb : x ≤ b.1
          · rw [if_pos hxb] at hx
            cases hx
            by_cases hyb : y ≤ hi.1
            · rw [if_pos hyb] at hy
              cases hy
              exact Or.inl ⟨rfl, rfl⟩
            · rw [if_neg hyb] at hy
              rcases List.mem_cons.mp (mem_of_window hy) with rfl | hmem
              · exact Or.inr (hrefl _)
              · exact Or.inr ((List.pairwise_cons.mp htail).1 _ hmem)
          · have hyb : ¬ y ≤ b.1 := fun hle => hxb (hxy.trans hle)
            rw [if_neg hxb] at hx
            rw [if_neg hyb] at hy
            exact ih htail hx hy

/-- Among distinct keys, the window of a point's key ends at the point. -/
theorem exists_window_of_mem {first p : α × β} {rest : List (α × β)}
    (hkeys : (first :: rest).Pairwise fun a b => a.1 < b.1) (hp : p ∈ rest) :
    ∃ lo, window p.1 (first :: rest) = some (lo, p) ∧ lo ∈ first :: rest ∧
      lo.1 < p.1 := by
  induction rest generalizing first with
  | nil => cases hp
  | cons b rest ih =>
      obtain ⟨hfirst, htail⟩ := List.pairwise_cons.mp hkeys
      rcases List.mem_cons.mp hp with rfl | hp
      · exact ⟨first, if_pos le_rfl, List.mem_cons_self,
          hfirst _ List.mem_cons_self⟩
      · have hb : b.1 < p.1 := (List.pairwise_cons.mp htail).1 p hp
        obtain ⟨lo, hlo, hmem, hlt⟩ := ih htail hp
        exact ⟨lo, by rw [window, if_neg (not_le.mpr hb), hlo],
          List.mem_cons_of_mem first hmem, hlt⟩

section Read

variable {between : α × β → α × β → α → β} {points : List (α × β)}
variable (hne : points ≠ [])

/-- Inside the table a window is always found, and its ends differ. -/
theorem exists_window_inside {x : α} (hfirst : (points.head hne).1 < x)
    (hlast : x < (points.getLast hne).1) :
    ∃ lo hi, window x points = some (lo, hi) ∧ lo.1 < x ∧ x ≤ hi.1 ∧
      lo ∈ points ∧ hi ∈ points := by
  cases points with
  | nil => contradiction
  | cons first rest =>
      rw [List.head_cons] at hfirst
      obtain ⟨lo, hi, hwindow⟩ := exists_window hfirst hlast.le
      exact ⟨lo, hi, hwindow, window_spec hfirst hwindow⟩

theorem read_of_le {x : α} (hfirst : x ≤ (points.head hne).1) :
    read between points hne x = (points.head hne).2 := if_pos hfirst

theorem read_of_ge {x : α} (hfirst : (points.head hne).1 < x)
    (hlast : (points.getLast hne).1 ≤ x) :
    read between points hne x = (points.getLast hne).2 := by
  rw [read, if_neg (not_le.mpr hfirst), if_pos hlast]

theorem read_of_window {x : α} {lo hi : α × β}
    (hfirst : (points.head hne).1 < x) (hlast : x < (points.getLast hne).1)
    (hwindow : window x points = some (lo, hi)) :
    read between points hne x = between lo hi x := by
  rw [read, if_neg (not_le.mpr hfirst), if_neg (not_le.mpr hlast), hwindow]

/-- What is read between two points of a table has to do with their values. -/
structure Bridges [Preorder β] (between : α × β → α × β → α → β)
    (points : List (α × β)) : Prop where
  upper : ∀ lo ∈ points, ∀ hi ∈ points, lo.1 < hi.1 →
    between lo hi hi.1 = hi.2
  lower : ∀ lo ∈ points, ∀ hi ∈ points, lo.2 ≤ hi.2 → ∀ x, lo.1 < x →
    x ≤ hi.1 → lo.2 ≤ between lo hi x
  mono : ∀ lo ∈ points, ∀ hi ∈ points, lo.2 ≤ hi.2 → ∀ x y, lo.1 < x →
    x ≤ y → y ≤ hi.1 → between lo hi x ≤ between lo hi y

variable [Preorder β]

/-- A table of ascending distinct keys goes through its points. -/
theorem read_of_mem (hbridges : Bridges between points)
    (hkeys : points.Pairwise fun a b => a.1 < b.1) {p : α × β}
    (hp : p ∈ points) : read between points hne p.1 = p.2 := by
  cases points with
  | nil => contradiction
  | cons first rest =>
      rcases List.mem_cons.mp hp with rfl | hrest
      · exact read_of_le hne le_rfl
      · have hlt : first.1 < p.1 := (List.pairwise_cons.mp hkeys).1 p hrest
        by_cases hlast : ((first :: rest).getLast hne).1 ≤ p.1
        · -- a point that is not below the last one is the last one
          have hp_eq : p = (first :: rest).getLast hne := by
            have hsplit := hp
            rw [← List.dropLast_concat_getLast hne, List.mem_append,
              List.mem_singleton] at hsplit
            rcases hsplit with hfront | hself
            · exact absurd (hkeys.rel_dropLast_getLast hfront)
                (not_lt.mpr hlast)
            · exact hself
          rw [read_of_ge hne hlt hlast, ← hp_eq]
        · obtain ⟨lo, hwindow, hlo, hlop⟩ := exists_window_of_mem hkeys hrest
          rw [read_of_window hne hlt (not_le.mp hlast) hwindow]
          exact hbridges.upper lo hlo p hp hlop

section Ascending

variable (hbridges : Bridges between points)
variable (hvalues : points.Pairwise fun a b => a.2 ≤ b.2)

include hbridges hvalues

theorem between_le_upper {x : α} {lo hi : α × β}
    (hwindow : window x points = some (lo, hi)) (hlo : lo ∈ points)
    (hhi : hi ∈ points) (hx : lo.1 < x) (hx' : x ≤ hi.1) :
    between lo hi x ≤ hi.2 := by
  have hrel := window_rel hvalues hwindow
  have hmono := hbridges.mono lo hlo hi hhi hrel x hi.1 hx hx' le_rfl
  rwa [hbridges.upper lo hlo hi hhi (hx.trans_le hx')] at hmono

/-- With ascending values nothing is read outside the first and the last one. -/
theorem read_mem_Icc (x : α) :
    (points.head hne).2 ≤ read between points hne x ∧
      read between points hne x ≤ (points.getLast hne).2 := by
  have hends : (points.head hne).2 ≤ (points.getLast hne).2 :=
    hvalues.rel_head_of_rel_head_head (List.getLast_mem hne) le_rfl
  rcases le_or_gt x (points.head hne).1 with hfirst | hfirst
  · rw [read_of_le hne hfirst]
    exact ⟨le_rfl, hends⟩
  · rcases le_or_gt (points.getLast hne).1 x with hlast | hlast
    · rw [read_of_ge hne hfirst hlast]
      exact ⟨hends, le_rfl⟩
    · obtain ⟨lo, hi, hwindow, hx, hx', hlo, hhi⟩ :=
        exists_window_inside hne hfirst hlast
      have hrel := window_rel hvalues hwindow
      rw [read_of_window hne hfirst hlast hwindow]
      constructor
      · exact le_trans (hvalues.rel_head_of_rel_head_head hlo le_rfl)
          (hbridges.lower lo hlo hi hhi hrel x hx hx')
      · exact le_trans
          (between_le_upper hbridges hvalues hwindow hlo hhi hx hx')
          (hvalues.rel_getLast_of_rel_getLast_getLast hhi le_rfl)

/-- With ascending values reading is monotone. -/
theorem read_mono : Monotone (read between points hne) := by
  intro x y hxy
  rcases le_or_gt x (points.head hne).1 with hfirst | hfirst
  · rw [read_of_le hne hfirst]
    exact (read_mem_Icc hne hbridges hvalues y).1
  · have hfirst' := hfirst.trans_le hxy
    rcases le_or_gt (points.getLast hne).1 y with hlast | hlast
    · rw [read_of_ge hne hfirst' hlast]
      exact (read_mem_Icc hne hbridges hvalues x).2
    · have hlast' := hxy.trans_lt hlast
      obtain ⟨lo, hi, hwindow, hx, hx', hlo, hhi⟩ :=
        exists_window_inside hne hfirst hlast'
      obtain ⟨lo', hi', hwindow', hy, hy', hlo', hhi'⟩ :=
        exists_window_inside hne hfirst' hlast
      rw [read_of_window hne hfirst hlast' hwindow,
        read_of_window hne hfirst' hlast hwindow']
      rcases window_eq_or_rel (R := fun a b => a.2 ≤ b.2) (fun _ => le_rfl)
        hxy hvalues hwindow hwindow' with ⟨rfl, rfl⟩ | hrel
      · exact hbridges.mono lo hlo hi hhi (window_rel hvalues hwindow) x y hx
          hxy hy'
      · -- the windows differ: between them lie the ends hi and lo'
        calc between lo hi x
            ≤ hi.2 := between_le_upper hbridges hvalues hwindow hlo hhi hx hx'
          _ ≤ lo'.2 := hrel
          _ ≤ between lo' hi' y := hbridges.lower lo' hlo' hi' hhi'
              (window_rel hvalues hwindow') y hy hy'

end Ascending

end Read

end LookupTable
