/-
Structures read field by field, from keyed entries or from a sequence.  A known
key may stand once, an unknown one is passed over, and what is absent may have a
default.
-/
import Mathlib

namespace DerivedStruct

universe u v

variable {V : Type u} {α : Type v}

/-- What a structure is read from. -/
inductive Layout (V : Type u) where
  | keyed (entries : List (String × V))
  | positional (items : List V)

/-- The values that stand under a key. -/
def under (key : String) (entries : List (String × V)) : List V :=
  (entries.filter fun e => e.1 = key).map Prod.snd

/-- A field: its key, how its value is read, what it is when its key is absent,
and what it is when a sequence ends before it. -/
structure Field (V : Type u) (α : Type v) where
  key : String
  read : V → Option α
  absent : Option α
  short : Option α

def Field.required (key : String) (read : V → Option α) : Field V α where
  key := key
  read := read
  absent := none
  short := none

def Field.defaulted (key : String) (read : V → Option α) (default : α) :
    Field V α where
  key := key
  read := read
  absent := some default
  short := some default

/-- A field without a default whose value may be missing: it is missing when its
key is absent, but a sequence has to reach it. -/
def Field.optional (key : String) (read : V → Option (Option α)) :
    Field V (Option α) where
  key := key
  read := read
  absent := some none
  short := none

namespace Field

variable (f : Field V α)

/-- The field at a position of its structure. -/
def get (i : ℕ) : Layout V → Option α
  | .keyed entries =>
      match under f.key entries with
      | [] => f.absent
      | [v] => f.read v
      | _ :: _ :: _ => none
  | .positional items =>
      match items[i]? with
      | some v => f.read v
      | none => f.short

end Field

/-- A sequence has no more items than there are fields. -/
def Layout.Fits (n : ℕ) : Layout V → Prop
  | .keyed _ => True
  | .positional items => items.length ≤ n

instance (n : ℕ) (l : Layout V) : Decidable (l.Fits n) :=
  match l with
  | .keyed _ => inferInstanceAs (Decidable True)
  | .positional items => inferInstanceAs (Decidable (items.length ≤ n))

section Keyed

variable {key : String} {entries entries' : List (String × V)}

@[simp] theorem under_nil : under key ([] : List (String × V)) = [] := rfl

@[simp] theorem under_cons (k : String) (v : V) :
    under key ((k, v) :: entries) =
      (if k = key then [v] else []) ++ under key entries := by
  rw [under, under, List.filter_cons]
  by_cases h : k = key <;> simp [h]

theorem under_append :
    under key (entries ++ entries') = under key entries ++ under key entries' := by
  rw [under, under, under, List.filter_append, List.map_append]

theorem under_eq_nil (h : ∀ e ∈ entries, e.1 ≠ key) : under key entries = [] := by
  rw [under, List.filter_eq_nil_iff.mpr (by simpa using h), List.map_nil]

theorem under_perm (h : entries.Perm entries') :
    (under key entries).Perm (under key entries') :=
  (h.filter _).map _

/-- Dropping other keys leaves what stands under this one. -/
theorem under_filter (kept : String → Bool) :
    under key (entries.filter fun e => kept e.1) =
      if kept key then under key entries else [] := by
  induction entries with
  | nil => simp
  | cons e rest ih =>
      obtain ⟨k, v⟩ := e
      by_cases hk : k = key
      · subst hk
        by_cases hkept : kept k = true
        · simp [hkept, ih]
        · simp [hkept, ih]
      · by_cases hkept : kept k = true
        · simp [hkept, hk, ih]
        · simp [hkept, hk, ih]

/-- Some of the known entries, in any order and among others whose keys are
unknown. -/
def Rearranges (known : List (String × V)) (kept : String → Bool)
    (entries : List (String × V)) : Prop :=
  ∃ extra, entries.Perm (known.filter (fun e => kept e.1) ++ extra) ∧
    ∀ e ∈ extra, e.1 ∉ known.map Prod.fst

theorem rearranges_self (known : List (String × V)) :
    Rearranges known (fun _ => true) known :=
  ⟨[], by simp, by simp⟩

theorem under_ne_nil (h : under key entries ≠ []) : key ∈ entries.map Prod.fst := by
  by_contra hkey
  apply h
  apply under_eq_nil
  rintro e he rfl
  exact hkey (List.mem_map_of_mem he)

/-- What stands under a known key stays, or is gone. -/
theorem Rearranges.under {known : List (String × V)} {kept : String → Bool} {v : V}
    (h : Rearranges known kept entries) (hkey : DerivedStruct.under key known = [v]) :
    DerivedStruct.under key entries = if kept key then [v] else [] := by
  obtain ⟨extra, hperm, hextra⟩ := h
  have hknown : key ∈ known.map Prod.fst := under_ne_nil (by simp [hkey])
  have hnil : DerivedStruct.under key extra = [] := by
    apply under_eq_nil
    rintro e he rfl
    exact hextra e he hknown
  have hentries : (DerivedStruct.under key entries).Perm _ := under_perm hperm
  rw [under_append, under_filter, hkey, hnil, List.append_nil] at hentries
  split at hentries
  · rename_i hkept
    rw [if_pos hkept]
    exact List.perm_singleton.mp hentries
  · rename_i hkept
    rw [if_neg hkept]
    exact List.perm_nil.mp hentries

theorem Field.get_of_rearranges {f : Field V α} {known : List (String × V)}
    {kept : String → Bool} {v : V} {a : α} (h : Rearranges known kept entries)
    (hkey : DerivedStruct.under f.key known = [v]) (hread : f.read v = some a)
    (i : ℕ) : f.get i (.keyed entries) = if kept f.key then some a else f.absent := by
  rw [Field.get, h.under hkey]
  cases kept f.key with
  | true => exact hread
  | false => rfl

/-- A field with a default is what was written, or its default. -/
theorem Field.get_defaulted {read : V → Option α} {default : α}
    {known : List (String × V)} {kept : String → Bool} {v : V} {a : α}
    (h : Rearranges known kept entries) (hkey : DerivedStruct.under key known = [v])
    (hread : read v = some a) (i : ℕ) :
    (Field.defaulted key read default).get i (.keyed entries) =
      some (if kept key then a else default) := by
  rw [Field.get_of_rearranges h hkey hread i]
  exact (apply_ite some _ _ _).symm

/-- A field is read from a value, or is what it is when absent. -/
theorem Field.get_eq_some {f : Field V α} {i : ℕ} {l : Layout V} {a : α}
    (h : f.get i l = some a) :
    (∃ v, f.read v = some a) ∨ f.absent = some a ∨ f.short = some a := by
  cases l with
  | keyed entries =>
      rw [Field.get] at h
      split at h
      · exact Or.inr (Or.inl h)
      · exact Or.inl ⟨_, h⟩
      · cases h
  | positional items =>
      rw [Field.get] at h
      split at h
      · exact Or.inl ⟨_, h⟩
      · exact Or.inr (Or.inr h)

theorem Field.get_required {read : V → Option α} {i : ℕ} {l : Layout V} {a : α}
    (h : (Field.required key read).get i l = some a) : ∃ v, read v = some a := by
  rcases Field.get_eq_some h with hread | habsent | hshort
  · exact hread
  · cases habsent
  · cases hshort

/-- A known key that stands twice is refused. -/
theorem Field.get_of_duplicate {f : Field V α} {v v' : V} {rest : List V}
    (h : DerivedStruct.under f.key entries = v :: v' :: rest) (i : ℕ) :
    f.get i (.keyed entries) = none := by
  rw [Field.get, h]

end Keyed

end DerivedStruct
