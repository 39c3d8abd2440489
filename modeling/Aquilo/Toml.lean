/-
Documents of TOML with bare keys, tables, comments, basic strings and decimal
numbers, and what a document written line by line reads back as.
-/
import Aquilo.DecimalText
import Aquilo.ExactFloat
import Aquilo.TomlString

namespace Toml

open DecimalText

inductive Value where
  | str (s : List Char)
  | num (n : Number)
deriving DecidableEq, Repr

inductive Statement where
  | header (table : List Char)
  | entry (key : List Char) (value : Value)
deriving DecidableEq, Repr

def isBlank (c : Char) : Bool := c = ' ' || c = '\t'

def skipSpace (s : List Char) : List Char := s.dropWhile isBlank

def isBare (c : Char) : Bool := c.isAlphanum || c = '_' || c = '-'

/-- Characters of a comment. -/
def isCommentChar (c : Char) : Bool :=
  c = '\t' || (0x20 ≤ c.toNat && c.toNat ≠ 0x7F)

/-- A bare key and what follows it. -/
def bareKey (s : List Char) : Option (List Char × List Char) :=
  if s.takeWhile isBare = [] then none
  else some (s.takeWhile isBare, s.dropWhile isBare)

/-- An integer has to fit 64 bits. -/
def numberValue (s : List Char) : Option Value :=
  match readNumber s with
  | some (.int n) =>
      if ExactFloat.InI64 n then some (.num (.int n)) else none
  | some (.float q) => some (.num (.float q))
  | none => none

def value : List Char → Option (Value × List Char)
  | '"' :: s => (quoted s).map fun (v, rest) => (.str v, rest)
  | s => (numberValue (s.takeWhile isNumberChar)).map fun v =>
      (v, s.dropWhile isNumberChar)

/-- The next line, after nothing but a comment. -/
def endOfLine (s : List Char) : Option (List Char) :=
  match skipSpace s with
  | [] => some []
  | '#' :: comment =>
      match comment.dropWhile isCommentChar with
      | [] => some []
      | s => newline? s
  | s => newline? s

/-- A table header or an entry. -/
def statement : List Char → Option (Statement × List Char)
  | '[' :: s => do
      let (table, s) ← bareKey (skipSpace s)
      match skipSpace s with
      | ']' :: s => return (.header table, s)
      | _ => none
  | s => do
      let (key, s) ← bareKey s
      match skipSpace s with
      | '=' :: s =>
          let (v, s) ← value (skipSpace s)
          return (.entry key v, s)
      | _ => none

/-- A line, blank or with a statement, and the lines after it. -/
def line (s : List Char) : Option (Option Statement × List Char) :=
  match endOfLine s with
  | some rest => some (none, rest)
  | none => do
      let (st, s) ← statement (skipSpace s)
      let rest ← endOfLine s
      return (some st, rest)

theorem skipSpace_length_le (s : List Char) : (skipSpace s).length ≤ s.length :=
  (List.dropWhile_suffix isBlank).length_le

theorem newline?_length {s rest : List Char} (h : newline? s = some rest) :
    rest.length < s.length := by
  obtain ⟨w, rfl, -, hne⟩ := newline?_eq_some h
  have := List.length_pos_iff.mpr hne
  rw [List.length_append]
  omega

theorem endOfLine_length {s rest : List Char} (h : endOfLine s = some rest)
    (hs : s ≠ []) : rest.length < s.length := by
  have hspace := skipSpace_length_le s
  have hpos := List.length_pos_iff.mpr hs
  simp only [endOfLine] at h
  split at h
  · cases h
    exact hpos
  · rename_i comment heq
    rw [heq, List.length_cons] at hspace
    have hdrop := (List.dropWhile_suffix (l := comment) isCommentChar).length_le
    split at h
    · cases h
      exact hpos
    · have := newline?_length h
      omega
  · have := newline?_length h
    omega

theorem bareKey_length {s key rest : List Char}
    (h : bareKey s = some (key, rest)) : rest.length < s.length := by
  rw [bareKey] at h
  split at h
  · cases h
  · rename_i hne
    cases h
    have hsplit := congrArg List.length
      (List.takeWhile_append_dropWhile (p := isBare) (l := s))
    have := List.length_pos_iff.mpr hne
    rw [List.length_append] at hsplit
    omega

theorem value_length {s rest : List Char} {v : Value}
    (h : value s = some (v, rest)) : rest.length ≤ s.length := by
  unfold value at h
  split at h
  · obtain ⟨⟨text, tail⟩, hquoted, heq⟩ := Option.map_eq_some_iff.mp h
    cases heq
    have := quoted_length hquoted
    rw [List.length_cons]
    omega
  · obtain ⟨_, -, heq⟩ := Option.map_eq_some_iff.mp h
    cases heq
    exact (List.dropWhile_suffix isNumberChar).length_le

theorem statement_length {s rest : List Char} {st : Statement}
    (h : statement s = some (st, rest)) : rest.length < s.length := by
  unfold statement at h
  split at h
  · rename_i s
    obtain ⟨⟨table, t⟩, hkey, h⟩ := Option.bind_eq_some_iff.mp h
    have hlt := bareKey_length hkey
    have hle := skipSpace_length_le s
    have hle' := skipSpace_length_le t
    dsimp only at h
    split at h
    · rename_i heq
      cases h
      rw [heq, List.length_cons] at hle'
      rw [List.length_cons]
      omega
    · cases h
  · obtain ⟨⟨key, t⟩, hkey, h⟩ := Option.bind_eq_some_iff.mp h
    have hlt := bareKey_length hkey
    have hle := skipSpace_length_le t
    dsimp only at h
    split at h
    · rename_i u heq
      obtain ⟨⟨v, w⟩, hvalue, h⟩ := Option.bind_eq_some_iff.mp h
      cases h
      have hle' := skipSpace_length_le u
      have hle'' := value_length hvalue
      rw [heq, List.length_cons] at hle
      dsimp only
      omega
    · cases h

theorem line_length {s rest : List Char} {st : Option Statement}
    (h : line s = some (st, rest)) (hs : s ≠ []) : rest.length < s.length := by
  unfold line at h
  split at h
  · rename_i heol
    cases h
    exact endOfLine_length heol hs
  · obtain ⟨⟨st, t⟩, hst, h⟩ := Option.bind_eq_some_iff.mp h
    obtain ⟨u, heol, h⟩ := Option.bind_eq_some_iff.mp h
    cases h
    have hlt := statement_length hst
    have hle := skipSpace_length_le s
    by_cases ht : t = []
    · subst ht
      cases heol
      simpa using List.length_pos_iff.mpr hs
    · have := endOfLine_length heol ht
      omega

/-- The statements of all lines. -/
def statements (s : List Char) : Option (List Statement) :=
  if _hs : s = [] then some []
  else
    match _h : line s with
    | none => none
    | some (st, rest) => (statements rest).map (st.toList ++ ·)
termination_by s.length
decreasing_by exact line_length _h _hs

/-- The entries, each under the table it stands in; the root has no name. -/
def place (table : List Char) :
    List Statement → List ((List Char × List Char) × Value)
  | [] => []
  | .header table' :: sts => place table' sts
  | .entry key v :: sts => ((table, key), v) :: place table sts

def headers : List Statement → List (List Char)
  | [] => []
  | .header table :: sts => table :: headers sts
  | .entry _ _ :: sts => headers sts

theorem place_mem_headers {table : List Char} {sts : List Statement}
    {e : (List Char × List Char) × Value} (h : e ∈ place table sts) :
    e.1.1 = table ∨ e.1.1 ∈ headers sts := by
  induction sts generalizing table with
  | nil => cases h
  | cons st sts ih =>
      cases st with
      | header table' =>
          rcases ih h with heq | hmem
          · exact Or.inr (heq ▸ List.mem_cons_self)
          · exact Or.inr (List.mem_cons_of_mem _ hmem)
      | entry key v =>
          rcases List.mem_cons.mp h with rfl | h
          · exact Or.inl rfl
          · exact ih h

/-- The tables and the entries; no entry stands in a table without a
header. -/
structure Document where
  tables : List (List Char)
  entries : List ((List Char × List Char) × Value)
  placed : ∀ e ∈ entries, e.1.1 = [] ∨ e.1.1 ∈ tables

namespace Document

/-- The keys at the root. -/
def rootKeys (d : Document) : List (List Char) :=
  (d.entries.filter fun e => e.1.1 = []).map fun e => e.1.2

/-- No key and no table is defined twice, nor a table under a key's name. -/
def Distinct (d : Document) : Prop :=
  (d.entries.map Prod.fst).Nodup ∧ (d.tables ++ d.rootKeys).Nodup

instance (d : Document) : Decidable d.Distinct :=
  inferInstanceAs (Decidable (_ ∧ _))

def find (d : Document) (table key : List Char) : Option Value :=
  d.entries.lookup (table, key)

theorem mem_tables_of_find {d : Document} {table key : List Char} {v : Value}
    (h : d.find table key = some v) (htable : table ≠ []) :
    table ∈ d.tables := by
  obtain ⟨l, r, heq, -⟩ := List.lookup_eq_some_iff.mp h
  have hmem : ((table, key), v) ∈ d.entries := by rw [heq]; simp
  exact (d.placed _ hmem).resolve_left htable

end Document

def document (sts : List Statement) : Document where
  tables := headers sts
  entries := place [] sts
  placed _ h := place_mem_headers h

def parse (s : List Char) : Option Document :=
  ((statements s).map document).filter fun d => decide d.Distinct

end Toml
