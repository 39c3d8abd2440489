/-
Documents written line by line by a program that splices text between quotes:
what each line reads back as, and why one spliced text that is not plain is
enough to lose itself.
-/
import Aquilo.Toml

namespace Toml

open DecimalText

/-- A line as a program writes it; a number comes with the text it is written
as. -/
inductive Item where
  | blank
  | comment (text : List Char)
  | header (table : List Char)
  | str (key value : List Char)
  | num (key : List Char) (text : List Char) (n : Number)

namespace Item

def text : Item → List Char
  | blank => ['\n']
  | comment text => '#' :: (text ++ ['\n'])
  | header table => '[' :: (table ++ [']', '\n'])
  | str key value => key ++ [' ', '=', ' ', '"'] ++ value ++ ['"', '\n']
  | num key text _ => key ++ [' ', '=', ' '] ++ text ++ ['\n']

def statement? : Item → Option Statement
  | blank => none
  | comment _ => none
  | header table => some (.header table)
  | str key value => some (.entry key (.str value))
  | num key _ n => some (.entry key (.num n))

/-- What a bare key is. -/
def BareKey (key : List Char) : Prop :=
  key ≠ [] ∧ ∀ c ∈ key, isBare c = true

/-- The text of a number is read as the number. -/
def Readable : Item → Prop
  | num _ text n => text ≠ [] ∧ (∀ c ∈ text, isNumberChar c = true) ∧
      numberValue text = some (.num n)
  | _ => True

/-- The parts of a line that the program itself chooses are well formed. -/
def Sound (item : Item) : Prop :=
  item.Readable ∧
    match item with
    | blank => True
    | comment text => ∀ c ∈ text, isCommentChar c = true
    | header key | str key _ | num key _ _ => BareKey key

/-- A check of the parts that are fixed when the program is written. -/
def framed : Item → Bool
  | blank => true
  | comment text => text.all isCommentChar
  | header key | str key _ | num key _ _ => !key.isEmpty && key.all isBare

theorem sound_of_framed {item : Item} (h : item.framed = true)
    (hread : item.Readable) : item.Sound := by
  have hkey : ∀ {key : List Char},
      (!key.isEmpty && key.all isBare) = true → BareKey key := by
    intro key hkey
    rw [Bool.and_eq_true, List.all_eq_true] at hkey
    exact ⟨by simpa using hkey.1, hkey.2⟩
  refine ⟨hread, ?_⟩
  cases item with
  | blank => trivial
  | comment text => exact List.all_eq_true.mp h
  | header key => exact hkey h
  | str key value => exact hkey h
  | num key text n => exact hkey h

/-- Text between quotes holds nothing that has to be escaped. -/
def Safe : Item → Prop
  | str _ value => ∀ c ∈ value, Plain c
  | _ => True

end Item

theorem statements_nil : statements [] = some [] := by
  rw [statements, dif_pos rfl]

theorem statements_of_line {s rest : List Char} {st : Option Statement}
    (hs : s ≠ []) (h : line s = some (st, rest)) :
    statements s = (statements rest).map (st.toList ++ ·) := by
  rw [statements, dif_neg hs]
  split
  · rename_i hline
    rw [h] at hline
    cases hline
  · rename_i st' rest' hline
    rw [h] at hline
    cases hline
    rfl

theorem line_of_statements {s : List Char} {sts : List Statement} (hs : s ≠ [])
    (h : statements s = some sts) :
    ∃ st rest sts', line s = some (st, rest) ∧
      statements rest = some sts' ∧ sts = st.toList ++ sts' := by
  rw [statements, dif_neg hs] at h
  split at h
  · cases h
  · rename_i st rest hline
    obtain ⟨sts', hrest, rfl⟩ := Option.map_eq_some_iff.mp h
    exact ⟨st, rest, sts', hline, hrest, rfl⟩

theorem skipSpace_cons {c : Char} (hc : isBlank c = false) (s : List Char) :
    skipSpace (c :: s) = c :: s := by
  rw [skipSpace, List.dropWhile_cons_of_neg (by simp [hc])]

theorem newline?_cons {c : Char} (hlf : c ≠ '\n') (hcr : c ≠ '\r')
    (s : List Char) : newline? (c :: s) = none := by
  unfold newline?
  split
  · rename_i heq
    exact absurd (List.cons.inj heq).1 hlf
  · rename_i heq
    exact absurd (List.cons.inj heq).1 hcr
  · rfl

/-- A statement's first character ends no line. -/
theorem endOfLine_cons {c : Char} (hblank : isBlank c = false) (hlf : c ≠ '\n')
    (hcr : c ≠ '\r') (hhash : c ≠ '#') (s : List Char) :
    endOfLine (c :: s) = none := by
  simp only [endOfLine, skipSpace_cons hblank]
  split
  · rename_i heq
    cases heq
  · rename_i heq
    exact absurd (List.cons.inj heq).1 hhash
  · exact newline?_cons hlf hcr s

theorem endOfLine_newline (rest : List Char) :
    endOfLine ('\n' :: rest) = some rest := rfl

theorem line_blank (rest : List Char) :
    line ('\n' :: rest) = some (none, rest) := rfl

theorem line_comment {text : List Char}
    (h : ∀ c ∈ text, isCommentChar c = true) (rest : List Char) :
    line ('#' :: (text ++ '\n' :: rest)) = some (none, rest) := by
  have heol : endOfLine ('#' :: (text ++ '\n' :: rest)) = some rest := by
    simp only [endOfLine, skipSpace_cons (show isBlank '#' = false from rfl)]
    rw [List.dropWhile_append_of_pos h]
    rfl
  rw [line, heol]

theorem isBare_ne {c d : Char} (hc : isBare c = true) (hd : isBare d = false) :
    c ≠ d := by
  rintro rfl
  rw [hc] at hd
  cases hd

theorem isBlank_of_isBare {c : Char} (hc : isBare c = true) :
    isBlank c = false := by
  simp [isBlank, isBare_ne hc (show isBare ' ' = false by decide),
    isBare_ne hc (show isBare '\t' = false by decide)]

theorem bareKey_append {key : List Char} (hkey : Item.BareKey key) {c : Char}
    (hc : isBare c = false) (rest : List Char) :
    bareKey (key ++ c :: rest) = some (key, c :: rest) := by
  have htake : (key ++ c :: rest).takeWhile isBare = key := by
    rw [List.takeWhile_append_of_pos hkey.2,
      List.takeWhile_cons_of_neg (by simp [hc]), List.append_nil]
  have hdrop : (key ++ c :: rest).dropWhile isBare = c :: rest := by
    rw [List.dropWhile_append_of_pos hkey.2,
      List.dropWhile_cons_of_neg (by simp [hc])]
  rw [bareKey, htake, hdrop, if_neg hkey.1]

theorem line_header {table : List Char} (h : Item.BareKey table)
    (rest : List Char) :
    line ('[' :: (table ++ ']' :: '\n' :: rest)) =
      some (some (.header table), rest) := by
  obtain ⟨c, t, rfl⟩ := List.exists_cons_of_ne_nil h.1
  have hc := h.2 c List.mem_cons_self
  have hspace : skipSpace (c :: t ++ ']' :: '\n' :: rest) =
      c :: t ++ ']' :: '\n' :: rest :=
    skipSpace_cons (isBlank_of_isBare hc) _
  rw [line, endOfLine_cons rfl (by decide) (by decide) (by decide),
    skipSpace_cons rfl]
  simp only [statement, hspace, bareKey_append h (show isBare ']' = false by decide),
    Option.bind_eq_bind, Option.bind_some,
    skipSpace_cons (show isBlank ']' = false from rfl), Option.pure_def,
    endOfLine_newline]

theorem statement_entry {key : List Char} (h : Item.BareKey key) {d : Char}
    (hd : isBlank d = false) (s : List Char) :
    statement (key ++ ' ' :: '=' :: ' ' :: d :: s) =
      (value (d :: s)).map fun (v, t) => (.entry key v, t) := by
  obtain ⟨c, k, rfl⟩ := List.exists_cons_of_ne_nil h.1
  have hbracket : c ≠ '[' := isBare_ne (h.2 c List.mem_cons_self) (by decide)
  have hspace : skipSpace (' ' :: d :: s) = d :: s := skipSpace_cons hd s
  have hequals : skipSpace (' ' :: '=' :: ' ' :: d :: s) = '=' :: ' ' :: d :: s :=
    rfl
  unfold statement
  split
  · rename_i heq
    exact absurd (List.cons.inj heq).1 hbracket
  · rw [bareKey_append h (by decide)]
    simp only [Option.bind_eq_bind, Option.bind_some, hequals, hspace,
      Option.pure_def]
    rw [Option.map_eq_bind]
    rfl

/-- An entry's line is read as far as its value is. -/
theorem line_entry {key : List Char} (h : Item.BareKey key) {d : Char}
    (hd : isBlank d = false) (s : List Char) :
    line (key ++ ' ' :: '=' :: ' ' :: d :: s) =
      (value (d :: s)).bind fun (v, t) =>
        (endOfLine t).map fun rest => (some (.entry key v), rest) := by
  obtain ⟨c, k, hkey⟩ := List.exists_cons_of_ne_nil h.1
  have hc : isBare c = true := h.2 c (by rw [hkey]; exact List.mem_cons_self)
  have hblank := isBlank_of_isBare hc
  have hspace : skipSpace (key ++ ' ' :: '=' :: ' ' :: d :: s) =
      key ++ ' ' :: '=' :: ' ' :: d :: s := by
    rw [hkey]
    exact skipSpace_cons hblank _
  have heol : endOfLine (key ++ ' ' :: '=' :: ' ' :: d :: s) = none := by
    rw [hkey]
    exact endOfLine_cons hblank (isBare_ne hc (by decide))
      (isBare_ne hc (by decide)) (isBare_ne hc (by decide)) _
  rw [line, heol, hspace, statement_entry h hd]
  cases value (d :: s) with
  | none => rfl
  | some p =>
      obtain ⟨v, t⟩ := p
      simp only [Option.map_some, Option.bind_eq_bind, Option.bind_some]
      cases endOfLine t <;> rfl

theorem value_quote (s : List Char) :
    value ('"' :: s) = (quoted s).map fun (v, rest) => (.str v, rest) := rfl

theorem value_number {d : Char} {t rest : List Char} {n : Number}
    (ht : ∀ c ∈ d :: t, isNumberChar c = true)
    (hn : numberValue (d :: t) = some (.num n)) :
    value (d :: t ++ '\n' :: rest) = some (.num n, '\n' :: rest) := by
  have htake : (d :: t ++ '\n' :: rest).takeWhile isNumberChar = d :: t := by
    rw [List.takeWhile_append_of_pos ht,
      List.takeWhile_cons_of_neg (by decide), List.append_nil]
  have hdrop : (d :: t ++ '\n' :: rest).dropWhile isNumberChar =
      '\n' :: rest := by
    rw [List.dropWhile_append_of_pos ht, List.dropWhile_cons_of_neg (by decide)]
  have hquote : d ≠ '"' := by
    rintro rfl
    exact absurd (ht _ List.mem_cons_self) (by decide)
  unfold value
  split
  · rename_i heq
    exact absurd (List.cons.inj heq).1 hquote
  · rw [htake, hdrop, hn]
    rfl

theorem line_num {key text : List Char} {n : Number}
    (h : (Item.num key text n).Sound) (rest : List Char) :
    line (key ++ ' ' :: '=' :: ' ' :: (text ++ '\n' :: rest)) =
      some (some (.entry key (.num n)), rest) := by
  obtain ⟨⟨hne, hchars, hn⟩, hkey⟩ := h
  obtain ⟨d, t, rfl⟩ := List.exists_cons_of_ne_nil hne
  have hblank : isBlank d = false := by
    have hd := hchars d List.mem_cons_self
    by_contra hblank
    rw [Bool.not_eq_false, isBlank, Bool.or_eq_true, decide_eq_true_eq,
      decide_eq_true_eq] at hblank
    rcases hblank with rfl | rfl <;> exact absurd hd (by decide)
  rw [List.cons_append, line_entry hkey hblank, ← List.cons_append,
    value_number hchars hn]
  rfl

theorem line_str {key : List Char} (h : Item.BareKey key)
    (s : List Char) :
    line (key ++ ' ' :: '=' :: ' ' :: '"' :: s) =
      (quoted s).bind fun (v, t) =>
        (endOfLine t).map fun rest => (some (.entry key (.str v)), rest) := by
  rw [line_entry h (show isBlank '"' = false from rfl), value_quote]
  cases quoted s <;> rfl

/-- The text of all lines. -/
def render (items : List Item) : List Char := items.flatMap Item.text

theorem Item.inertHead_text {item : Item} (h : item.Sound) (rest : List Char) :
    InertHead (item.text ++ rest) := by
  have hbare : ∀ c, isBare c = true → Inert c := fun c hc =>
    ⟨isBare_ne hc (by decide), isBare_ne hc (by decide),
      isBare_ne hc (by decide)⟩
  have hkey : ∀ key s, BareKey key → InertHead (key ++ s) := by
    intro key s hkey
    obtain ⟨c, k, rfl⟩ := List.exists_cons_of_ne_nil hkey.1
    intro d hd
    cases hd
    exact hbare c (hkey.2 c List.mem_cons_self)
  cases item with
  | blank => exact fun c hc => by cases hc; decide
  | comment text => exact fun c hc => by cases hc; decide
  | header table => exact fun c hc => by cases hc; decide
  | str key value =>
      simp only [text, List.append_assoc]
      exact hkey key _ h.2
  | num key text n =>
      simp only [Item.text, List.append_assoc]
      exact hkey key _ h.2

theorem inertHead_render {items : List Item} (h : ∀ i ∈ items, i.Sound) :
    InertHead (render items) := by
  cases items with
  | nil => exact fun c hc => by cases hc
  | cons item items =>
      rw [render, List.flatMap_cons]
      exact Item.inertHead_text (h item List.mem_cons_self) _

theorem render_cons (item : Item) (items : List Item) :
    render (item :: items) = item.text ++ render items := List.flatMap_cons

theorem Item.text_ne_nil (item : Item) : item.text ≠ [] := by
  cases item <;> simp [Item.text]

/-- A line is read back as what it says when its text needs no escaping. -/
theorem line_item {item : Item} (h : item.Sound) (hsafe : item.Safe)
    {rest : List Char} (hrest : InertHead rest) :
    line (item.text ++ rest) = some (item.statement?, rest) := by
  cases item with
  | blank => exact line_blank rest
  | comment text => simpa [Item.text, Item.statement?] using line_comment h.2 rest
  | header table => simpa [Item.text, Item.statement?] using line_header h.2 rest
  | str key value =>
      have hquoted := (quoted_spliced_iff hrest ('\n' :: rest)).mpr ⟨hsafe, rfl⟩
      have hline := line_str h.2 (value ++ '"' :: '\n' :: rest)
      simp only [hquoted, Option.bind_some, endOfLine_newline,
        Option.map_some] at hline
      simpa [Item.text, Item.statement?] using hline
  | num key text n => simpa [Item.text, Item.statement?] using line_num h rest

theorem statements_render {items : List Item} (h : ∀ i ∈ items, i.Sound)
    (hsafe : ∀ i ∈ items, i.Safe) :
    statements (render items) = some (items.filterMap Item.statement?) := by
  induction items with
  | nil => exact statements_nil
  | cons item items ih =>
      rw [List.forall_mem_cons] at h hsafe
      have hline := line_item h.1 hsafe.1 (inertHead_render h.2)
      rw [render_cons, statements_of_line (by simp [Item.text_ne_nil]) hline,
        ih h.2 hsafe.2, List.filterMap_cons]
      cases item.statement? <;> rfl

/-- The line of a spliced text that is read back as itself is safe. -/
theorem safe_of_line_str {key value rest : List Char}
    (h : Item.BareKey key) (hrest : InertHead rest) {st : Option Statement}
    {rest' : List Char}
    (hline : line ((Item.str key value).text ++ rest) = some (st, rest')) :
    ∃ w, st = some (.entry key (.str w)) ∧
      (w = value → ∀ c ∈ value, Plain c) := by
  have heq : (Item.str key value).text ++ rest =
      key ++ ' ' :: '=' :: ' ' :: '"' :: (value ++ '"' :: '\n' :: rest) := by
    simp [Item.text]
  rw [heq, line_str h] at hline
  obtain ⟨⟨w, t⟩, hquoted, hline⟩ := Option.bind_eq_some_iff.mp hline
  obtain ⟨u, -, hst⟩ := Option.map_eq_some_iff.mp hline
  cases hst
  refine ⟨w, rfl, ?_⟩
  rintro rfl
  exact ((quoted_spliced_iff hrest t).mp hquoted).1

/-- Every text is safe when the entries that are found agree with the lines:
the first unsafe line would be found as something else. -/
theorem safe_of_statements {items : List Item} (h : ∀ i ∈ items, i.Sound)
    {table : List Char} {sts : List Statement}
    (hsts : statements (render items) = some sts)
    (hkeys : ((place table (items.filterMap Item.statement?)).map
      Prod.fst).Nodup)
    (hagree : ∀ place' v, (place', Value.str v) ∈
        place table (items.filterMap Item.statement?) →
      ∀ w, (place table sts).lookup place' = some w → w = .str v) :
    ∀ i ∈ items, i.Safe := by
  induction items generalizing table sts with
  | nil => exact fun i hi => absurd hi List.not_mem_nil
  | cons item items ih =>
      rw [List.forall_mem_cons] at h ⊢
      have hrest := inertHead_render h.2
      rw [render_cons] at hsts
      obtain ⟨st, rest, sts', hline, hsts', rfl⟩ :=
        line_of_statements (by simp [Item.text_ne_nil]) hsts
      have hsafe : item.Safe := by
        cases item with
        | str key value =>
            obtain ⟨w, rfl, hw⟩ := safe_of_line_str h.1.2 hrest hline
            apply hw
            have := hagree (table, key) value (by simp [Item.statement?, place])
              (.str w) (by simp [place])
            exact Value.str.inj this
        | _ => trivial
      refine ⟨hsafe, ?_⟩
      rw [line_item h.1 hsafe hrest] at hline
      obtain ⟨rfl, rfl⟩ := Prod.mk.inj (Option.some.inj hline)
      rw [List.filterMap_cons] at hkeys hagree
      cases hst : item.statement? with
      | none =>
          rw [hst] at hkeys hagree
          exact ih h.2 hsts' hkeys hagree
      | some st =>
          rw [hst] at hkeys hagree
          cases st with
          | header table' => exact ih h.2 hsts' hkeys hagree
          | entry key v =>
              rw [place, List.map_cons, List.nodup_cons] at hkeys
              refine ih h.2 hsts' hkeys.2 fun place' u hmem w hlookup => ?_
              refine hagree place' u (List.mem_cons_of_mem _ hmem) w ?_
              -- a later line has a key of its own
              have hne : place' ≠ (table, key) := by
                rintro rfl
                exact hkeys.1 (List.mem_map.mpr ⟨_, hmem, rfl⟩)
              rw [Option.toList_some, List.singleton_append, place,
                List.lookup_cons, beq_false_of_ne hne]
              exact hlookup

/-- The document that the lines state. -/
def Item.document (items : List Item) : Document :=
  Toml.document (items.filterMap Item.statement?)

theorem parse_render {items : List Item} (h : ∀ i ∈ items, i.Sound)
    (hsafe : ∀ i ∈ items, i.Safe) (hdistinct : (Item.document items).Distinct) :
    parse (render items) = some (Item.document items) := by
  rw [parse, statements_render h hsafe, Option.map_some, Option.filter_some]
  exact if_pos (decide_eq_true hdistinct)

/-- A string that is found where an entry stands, is the entry's. -/
def Document.Agrees (d : Document) (e : (List Char × List Char) × Value) :
    Prop :=
  ∀ v, e.2 = .str v → ∀ w, d.find e.1.1 e.1.2 = some w → w = .str v

namespace Document

theorem agrees_num (d : Document) (place : List Char × List Char) (n : Number) :
    d.Agrees (place, .num n) := nofun

theorem agrees_str {d : Document} {table key v : List Char}
    (h : ∀ w, d.find table key = some w → w = .str v) :
    d.Agrees ((table, key), .str v) := by
  intro u hu w hw
  cases hu
  exact h w hw

end Document

theorem safe_of_parse {items : List Item} (h : ∀ i ∈ items, i.Sound)
    (hdistinct : (Item.document items).Distinct) {d : Document}
    (hparse : parse (render items) = some d)
    (hagree : ∀ e ∈ (Item.document items).entries, d.Agrees e) :
    ∀ i ∈ items, i.Safe := by
  obtain ⟨hmap, -⟩ := Option.filter_eq_some_iff.mp hparse
  obtain ⟨sts, hsts, rfl⟩ := Option.map_eq_some_iff.mp hmap
  exact safe_of_statements h hsts hdistinct.1 fun _ v hmem w hw =>
    hagree _ hmem v rfl w hw

end Toml
