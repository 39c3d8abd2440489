/-
Basic strings of TOML, on one line and on several, and what happens when
arbitrary text is spliced between two quotes: it is read back as itself exactly
when it needs no escaping.
-/
import Mathlib

namespace Toml

/-- Characters a basic string holds unescaped. -/
def Plain (c : Char) : Prop :=
  c ≠ '"' ∧ c ≠ '\\' ∧ (c = '\t' ∨ (0x20 ≤ c.toNat ∧ c.toNat ≠ 0x7F))

instance (c : Char) : Decidable (Plain c) :=
  inferInstanceAs (Decidable (_ ∧ _ ∧ _))

/-- Characters a string on several lines holds unescaped. -/
def MultiPlain (c : Char) : Prop := Plain c ∨ c = '\n' ∨ c = '"'

instance (c : Char) : Decidable (MultiPlain c) :=
  inferInstanceAs (Decidable (_ ∨ _ ∨ _))

def hexDigit (c : Char) : Option ℕ :=
  if '0' ≤ c ∧ c ≤ '9' then some (c.toNat - '0'.toNat)
  else if 'a' ≤ c ∧ c ≤ 'f' then some (c.toNat - 'a'.toNat + 10)
  else if 'A' ≤ c ∧ c ≤ 'F' then some (c.toNat - 'A'.toNat + 10)
  else none

/-- `k` hexadecimal digits, as a number. -/
def hexNumber : (k acc : ℕ) → List Char → Option (ℕ × List Char)
  | 0, acc, s => some (acc, s)
  | k + 1, acc, c :: rest =>
      (hexDigit c).bind fun d => hexNumber k (16 * acc + d) rest
  | _ + 1, _, [] => none

/-- A Unicode escape of `k` digits; it must name a scalar value. -/
def unicodeEscape (k : ℕ) (s : List Char) : Option (Char × List Char) :=
  (hexNumber k 0 s).bind fun (n, rest) =>
    if n.isValidChar then some (Char.ofNat n, rest) else none

/-- An escape sequence, after its backslash. -/
def escape : List Char → Option (Char × List Char)
  | 'b' :: rest => some ('\x08', rest)
  | 't' :: rest => some ('\t', rest)
  | 'n' :: rest => some ('\n', rest)
  | 'f' :: rest => some ('\x0c', rest)
  | 'r' :: rest => some ('\r', rest)
  | '"' :: rest => some ('"', rest)
  | '\\' :: rest => some ('\\', rest)
  | 'u' :: rest => unicodeEscape 4 rest
  | 'U' :: rest => unicodeEscape 8 rest
  | _ => none

/-- What an escape sequence takes: a quote for a quote, else something that
holds neither a quote nor a newline. -/
def EscapeText (e : List Char) (c : Char) : Prop :=
  (e = ['"'] ∧ c = '"') ∨ (e ≠ [] ∧ '"' ∉ e ∧ '\n' ∉ e)

theorem hexDigit_eq_some {c : Char} {n : ℕ} (h : hexDigit c = some n) :
    c ≠ '"' ∧ c ≠ '\n' := by
  constructor <;> rintro rfl <;> revert h <;> decide +revert

theorem hexNumber_eq_some {k acc n : ℕ} {s rest : List Char}
    (h : hexNumber k acc s = some (n, rest)) :
    ∃ e, s = e ++ rest ∧ '"' ∉ e ∧ '\n' ∉ e := by
  induction k generalizing acc s with
  | zero =>
      simp only [hexNumber, Option.some.injEq, Prod.mk.injEq] at h
      exact ⟨[], h.2, List.not_mem_nil, List.not_mem_nil⟩
  | succ k ih =>
      cases s with
      | nil => simp [hexNumber] at h
      | cons c s =>
          obtain ⟨d, hd, hrest⟩ := Option.bind_eq_some_iff.mp h
          obtain ⟨e, rfl, hquote, hnewline⟩ := ih hrest
          obtain ⟨hc, hc'⟩ := hexDigit_eq_some hd
          exact ⟨c :: e, rfl, by simp [hc.symm, hquote],
            by simp [hc'.symm, hnewline]⟩

theorem unicodeEscape_eq_some {k : ℕ} {s rest : List Char} {c : Char}
    (h : unicodeEscape k s = some (c, rest)) :
    ∃ e, s = e ++ rest ∧ '"' ∉ e ∧ '\n' ∉ e := by
  obtain ⟨⟨n, rest'⟩, hnumber, hchar⟩ := Option.bind_eq_some_iff.mp h
  simp only [Option.ite_none_right_eq_some, Option.some.injEq,
    Prod.mk.injEq] at hchar
  obtain ⟨-, -, rfl⟩ := hchar
  exact hexNumber_eq_some hnumber

theorem escape_eq_some {s rest : List Char} {c : Char}
    (h : escape s = some (c, rest)) : ∃ e, s = e ++ rest ∧ EscapeText e c := by
  unfold escape at h
  split at h
  all_goals first
    | (cases h; exact ⟨['"'], rfl, Or.inl ⟨rfl, rfl⟩⟩)
    | (cases h; exact ⟨[_], rfl, Or.inr ⟨by simp, by decide, by decide⟩⟩)
    | cases h
    | (obtain ⟨e, rfl, hquote, hnewline⟩ := unicodeEscape_eq_some h
       exact ⟨_ :: e, rfl, Or.inr ⟨by simp, by simp [hquote],
         by simp [hnewline]⟩⟩)

theorem escape_length {s rest : List Char} {c : Char}
    (h : escape s = some (c, rest)) : rest.length < s.length := by
  obtain ⟨e, rfl, he⟩ := escape_eq_some h
  have hne : e ≠ [] := by
    rcases he with ⟨rfl, -⟩ | ⟨hne, -⟩
    · simp
    · exact hne
  have := List.length_pos_iff.mpr hne
  rw [List.length_append]
  omega

/-- The rest of a string on one line, after its opening quote: the value, and
what follows the closing quote. -/
def basicBody (s : List Char) : Option (List Char × List Char) :=
  match s with
  | [] => none
  | c :: rest =>
      if c = '"' then some ([], rest)
      else if c = '\\' then
        match _h : escape rest with
        | none => none
        | some (d, rest') =>
            (basicBody rest').map fun (value, tail) => (d :: value, tail)
      else if Plain c then
        (basicBody rest).map fun (value, tail) => (c :: value, tail)
      else none
termination_by s.length
decreasing_by
  · have := escape_length _h
    simp only [List.length_cons]
    omega
  · simp

/-- A newline, on its own or after a carriage return. -/
def newline? : List Char → Option (List Char)
  | '\n' :: rest => some rest
  | '\r' :: '\n' :: rest => some rest
  | _ => none

/-- Blanks and newlines are passed over. -/
def skipBlank : List Char → List Char
  | ' ' :: rest => skipBlank rest
  | '\t' :: rest => skipBlank rest
  | '\n' :: rest => skipBlank rest
  | '\r' :: '\n' :: rest => skipBlank rest
  | s => s

/-- A backslash at the end of a line continues it at the next text. -/
def continuation (s : List Char) : Option (List Char) :=
  (newline? (s.dropWhile fun c => c = ' ' || c = '\t')).map skipBlank

theorem newline?_eq_some {s rest : List Char} (h : newline? s = some rest) :
    ∃ w, s = w ++ rest ∧ '"' ∉ w ∧ w ≠ [] := by
  unfold newline? at h
  split at h
  · cases h
    exact ⟨['\n'], rfl, by decide, by simp⟩
  · cases h
    exact ⟨['\r', '\n'], rfl, by decide, by simp⟩
  · cases h

theorem skipBlank_eq (s : List Char) :
    ∃ w, s = w ++ skipBlank s ∧ '"' ∉ w := by
  fun_induction skipBlank s with
  | case1 rest ih | case2 rest ih | case3 rest ih =>
      obtain ⟨w, hw, hquote⟩ := ih
      exact ⟨_ :: w, by rw [List.cons_append, ← hw], by simp [hquote]⟩
  | case4 rest ih =>
      obtain ⟨w, hw, hquote⟩ := ih
      exact ⟨'\r' :: '\n' :: w, by rw [List.cons_append, List.cons_append, ← hw],
        by simp [hquote]⟩
  | case5 s _ _ _ _ => exact ⟨[], rfl, List.not_mem_nil⟩

theorem continuation_eq_some {s rest : List Char}
    (h : continuation s = some rest) : ∃ w, s = w ++ rest ∧ '"' ∉ w := by
  obtain ⟨mid, hmid, rfl⟩ := Option.map_eq_some_iff.mp h
  obtain ⟨w₁, hw₁, hq₁, -⟩ := newline?_eq_some hmid
  obtain ⟨w₂, hw₂, hq₂⟩ := skipBlank_eq mid
  refine ⟨s.takeWhile (fun c => c = ' ' || c = '\t') ++ w₁ ++ w₂, ?_, ?_⟩
  · rw [List.append_assoc, ← hw₂, List.append_assoc, ← hw₁,
      List.takeWhile_append_dropWhile]
  · intro hmem
    rcases List.mem_append.mp hmem with hmem | hmem
    · rcases List.mem_append.mp hmem with hmem | hmem
      · have := List.mem_takeWhile_imp hmem
        revert this
        decide
      · exact hq₁ hmem
    · exact hq₂ hmem

/-- The rest of a string on several lines.  It closes at three quotes, of which
one or two more in front belong to the value. -/
def multiBody (s : List Char) : Option (List Char × List Char) :=
  match s with
  | '"' :: '"' :: '"' :: '"' :: '"' :: rest => some (['"', '"'], rest)
  | '"' :: '"' :: '"' :: '"' :: rest => some (['"'], rest)
  | '"' :: '"' :: '"' :: rest => some ([], rest)
  | '\r' :: '\n' :: rest =>
      (multiBody rest).map fun (value, tail) => ('\n' :: value, tail)
  | c :: rest =>
      if c = '\\' then
        match _h : continuation rest with
        | some rest' => multiBody rest'
        | none =>
            match _h' : escape rest with
            | none => none
            | some (d, rest') =>
                (multiBody rest').map fun (value, tail) => (d :: value, tail)
      else if MultiPlain c then
        (multiBody rest).map fun (value, tail) => (c :: value, tail)
      else none
  | [] => none
termination_by s.length
decreasing_by
  · simp only [List.length_cons]
    omega
  · obtain ⟨w, rfl, -⟩ := continuation_eq_some _h
    simp only [List.length_cons, List.length_append]
    omega
  · have := escape_length _h'
    simp only [List.length_cons]
    omega
  · simp

/-- A newline right after the opening quotes is not part of the value. -/
def trimNewline (s : List Char) : List Char := (newline? s).getD s

/-- The rest of a basic string after its first quote. -/
def quoted (s : List Char) : Option (List Char × List Char) :=
  match s with
  | '"' :: '"' :: rest => multiBody (trimNewline rest)
  | s => basicBody s

/-- How the text of a string denotes its value; `raw` are the characters that
stand for themselves. -/
inductive Decodes (raw : Char → Prop) : List Char → List Char → Prop
  | nil : Decodes raw [] []
  | char {c : Char} {text value : List Char} (hraw : raw c) (hc : c ≠ '\\')
      (h : Decodes raw text value) : Decodes raw (c :: text) (c :: value)
  | crlf {text value : List Char} (hraw : raw '\n')
      (h : Decodes raw text value) :
      Decodes raw ('\r' :: '\n' :: text) ('\n' :: value)
  | escape {e text value : List Char} {c : Char} (he : EscapeText e c)
      (h : Decodes raw text value) :
      Decodes raw ('\\' :: (e ++ text)) (c :: value)
  | skip {w text value : List Char} (hraw : raw '\n') (hw : '"' ∉ w)
      (h : Decodes raw text value) : Decodes raw ('\\' :: (w ++ text)) value

theorem plain_ne {c : Char} (h : Plain c) : c ≠ '"' ∧ c ≠ '\\' ∧ c ≠ '\n' := by
  refine ⟨h.1, h.2.1, ?_⟩
  rintro rfl
  exact absurd h.2.2 (by decide)

theorem basicBody_decodes {s value rest : List Char}
    (h : basicBody s = some (value, rest)) :
    ∃ text, s = text ++ '"' :: rest ∧ Decodes Plain text value := by
  fun_induction basicBody s generalizing value with
  | case1 => cases h
  | case2 s =>
      cases h
      exact ⟨[], rfl, .nil⟩
  | case3 s hescape => cases h
  | case4 s d s' hescape _ ih =>
      obtain ⟨⟨value', rest'⟩, hrest, heq⟩ := Option.map_eq_some_iff.mp h
      cases heq
      obtain ⟨text, rfl, hdec⟩ := ih hrest
      obtain ⟨e, rfl, he⟩ := escape_eq_some hescape
      exact ⟨'\\' :: (e ++ text), by simp, .escape he hdec⟩
  | case5 c s hquote hslash hplain ih =>
      obtain ⟨⟨value', rest'⟩, hrest, heq⟩ := Option.map_eq_some_iff.mp h
      cases heq
      obtain ⟨text, rfl, hdec⟩ := ih hrest
      exact ⟨c :: text, rfl, .char hplain hslash hdec⟩
  | case6 c s hquote hslash hplain => cases h

theorem basicBody_of_plain {value : List Char} (h : ∀ c ∈ value, Plain c)
    (rest : List Char) :
    basicBody (value ++ '"' :: rest) = some (value, rest) := by
  induction value with
  | nil => rw [List.nil_append, basicBody, if_pos rfl]
  | cons c value ih =>
      have hc := h c List.mem_cons_self
      rw [List.cons_append, basicBody, if_neg hc.1, if_neg hc.2.1, if_pos hc,
        ih fun d hd => h d (List.mem_cons_of_mem c hd)]
      rfl

theorem Decodes.length_le {raw : Char → Prop} {text value : List Char}
    (h : Decodes raw text value) : value.length ≤ text.length := by
  induction h with
  | nil => exact le_rfl
  | char _ _ _ ih => simpa using ih
  | crlf _ _ ih =>
      simp only [List.length_cons]
      omega
  | escape _ _ ih =>
      simp only [List.length_cons, List.length_append]
      omega
  | skip _ _ _ ih =>
      simp only [List.length_cons, List.length_append]
      omega

/-- On one line the text holds no newline. -/
theorem Decodes.newline_not_mem {text value : List Char}
    (h : Decodes Plain text value) : '\n' ∉ text := by
  induction h with
  | nil => exact List.not_mem_nil
  | char hraw _ _ ih =>
      simp [(plain_ne hraw).2.2.symm, ih]
  | crlf hraw _ _ => exact absurd rfl (plain_ne hraw).2.2
  | escape he _ ih =>
      rcases he with ⟨rfl, -⟩ | ⟨-, -, hnewline⟩
      · simp [ih]
      · simp [ih, hnewline]
  | skip hraw _ _ _ => exact absurd rfl (plain_ne hraw).2.2

/-- Text as long as its value stands for itself. -/
theorem Decodes.eq_of_length_le {text value : List Char}
    (h : Decodes Plain text value) (hlen : text.length ≤ value.length) :
    text = value ∧ ∀ c ∈ value, Plain c := by
  induction h with
  | nil => simp
  | char hraw _ _ ih =>
      simp only [List.length_cons, Nat.add_le_add_iff_right] at hlen
      obtain ⟨rfl, hplain⟩ := ih hlen
      exact ⟨rfl, List.forall_mem_cons.mpr ⟨hraw, hplain⟩⟩
  | crlf hraw _ _ => exact absurd rfl (plain_ne hraw).2.2
  | @escape e text value c he hdec _ =>
      have hle := hdec.length_le
      have hpos : 0 < e.length := by
        rcases he with ⟨rfl, -⟩ | ⟨hne, -⟩
        · simp
        · exact List.length_pos_iff.mpr hne
      simp only [List.length_cons, List.length_append] at hlen
      omega
  | skip hraw _ _ _ => exact absurd rfl (plain_ne hraw).2.2

theorem multiBody_decodes {s value rest : List Char}
    (h : multiBody s = some (value, rest)) :
    ∃ text, s = text ++ '"' :: '"' :: '"' :: rest ∧
      Decodes MultiPlain text value := by
  have hquote : MultiPlain '"' := Or.inr (Or.inr rfl)
  have hnewline : MultiPlain '\n' := Or.inr (Or.inl rfl)
  fun_induction multiBody s generalizing value with
  | case1 s =>
      cases h
      exact ⟨['"', '"'], rfl,
        .char hquote (by decide) (.char hquote (by decide) .nil)⟩
  | case2 s =>
      cases h
      exact ⟨['"'], rfl, .char hquote (by decide) .nil⟩
  | case3 s =>
      cases h
      exact ⟨[], rfl, .nil⟩
  | case4 s ih =>
      obtain ⟨⟨value', rest'⟩, hrest, heq⟩ := Option.map_eq_some_iff.mp h
      cases heq
      obtain ⟨text, rfl, hdec⟩ := ih hrest
      exact ⟨'\r' :: '\n' :: text, rfl, .crlf hnewline hdec⟩
  | case5 s s' hcont _ _ _ _ ih =>
      obtain ⟨text, rfl, hdec⟩ := ih h
      obtain ⟨w, rfl, hw⟩ := continuation_eq_some hcont
      exact ⟨'\\' :: (w ++ text), by simp, .skip hnewline hw hdec⟩
  | case6 => cases h
  | case7 s hcont d s' hescape _ _ _ _ ih =>
      obtain ⟨⟨value', rest'⟩, hrest, heq⟩ := Option.map_eq_some_iff.mp h
      cases heq
      obtain ⟨text, rfl, hdec⟩ := ih hrest
      obtain ⟨e, rfl, he⟩ := escape_eq_some hescape
      exact ⟨'\\' :: (e ++ text), by simp, .escape he hdec⟩
  | case8 c s _ _ _ _ hslash hplain ih =>
      obtain ⟨⟨value', rest'⟩, hrest, heq⟩ := Option.map_eq_some_iff.mp h
      cases heq
      obtain ⟨text, rfl, hdec⟩ := ih hrest
      exact ⟨c :: text, rfl, .char hplain hslash hdec⟩
  | case9 => cases h
  | case10 => cases h

/-- Characters that no decoding changes, wherever they stand after a quote. -/
def Inert (c : Char) : Prop := c ≠ '\\' ∧ c ≠ '\r' ∧ c ≠ '"'

instance (c : Char) : Decidable (Inert c) :=
  inferInstanceAs (Decidable (_ ∧ _ ∧ _))

/-- A head of inert characters is read as itself. -/
theorem Decodes.inert_head {raw : Char → Prop} {t text value : List Char}
    (ht : ∀ c ∈ t, Inert c) (h : Decodes raw (t ++ text) value) :
    ∃ value', value = t ++ value' ∧ Decodes raw text value' := by
  induction t generalizing value with
  | nil => exact ⟨value, rfl, h⟩
  | cons c t ih =>
      have hc := ht c List.mem_cons_self
      rw [List.cons_append] at h
      generalize hrest : t ++ text = rest at h
      cases h with
      | char hraw _ h =>
          subst hrest
          obtain ⟨value', rfl, hdec⟩ :=
            ih (fun d hd => ht d (List.mem_cons_of_mem c hd)) h
          exact ⟨value', rfl, hdec⟩
      | crlf => exact absurd rfl hc.2.1
      | escape => exact absurd rfl hc.1
      | skip => exact absurd rfl hc.1

/-- A quote after text without one stands in what follows that text. -/
theorem split_past {e text x rest : List Char} (he : '"' ∉ e)
    (h : e ++ text = x ++ '"' :: rest) :
    ∃ mid, x = e ++ mid ∧ text = mid ++ '"' :: rest := by
  rcases List.append_eq_append_iff.mp h with ⟨mid, hx, htext⟩ | ⟨mid, rfl, hmid⟩
  · exact ⟨mid, hx, htext⟩
  · cases mid with
    | nil => exact ⟨[], by simp, by simpa using hmid.symm⟩
    | cons q mid =>
        obtain ⟨rfl, -⟩ := List.cons.inj hmid
        simp at he

/-- A quote followed by inert characters turns up in the value, no later than
it stands in the text. -/
theorem Decodes.quote_inert {raw : Char → Prop} {x t y text value : List Char}
    (ht : ∀ c ∈ t, Inert c) (h : Decodes raw text value)
    (htext : text = x ++ '"' :: (t ++ y)) :
    ∃ x' y', value = x' ++ '"' :: (t ++ y') ∧ x'.length ≤ x.length := by
  -- induction on the reading; the quote is at its head or further on
  induction h generalizing x with
  | nil => simp at htext
  | @char c text value hraw hc h ih =>
      cases x with
      | nil =>
          obtain ⟨rfl, rfl⟩ := List.cons.inj htext
          obtain ⟨value', rfl, -⟩ := h.inert_head ht
          exact ⟨[], value', rfl, le_rfl⟩
      | cons d x =>
          obtain ⟨rfl, hrest⟩ := List.cons.inj htext
          obtain ⟨x', y', rfl, hlen⟩ := ih hrest
          exact ⟨c :: x', y', rfl, by simpa using hlen⟩
  | @crlf text value hraw h ih =>
      rcases x with _ | ⟨d, _ | ⟨d', x⟩⟩
      · simp at htext
      · simp at htext
      · simp only [List.cons_append, List.cons.injEq] at htext
        obtain ⟨x', y', rfl, hlen⟩ := ih htext.2.2
        refine ⟨'\n' :: x', y', rfl, ?_⟩
        simp only [List.length_cons]
        omega
  | @escape e text value c he h ih =>
      cases x with
      | nil => simp at htext
      | cons d x =>
          have hrest := (List.cons.inj htext).2
          rcases he with ⟨rfl, rfl⟩ | ⟨-, hquote, -⟩
          · cases x with
            | nil =>
                -- the quote is the escaped one
                obtain ⟨-, rfl⟩ := List.cons.inj hrest
                obtain ⟨value', rfl, -⟩ := h.inert_head ht
                exact ⟨[], value', rfl, Nat.zero_le _⟩
            | cons q x =>
                obtain ⟨x', y', rfl, hlen⟩ := ih (List.cons.inj hrest).2
                refine ⟨'"' :: x', y', rfl, ?_⟩
                simp only [List.length_cons]
                omega
          · obtain ⟨mid, rfl, hpast⟩ := split_past hquote hrest
            obtain ⟨x', y', rfl, hlen⟩ := ih hpast
            refine ⟨c :: x', y', rfl, ?_⟩
            simp only [List.length_cons, List.length_append]
            omega
  | @skip w text value hraw hw h ih =>
      cases x with
      | nil => simp at htext
      | cons d x =>
          obtain ⟨mid, rfl, hpast⟩ := split_past hw (List.cons.inj htext).2
          obtain ⟨x', y', rfl, hlen⟩ := ih hpast
          refine ⟨x', y', rfl, ?_⟩
          simp only [List.length_cons, List.length_append]
          omega

/-- A value that is also the text it is read from, except for a longer piece in
front, cannot be followed by a quote and inert characters unless these already
stand near its own front: each reading moves them forward. -/
theorem Decodes.descend {raw : Char → Prop} {value text more : List Char}
    (pre t tail : List Char) (ht : ∀ c ∈ t, Inert c)
    (hpre : t.length < pre.length) (hdec : Decodes raw text value)
    (hwhole : pre ++ (text ++ more) = value ++ '"' :: (t ++ tail))
    (hlong : pre.length ≤ value.length) :
    ∃ x y, value = x ++ '"' :: (t ++ y) ∧ x.length < pre.length := by
  have hlen := hdec.length_le
  have hstep : ∀ k, ∀ x z, x.length = k → pre.length ≤ k → k ≤ value.length →
      pre ++ (text ++ more) = x ++ '"' :: (t ++ z) →
      ∃ x' y', value = x' ++ '"' :: (t ++ y') ∧ x'.length < pre.length := by
    intro k
    induction k using Nat.strong_induction_on with
    | h k ih =>
        intro x z hx hle hge heq
        obtain ⟨x₁, rfl⟩ : pre <+: x :=
          List.prefix_of_prefix_length_le (List.prefix_append _ _)
            ⟨_, heq.symm⟩ (by omega)
        rw [List.append_assoc] at heq
        have hcut := List.append_cancel_left heq
        rw [List.length_append] at hx
        -- the occurrence stands inside the text that is decoded
        have hocc : x₁ ++ '"' :: t <+: text ++ more := ⟨z, by simp [hcut]⟩
        obtain ⟨y, hy⟩ : x₁ ++ '"' :: t <+: text :=
          List.prefix_of_prefix_length_le hocc (List.prefix_append _ _) (by
            simp only [List.length_append, List.length_cons]
            omega)
        have htext : text = x₁ ++ '"' :: (t ++ y) := by rw [← hy]; simp
        obtain ⟨x', y', hvalue, hle'⟩ := hdec.quote_inert ht htext
        by_cases hshort : x'.length < pre.length
        · exact ⟨x', y', hvalue, hshort⟩
        · refine ih x'.length (by omega) x' (y' ++ '"' :: (t ++ tail)) rfl
            (by omega) ?_ ?_
          · rw [hvalue, List.length_append]
            omega
          · rw [hwhole, hvalue]
            simp
  exact hstep value.length value tail rfl hlong le_rfl hwhole

/-- What may follow a value's line: nothing, or an inert character. -/
def InertHead (rest : List Char) : Prop := ∀ c ∈ rest.head?, Inert c

theorem trimNewline_cases (s : List Char) :
    trimNewline s = s ∧ s.head? ≠ some '\n' ∨ s = '\n' :: trimNewline s ∨
      s = '\r' :: '\n' :: trimNewline s := by
  unfold trimNewline
  cases s with
  | nil => exact Or.inl ⟨rfl, by simp⟩
  | cons c s =>
      by_cases hlf : c = '\n'
      · subst hlf
        exact Or.inr (Or.inl rfl)
      · by_cases hcr : ∃ r, c :: s = '\r' :: '\n' :: r
        · obtain ⟨r, hr⟩ := hcr
          rw [hr]
          exact Or.inr (Or.inr rfl)
        · refine Or.inl ⟨?_, by simpa using hlf⟩
          rw [newline?.eq_def]
          split
          · rename_i heq
            exact absurd (List.cons.inj heq).1 hlf
          · rename_i r heq
            exact absurd ⟨r, heq⟩ hcr
          · rfl

theorem trimNewline_length_le (s : List Char) :
    (trimNewline s).length ≤ s.length := by
  rcases trimNewline_cases s with ⟨h, -⟩ | h | h
  · rw [h]
  · conv_rhs => rw [h]
    simp
  · conv_rhs => rw [h]
    simp only [List.length_cons]
    omega

/-- Text that starts with an inert character has a value that starts with
it. -/
theorem Decodes.cons_inert {raw : Char → Prop} {c : Char}
    {text value : List Char} (hc : Inert c) (h : Decodes raw (c :: text) value) :
    ∃ value', value = c :: value' := by
  obtain ⟨value', rfl, -⟩ :=
    Decodes.inert_head (t := [c]) (by simpa using hc) h
  exact ⟨value', rfl⟩

/-- Read over several lines, a spliced value is never read back as itself. -/
theorem multiBody_spliced {value rest following tail : List Char}
    (hrest : InertHead rest)
    (hopen : value ++ '"' :: '\n' :: rest = '"' :: '"' :: following) :
    multiBody (trimNewline following) ≠ some (value, tail) := by
  intro hbody
  obtain ⟨text, htext, hdec⟩ := multiBody_decodes hbody
  have hlen := hdec.length_le
  -- the reading is longer than the value, so something follows the splice
  obtain ⟨c, r, rfl⟩ : ∃ c r, rest = c :: r := by
    cases rest with
    | cons c r => exact ⟨c, r, rfl⟩
    | nil =>
        have htrim := trimNewline_length_le following
        have hopen' := congrArg List.length hopen
        have htext' := congrArg List.length htext
        simp only [List.length_append, List.length_cons,
          List.length_nil] at hopen' htext' hlen
        omega
  have hc : Inert c := hrest c rfl
  have hlf : Inert '\n' := by decide
  have ht : ∀ d ∈ ['\n', c], Inert d := by simp [hlf, hc]
  -- the value starts with a quote, so its text does not start with `c`
  have hstart : ∀ s, value = '"' :: s → ∀ u, text ≠ c :: u := by
    rintro s rfl u rfl
    obtain ⟨value', heq⟩ := hdec.cons_inert hc
    exact hc.2.2 (List.cons.inj heq).1.symm
  have hne : value ≠ [] → text ≠ [] := by
    intro hvalue hnil
    rw [hnil, List.length_nil] at hlen
    exact hvalue (List.length_eq_zero_iff.mp (Nat.le_zero.mp hlen))
  rcases value with _ | ⟨a, _ | ⟨b, value⟩⟩
  · simp at hopen
  · -- only the quote: the newline after it is trimmed
    obtain ⟨rfl, hquote⟩ := List.cons.inj hopen
    obtain ⟨-, hfollowing⟩ := List.cons.inj hquote
    rw [← hfollowing] at htext
    obtain ⟨d, text, rfl⟩ := List.exists_cons_of_ne_nil (hne (by simp))
    exact hstart [] rfl text (by rw [(List.cons.inj htext).1])
  · simp only [List.cons_append, List.cons.injEq] at hopen
    obtain ⟨rfl, rfl, hopen⟩ := hopen
    rcases trimNewline_cases following with ⟨htrim, hhead⟩ | htrim | htrim
    · rw [htrim, ← hopen] at htext
      obtain ⟨x, y, hvalue, hx⟩ := Decodes.descend ['"', '"'] ['\n'] (c :: r)
        (by simpa using hlf) (by simp) hdec (by rw [← htext]; simp) (by simp)
      rcases x with _ | ⟨x₀, _ | ⟨x₁, x⟩⟩
      · simp at hvalue
      · simp only [List.cons_append, List.nil_append, List.cons.injEq] at hvalue
        rw [← hopen, hvalue.2.2] at hhead
        exact hhead rfl
      · simp at hx
    · rw [htrim] at hopen
      rcases value with _ | ⟨d, value⟩
      · simp at hopen
      simp only [List.cons_append, List.cons.injEq] at hopen
      obtain ⟨rfl, hopen⟩ := hopen
      rw [← hopen] at htext
      obtain ⟨x, y, hvalue, hx⟩ := Decodes.descend ['"', '"', '\n']
        ['\n', c] r ht (by simp) hdec (by rw [← htext]; simp) (by simp)
      rcases x with _ | ⟨x₀, _ | ⟨x₁, _ | ⟨x₂, x⟩⟩⟩
      · simp at hvalue
      · simp only [List.cons_append, List.nil_append, List.cons.injEq] at hvalue
        obtain ⟨-, -, -, rfl⟩ := hvalue
        obtain ⟨d, text, rfl⟩ := List.exists_cons_of_ne_nil (hne (by simp))
        exact hstart _ rfl text (by rw [(List.cons.inj htext).1])
      · simp at hvalue
      · simp at hx
        omega
    · rw [htrim] at hopen
      rcases value with _ | ⟨d, _ | ⟨d', value⟩⟩
      · simp at hopen
      · simp at hopen
      simp only [List.cons_append, List.cons.injEq] at hopen
      obtain ⟨rfl, rfl, hopen⟩ := hopen
      rw [← hopen] at htext
      obtain ⟨x, y, hvalue, hx⟩ := Decodes.descend ['"', '"', '\r', '\n']
        ['\n', c] r ht (by simp) hdec (by rw [← htext]; simp) (by simp)
      rcases x with _ | ⟨x₀, _ | ⟨x₁, _ | ⟨x₂, _ | ⟨x₃, x⟩⟩⟩⟩
      · simp at hvalue
      · simp at hvalue
      · simp at hvalue
      · simp at hvalue
      · simp at hx
        omega

/-- On one line, what is read as the value takes just the value's text. -/
theorem basicBody_spliced {value rest tail : List Char}
    (hbody : basicBody (value ++ '"' :: '\n' :: rest) = some (value, tail)) :
    (∀ c ∈ value, Plain c) ∧ tail = '\n' :: rest := by
  obtain ⟨text, htext, hdec⟩ := basicBody_decodes hbody
  have hlen := hdec.length_le
  -- the text ends before the newline of the splice
  have hle : text.length ≤ value.length + 1 := by
    by_contra hlong
    apply hdec.newline_not_mem
    have hsplice : value ++ ['"', '\n'] <+: text ++ '"' :: tail :=
      ⟨rest, by rw [← htext]; simp⟩
    have hpre : value ++ ['"', '\n'] <+: text :=
      List.prefix_of_prefix_length_le hsplice (List.prefix_append _ _) (by
        simp only [List.length_append, List.length_cons, List.length_nil]
        omega)
    exact hpre.subset (by simp)
  rcases Nat.lt_or_ge value.length text.length with hlt | hge
  · -- one longer than the value: a quote would stand where the newline is
    have htext' : (value ++ ['"']) ++ '\n' :: rest = text ++ '"' :: tail := by
      simpa using htext
    have hcut : value ++ ['"'] = text :=
      (List.append_inj htext' (by
        simp only [List.length_append, List.length_cons, List.length_nil]
        omega)).1
    rw [← hcut] at htext
    simp at htext
  · obtain ⟨rfl, hplain⟩ := hdec.eq_of_length_le hge
    refine ⟨hplain, ?_⟩
    simpa using htext.symm

theorem quoted_length {s value rest : List Char}
    (h : quoted s = some (value, rest)) : rest.length < s.length := by
  unfold quoted at h
  split at h
  · rename_i following
    obtain ⟨text, htext, -⟩ := multiBody_decodes h
    have hle := trimNewline_length_le following
    rw [htext, List.length_append] at hle
    simp only [List.length_cons] at hle ⊢
    omega
  · obtain ⟨text, rfl, -⟩ := basicBody_decodes h
    simp only [List.length_append, List.length_cons]
    omega

/-- A value spliced between quotes is read back exactly when it is plain. -/
theorem quoted_spliced_iff {value rest : List Char} (hrest : InertHead rest)
    (tail : List Char) :
    quoted (value ++ '"' :: '\n' :: rest) = some (value, tail) ↔
      (∀ c ∈ value, Plain c) ∧ tail = '\n' :: rest := by
  constructor
  · intro h
    unfold quoted at h
    split at h
    · rename_i following hopen
      exact absurd h (multiBody_spliced hrest hopen)
    · exact basicBody_spliced h
  · rintro ⟨hplain, rfl⟩
    unfold quoted
    split
    · rename_i following hopen
      cases value with
      | nil => simp at hopen
      | cons c value =>
          have hc := hplain c List.mem_cons_self
          exact absurd (List.cons.inj hopen).1 hc.1
    · exact basicBody_of_plain hplain _

end Toml
