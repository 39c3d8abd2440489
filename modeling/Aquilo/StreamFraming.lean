/-
Framing of a symbol stream that arrives in chunks.  A framer looks at the head
of a buffer; the frames it recognises form a prefix code, and a corrupt head
stays corrupt however the buffer grows.  Then the frames found do not depend on
where the stream was cut.
-/
import Mathlib

namespace StreamFraming

universe u v w

/-- What stands at the head of a buffer. -/
inductive Next (ι : Type w) where
  | frame (item : ι) (total : Nat)
  | incomplete
  | corrupt

/-- A framer for the frames `φ` over the symbols `β`; each frame is reported as
an item. -/
structure Framer (β : Type u) (φ : Type v) (ι : Type w) where
  bytes : φ → List β
  item : φ → ι
  next : List β → Next ι
  bytes_ne_nil : ∀ f, bytes f ≠ []
  next_bytes_append : ∀ f more,
    next (bytes f ++ more) = .frame (item f) (bytes f).length
  exists_of_frame : ∀ {buf x n}, next buf = .frame x n →
    ∃ f more, buf = bytes f ++ more
  corrupt_append : ∀ {buf} more, next buf = .corrupt →
    next (buf ++ more) = .corrupt

/-- How framing a buffer ends: with symbols that may still become a frame, or
at a corrupt head. -/
inductive Outcome (β : Type u) where
  | waiting (rest : List β)
  | broken (rest : List β)

/-- What is kept for the next chunk; a broken buffer is dropped. -/
def Outcome.kept {β : Type u} : Outcome β → List β
  | waiting rest => rest
  | broken _ => []

namespace Framer

variable {β : Type u} {φ : Type v} {ι : Type w} (F : Framer β φ ι)

theorem frame_inv {buf : List β} {x : ι} {n : Nat}
    (h : F.next buf = .frame x n) :
    ∃ f more, buf = F.bytes f ++ more ∧ x = F.item f ∧
      n = (F.bytes f).length ∧ buf.drop n = more := by
  obtain ⟨f, more, rfl⟩ := F.exists_of_frame h
  rw [F.next_bytes_append] at h
  injection h with hx hn
  subst hx hn
  exact ⟨f, more, rfl, rfl, rfl, List.drop_left⟩

theorem drop_length_lt {buf : List β} {x : ι} {n : Nat}
    (h : F.next buf = .frame x n) : (buf.drop n).length < buf.length := by
  obtain ⟨f, more, rfl, -, -, hdrop⟩ := F.frame_inv h
  have hpos := List.length_pos_iff.mpr (F.bytes_ne_nil f)
  rw [hdrop, List.length_append]
  omega

/-- Take frames off the head for as long as there are complete ones. -/
def run (buf : List β) : List ι × Outcome β :=
  match _h : F.next buf with
  | .frame x n =>
      let tail := run (buf.drop n)
      (x :: tail.1, tail.2)
  | .incomplete => ([], .waiting buf)
  | .corrupt => ([], .broken buf)
termination_by buf.length
decreasing_by exact F.drop_length_lt _h

theorem run_of_frame {buf : List β} {x : ι} {n : Nat}
    (h : F.next buf = .frame x n) :
    F.run buf = (x :: (F.run (buf.drop n)).1, (F.run (buf.drop n)).2) := by
  rw [run]
  split
  · rename_i heq
    rw [h] at heq
    injection heq with hx hn
    subst hx hn
    rfl
  · rename_i heq
    simp [h] at heq
  · rename_i heq
    simp [h] at heq

theorem run_of_incomplete {buf : List β} (h : F.next buf = .incomplete) :
    F.run buf = ([], .waiting buf) := by
  rw [run]
  split <;> rename_i heq
  · simp [h] at heq
  · rfl
  · simp [h] at heq

theorem run_of_corrupt {buf : List β} (h : F.next buf = .corrupt) :
    F.run buf = ([], .broken buf) := by
  rw [run]
  split <;> rename_i heq
  · simp [h] at heq
  · simp [h] at heq
  · rfl

theorem run_bytes_append (f : φ) (more : List β) :
    F.run (F.bytes f ++ more) =
      (F.item f :: (F.run more).1, (F.run more).2) := by
  rw [F.run_of_frame (F.next_bytes_append f more), List.drop_left]

/-- Whole frames in front of a buffer are reported first, in order. -/
theorem run_flatMap_append (fs : List φ) (more : List β) :
    F.run (fs.flatMap F.bytes ++ more) =
      (fs.map F.item ++ (F.run more).1, (F.run more).2) := by
  induction fs with
  | nil => rfl
  | cons f fs ih =>
      rw [List.flatMap_cons, List.append_assoc, run_bytes_append, ih]
      rfl

/-- A decomposition of a stream into frames and a tail that holds no complete
frame. -/
structure Framing (stream : List β) (fs : List φ) (tail : List β) : Prop where
  eq : stream = fs.flatMap F.bytes ++ tail
  stuck : F.next tail = .incomplete ∨ F.next tail = .corrupt

theorem exists_framing (buf : List β) : ∃ fs tail, F.Framing buf fs tail := by
  induction hlen : buf.length using Nat.strong_induction_on generalizing buf with
  | h len ih =>
      cases hnext : F.next buf with
      | frame x n =>
          obtain ⟨f, more, rfl, -, -, hdrop⟩ := F.frame_inv hnext
          have hlt := F.drop_length_lt hnext
          rw [hdrop] at hlt
          obtain ⟨fs, tail, heq, hstuck⟩ := ih _ (hlen ▸ hlt) more rfl
          exact ⟨f :: fs, tail, by rw [List.flatMap_cons, List.append_assoc, ← heq],
            hstuck⟩
      | incomplete => exact ⟨[], buf, rfl, Or.inl hnext⟩
      | corrupt => exact ⟨[], buf, rfl, Or.inr hnext⟩

variable {F} in
theorem Framing.run_waiting {stream tail : List β} {fs : List φ}
    (h : F.Framing stream fs tail) (htail : F.next tail = .incomplete) :
    F.run stream = (fs.map F.item, .waiting tail) := by
  rw [h.eq, run_flatMap_append, F.run_of_incomplete htail, List.append_nil]

variable {F} in
theorem Framing.run_broken {stream tail : List β} {fs : List φ}
    (h : F.Framing stream fs tail) (htail : F.next tail = .corrupt) :
    F.run stream = (fs.map F.item, .broken tail) := by
  rw [h.eq, run_flatMap_append, F.run_of_corrupt htail, List.append_nil]

/-- A waiting tail is taken up again when more arrives. -/
theorem run_append_of_waiting {a rest : List β} {items : List ι}
    (h : F.run a = (items, .waiting rest)) (b : List β) :
    F.run (a ++ b) =
      (items ++ (F.run (rest ++ b)).1, (F.run (rest ++ b)).2) := by
  obtain ⟨fs, tail, hframing⟩ := F.exists_framing a
  rcases hframing.stuck with htail | htail
  · rw [hframing.run_waiting htail] at h
    cases h
    rw [hframing.eq, List.append_assoc, run_flatMap_append]
  · rw [hframing.run_broken htail] at h
    cases h

theorem run_kept {a rest : List β} {items : List ι}
    (h : F.run a = (items, .waiting rest)) :
    F.run rest = ([], .waiting rest) := by
  have hself := F.run_append_of_waiting h []
  rw [List.append_nil, List.append_nil, h] at hself
  injection hself with hnil hout
  exact Prod.ext (List.self_eq_append_right.mp hnil) hout.symm

/-- A broken stream reports nothing more. -/
theorem run_append_of_broken {a rest : List β} {items : List ι}
    (h : F.run a = (items, .broken rest)) (b : List β) :
    F.run (a ++ b) = (items, .broken (rest ++ b)) := by
  obtain ⟨fs, tail, hframing⟩ := F.exists_framing a
  rcases hframing.stuck with htail | htail
  · rw [hframing.run_waiting htail] at h
    cases h
  · rw [hframing.run_broken htail] at h
    cases h
    rw [hframing.eq, List.append_assoc, run_flatMap_append,
      F.run_of_corrupt (F.corrupt_append b htail), List.append_nil]

/-- One chunk on top of the kept buffer. -/
def feed (buf chunk : List β) : List ι × List β :=
  let found := F.run (buf ++ chunk)
  (found.1, found.2.kept)

/-- The items of a sequence of chunks, and what is kept after the last. -/
def feedAll : List β → List (List β) → List ι × List β
  | buf, [] => ([], buf)
  | buf, chunk :: chunks =>
      let head := F.feed buf chunk
      let tail := feedAll head.2 chunks
      (head.1 ++ tail.1, tail.2)

/-- Whatever is fed, each item is that of some frame. -/
theorem exists_item_of_mem_run {buf : List β} {x : ι} (h : x ∈ (F.run buf).1) :
    ∃ f, F.item f = x := by
  obtain ⟨fs, tail, hframing⟩ := F.exists_framing buf
  rcases hframing.stuck with htail | htail
  · rw [hframing.run_waiting htail] at h
    obtain ⟨f, -, hf⟩ := List.mem_map.mp h
    exact ⟨f, hf⟩
  · rw [hframing.run_broken htail] at h
    obtain ⟨f, -, hf⟩ := List.mem_map.mp h
    exact ⟨f, hf⟩

theorem exists_item_of_mem_feedAll {buf : List β} {chunks : List (List β)}
    {x : ι} (h : x ∈ (F.feedAll buf chunks).1) : ∃ f, F.item f = x := by
  induction chunks generalizing buf with
  | nil => cases h
  | cons chunk chunks ih =>
      rcases List.mem_append.mp h with h | h
      · exact F.exists_item_of_mem_run h
      · exact ih h

/-- A reported item is that of a frame that stands in the buffer. -/
theorem exists_infix_of_mem_run {buf : List β} {x : ι} (h : x ∈ (F.run buf).1) :
    ∃ f, F.item f = x ∧ F.bytes f <:+: buf := by
  obtain ⟨fs, tail, hframing⟩ := F.exists_framing buf
  have hmem : x ∈ fs.map F.item := by
    rcases hframing.stuck with htail | htail
    · rwa [hframing.run_waiting htail] at h
    · rwa [hframing.run_broken htail] at h
  obtain ⟨f, hf, rfl⟩ := List.mem_map.mp hmem
  refine ⟨f, rfl, ?_⟩
  rw [hframing.eq]
  have hmem : F.bytes f ∈ fs.map F.bytes := List.mem_map_of_mem hf
  exact (List.infix_of_mem_flatten hmem).trans (List.infix_append [] _ tail)

/-- What is kept is the end of the buffer, or nothing. -/
theorem kept_suffix (buf : List β) : (F.run buf).2.kept <:+ buf := by
  obtain ⟨fs, tail, hframing⟩ := F.exists_framing buf
  rcases hframing.stuck with htail | htail
  · rw [hframing.run_waiting htail, hframing.eq]
    exact List.suffix_append _ tail
  · rw [hframing.run_broken htail]
    exact List.nil_suffix

/-- Whatever happens on the way, every item fed is that of a frame standing in
the stream. -/
theorem exists_infix_of_mem_feedAll {buf : List β} {chunks : List (List β)}
    {x : ι} (h : x ∈ (F.feedAll buf chunks).1) :
    ∃ f, F.item f = x ∧ F.bytes f <:+: buf ++ chunks.flatten := by
  induction chunks generalizing buf with
  | nil => cases h
  | cons chunk chunks ih =>
      rw [List.flatten_cons, ← List.append_assoc]
      rcases List.mem_append.mp h with h | h
      · obtain ⟨f, hf, hinfix⟩ := F.exists_infix_of_mem_run h
        exact ⟨f, hf, hinfix.trans (List.infix_append [] _ _)⟩
      · obtain ⟨f, hf, hinfix⟩ := ih h
        obtain ⟨front, hfront⟩ := F.kept_suffix (buf ++ chunk)
        refine ⟨f, hf, hinfix.trans ⟨front, [], ?_⟩⟩
        rw [List.append_nil, ← List.append_assoc]
        exact congrArg (· ++ chunks.flatten) hfront

theorem feedAll_append (buf : List β) (xs ys : List (List β)) :
    F.feedAll buf (xs ++ ys) =
      ((F.feedAll buf xs).1 ++ (F.feedAll (F.feedAll buf xs).2 ys).1,
        (F.feedAll (F.feedAll buf xs).2 ys).2) := by
  induction xs generalizing buf with
  | nil => rfl
  | cons chunk xs ih =>
      simp only [List.cons_append, feedAll, ih, List.append_assoc]

/-- As long as nothing breaks, feeding chunks is framing their concatenation. -/
theorem feedAll_waiting {buf : List β} (hbuf : F.run buf = ([], .waiting buf))
    {chunks : List (List β)} {items : List ι} {rest : List β}
    (h : F.run (buf ++ chunks.flatten) = (items, .waiting rest)) :
    F.feedAll buf chunks = (items, rest) := by
  induction chunks generalizing buf items with
  | nil =>
      rw [List.flatten_nil, List.append_nil, hbuf] at h
      cases h
      rfl
  | cons chunk chunks ih =>
      rw [List.flatten_cons, ← List.append_assoc] at h
      cases hrun : F.run (buf ++ chunk) with
      | mk found outcome =>
          cases outcome with
          | waiting kept =>
              rw [F.run_append_of_waiting hrun] at h
              injection h with hitems hrest
              have hih := ih (F.run_kept hrun) (Prod.ext rfl hrest)
              simp only [feedAll, feed, hrun, Outcome.kept, hih]
              rw [hitems]
          | broken kept =>
              rw [F.run_append_of_broken hrun] at h
              cases h

/-- When framing the concatenation breaks, some chunk is the first to break
it, and by the end of that chunk every item has been reported. -/
theorem feedAll_broken {buf : List β} (hbuf : F.run buf = ([], .waiting buf))
    {chunks : List (List β)} {items : List ι} {rest : List β}
    (h : F.run (buf ++ chunks.flatten) = (items, .broken rest)) :
    ∃ before chunk after, chunks = before ++ chunk :: after ∧
      (∃ found kept, F.run (buf ++ before.flatten) = (found, .waiting kept)) ∧
      (∃ left, F.run (buf ++ (before ++ [chunk]).flatten) =
        (items, .broken left)) ∧
      F.feedAll buf (before ++ [chunk]) = (items, []) := by
  induction chunks generalizing buf items with
  | nil =>
      rw [List.flatten_nil, List.append_nil, hbuf] at h
      cases h
  | cons chunk chunks ih =>
      rw [List.flatten_cons, ← List.append_assoc] at h
      cases hrun : F.run (buf ++ chunk) with
      | mk found outcome =>
          cases outcome with
          | waiting kept =>
              rw [F.run_append_of_waiting hrun] at h
              injection h with hitems hrest
              obtain ⟨before, first, after, rfl, ⟨f₁, k₁, hbefore⟩,
                ⟨left, hfirst⟩, hfeed⟩ := ih (F.run_kept hrun) (Prod.ext rfl hrest)
              refine ⟨chunk :: before, first, after, rfl, ⟨found ++ f₁, k₁, ?_⟩,
                ⟨left, ?_⟩, ?_⟩
              · rw [List.flatten_cons, ← List.append_assoc,
                  F.run_append_of_waiting hrun, hbefore]
              · rw [List.cons_append, List.flatten_cons, ← List.append_assoc,
                  F.run_append_of_waiting hrun, hfirst, ← hitems]
              · simp only [List.cons_append, feedAll, feed, hrun, Outcome.kept,
                  hfeed]
                rw [hitems]
          | broken kept =>
              rw [F.run_append_of_broken hrun] at h
              injection h with hitems _
              subst hitems
              refine ⟨[], chunk, chunks, rfl, ⟨[], buf, ?_⟩, ⟨kept, ?_⟩, ?_⟩
              · rw [List.flatten_nil, List.append_nil, hbuf]
              · simpa using hrun
              · simp only [List.nil_append, feedAll, feed, hrun, Outcome.kept,
                  List.append_nil]

/-- The same framer, reporting with each item the symbols of its frame. -/
def withBytes : Framer β φ (List β × ι) where
  bytes := F.bytes
  item f := (F.bytes f, F.item f)
  next buf :=
    match F.next buf with
    | .frame x n => .frame (buf.take n, x) n
    | .incomplete => .incomplete
    | .corrupt => .corrupt
  bytes_ne_nil := F.bytes_ne_nil
  next_bytes_append f more := by
    rw [F.next_bytes_append]
    simp only [List.take_left]
  exists_of_frame := by
    intro buf x n h
    cases hnext : F.next buf with
    | frame y m => exact F.exists_of_frame hnext
    | incomplete => simp [hnext] at h
    | corrupt => simp [hnext] at h
  corrupt_append := by
    intro buf more h
    cases hnext : F.next buf with
    | frame y m => simp [hnext] at h
    | incomplete => simp [hnext] at h
    | corrupt => rw [F.corrupt_append more hnext]

theorem run_withBytes (buf : List β) :
    F.run buf = ((F.withBytes.run buf).1.map Prod.snd, (F.withBytes.run buf).2) := by
  induction buf using run.induct F with
  | case1 buf x n hnext ih =>
      have hbytes : F.withBytes.next buf = .frame (buf.take n, x) n := by
        simp only [withBytes, hnext]
      rw [F.run_of_frame hnext, F.withBytes.run_of_frame hbytes, ih]
      rfl
  | case2 buf hnext =>
      have hbytes : F.withBytes.next buf = .incomplete := by
        simp only [withBytes, hnext]
      rw [F.run_of_incomplete hnext, F.withBytes.run_of_incomplete hbytes]
      rfl
  | case3 buf hnext =>
      have hbytes : F.withBytes.next buf = .corrupt := by
        simp only [withBytes, hnext]
      rw [F.run_of_corrupt hnext, F.withBytes.run_of_corrupt hbytes]
      rfl

theorem feedAll_withBytes (buf : List β) (chunks : List (List β)) :
    F.feedAll buf chunks = ((F.withBytes.feedAll buf chunks).1.map Prod.snd,
      (F.withBytes.feedAll buf chunks).2) := by
  induction chunks generalizing buf with
  | nil => rfl
  | cons chunk chunks ih =>
      simp only [feedAll, feed, F.run_withBytes (buf ++ chunk), ih,
        List.map_append]

end Framer

section SelfDelimiting

variable {α : Type u} {β : Type v}

/-- A word is found whatever follows it. -/
def SelfDelimiting (code : α → List β) : Prop :=
  ∀ ⦃a b : α⦄ ⦃more more' : List β⦄, code a ++ more = code b ++ more' →
    a = b ∧ more = more'

/-- Words in a row are told apart, and nothing shorter than a word is left. -/
theorem SelfDelimiting.eq_of_flatMap_append_eq {code : α → List β}
    (hcode : SelfDelimiting code) {as bs : List α} {more : List β}
    (hmore : ∀ a, more.length < (code a).length)
    (h : as.flatMap code ++ more = bs.flatMap code) : as = bs ∧ more = [] := by
  induction as generalizing bs with
  | nil =>
      cases bs with
      | nil => exact ⟨rfl, h⟩
      | cons b bs =>
          have hlen := congrArg List.length h
          rw [List.flatMap_nil, List.nil_append, List.flatMap_cons,
            List.length_append] at hlen
          have := hmore b
          omega
  | cons a as ih =>
      cases bs with
      | nil =>
          have hlen := congrArg List.length h
          rw [List.flatMap_nil, List.flatMap_cons, List.length_append,
            List.length_append, List.length_nil] at hlen
          have := hmore a
          omega
      | cons b bs =>
          rw [List.flatMap_cons, List.flatMap_cons, List.append_assoc] at h
          obtain ⟨rfl, hrest⟩ := hcode h
          obtain ⟨rfl, hnil⟩ := ih hrest
          exact ⟨rfl, hnil⟩

end SelfDelimiting

end StreamFraming
