/-
Replacing a file atomically: the encoded value goes to a temporary file beside
it, is synced, and is renamed over it.  Any step may fail, and the process may
crash between any two; what was not synced is lost or left in any state by it, a
rename stays.
-/
import Aquilo.Machine

namespace AtomicReplace

universe u v

/-- A file, with whether its contents would survive a crash. -/
structure File (α : Type u) where
  contents : List α
  synced : Bool
deriving DecidableEq, Repr

/-- Where the replacement by a value stands; `rest` has still to be written. -/
inductive Progress (α : Type u) (β : Type v) where
  | idle
  | begun (value : β)
  | writing (value : β) (contents rest : List α)
  | synced (value : β) (contents : List α)
  | replaced (value : β)

/-- The value of a replacement that has not renamed anything yet. -/
def Progress.pending {α : Type u} {β : Type v} : Progress α β → Option β
  | .begun value | .writing value _ _ | .synced value _ => some value
  | .idle | .replaced _ => none

/-- The two files, the replacement under way, and the values whose rename took
effect, oldest first. -/
structure Store (α : Type u) (β : Type v) where
  target : Option (File α)
  temp : Option (File α)
  progress : Progress α β
  renamed : List β

inductive Action (α : Type u) (β : Type v) where
  | start (value : β)
  | create
  | write (count : ℕ)
  | sync
  | rename
  | finish
  | fail
  | crash (left : Option (List α))

variable {α : Type u} {β : Type v}

def Action.isRename : Action α β → Bool
  | .rename => true
  | _ => false

/-- What a crash leaves of a file. -/
def File.afterCrash (left : Option (List α)) (f : File α) : Option (File α) :=
  if f.synced then some f else left.map fun contents => ⟨contents, true⟩

/-- A crash spares a file that is synced, and the absence of one. -/
theorem File.bind_afterCrash {file : Option (File α)}
    (h : ∀ f, file = some f → f.synced = true) (left : Option (List α)) :
    file.bind (File.afterCrash left) = file := by
  cases file with
  | none => rfl
  | some f => rw [Option.bind_some, File.afterCrash, if_pos (h f rfl)]

namespace Store

def initial (target temp : Option (File α)) : Store α β where
  target := target
  temp := temp
  progress := .idle
  renamed := []

/-- Append to the temporary file. -/
def append (bytes : List α) (f : File α) : File α :=
  ⟨f.contents ++ bytes, false⟩

section Step

variable (encode : β → Option (List α))

def step (s : Store α β) : Action α β → Option (Store α β)
  | .start value =>
      match s.progress with
      | .idle => some { s with progress := .begun value }
      | _ => none
  | .create =>
      match s.progress with
      | .begun value =>
          (encode value).map fun contents =>
            { s with
              temp := some ⟨[], false⟩
              progress := .writing value contents contents }
      | _ => none
  | .write count =>
      match s.progress with
      | .writing value contents rest =>
          some { s with
            temp := s.temp.map (append (rest.take count))
            progress := .writing value contents (rest.drop count) }
      | _ => none
  | .sync =>
      match s.progress with
      | .writing value contents [] =>
          some { s with
            temp := s.temp.map fun f => { f with synced := true }
            progress := .synced value contents }
      | _ => none
  | .rename =>
      match s.progress with
      | .synced value _ =>
          some { s with
            target := s.temp
            temp := none
            progress := .replaced value
            renamed := s.renamed ++ [value] }
      | _ => none
  | .finish =>
      match s.progress with
      | .replaced _ => some { s with progress := .idle }
      | _ => none
  | .fail => s.progress.pending.map fun _ => { s with progress := .idle }
  | .crash left =>
      some { s with
        target := s.target.bind (File.afterCrash left)
        temp := s.temp.bind (File.afterCrash left)
        progress := .idle }

def run (s : Store α β) (actions : List (Action α β)) : Option (Store α β) :=
  Machine.run (step encode) s actions

/-- What the temporary file holds while a replacement is under way. -/
def TempHolds (temp : Option (File α)) : Progress α β → Prop
  | .idle | .begun _ => True
  | .writing value contents rest => encode value = some contents ∧
      ∃ done, temp = some ⟨done, false⟩ ∧ done ++ rest = contents
  | .synced value contents => encode value = some contents ∧
      temp = some ⟨contents, true⟩
  | .replaced _ => temp = none

/-- The target is the complete encoding of the last value renamed, or what it
was at the start. -/
def TargetHolds (origin target : Option (File α)) (renamed : List β) : Prop :=
  match renamed.getLast? with
  | none => target = origin
  | some value => ∃ contents, encode value = some contents ∧
      target = some ⟨contents, true⟩

structure Inv (origin : Option (File α)) (s : Store α β) : Prop where
  target : TargetHolds encode origin s.target s.renamed
  temp : TempHolds encode s.temp s.progress

variable {encode}

/-- Everything a step can do. -/
theorem step_cases {s s' : Store α β} {a : Action α β}
    (h : s.step encode a = some s') :
    (∃ value, a = .start value ∧ s.progress = .idle ∧
      s' = { s with progress := .begun value }) ∨
    (∃ value contents, a = .create ∧ s.progress = .begun value ∧
      encode value = some contents ∧
      s' = { s with
        temp := some ⟨[], false⟩
        progress := .writing value contents contents }) ∨
    (∃ count value contents rest, a = .write count ∧
      s.progress = .writing value contents rest ∧
      s' = { s with
        temp := s.temp.map (append (rest.take count))
        progress := .writing value contents (rest.drop count) }) ∨
    (∃ value contents, a = .sync ∧ s.progress = .writing value contents [] ∧
      s' = { s with
        temp := s.temp.map fun f => { f with synced := true }
        progress := .synced value contents }) ∨
    (∃ value contents, a = .rename ∧ s.progress = .synced value contents ∧
      s' = { s with
        target := s.temp
        temp := none
        progress := .replaced value
        renamed := s.renamed ++ [value] }) ∨
    (∃ value, a = .finish ∧ s.progress = .replaced value ∧
      s' = { s with progress := .idle }) ∨
    (∃ value, a = .fail ∧ s.progress.pending = some value ∧
      s' = { s with progress := .idle }) ∨
    (∃ left, a = .crash left ∧
      s' = { s with
        target := s.target.bind (File.afterCrash left)
        temp := s.temp.bind (File.afterCrash left)
        progress := .idle }) := by
  cases a with
  | start value =>
      simp only [step] at h
      split at h
      · rename_i hp
        exact Or.inl ⟨value, rfl, hp, (Option.some.inj h).symm⟩
      · cases h
  | create =>
      simp only [step] at h
      split at h
      · rename_i value hp
        obtain ⟨contents, henc, rfl⟩ := Option.map_eq_some_iff.mp h
        exact Or.inr (Or.inl ⟨value, contents, rfl, hp, henc, rfl⟩)
      · cases h
  | write count =>
      simp only [step] at h
      split at h
      · rename_i value contents rest hp
        exact Or.inr (Or.inr (Or.inl
          ⟨count, value, contents, rest, rfl, hp, (Option.some.inj h).symm⟩))
      · cases h
  | sync =>
      simp only [step] at h
      split at h
      · rename_i value contents hp
        exact Or.inr (Or.inr (Or.inr (Or.inl
          ⟨value, contents, rfl, hp, (Option.some.inj h).symm⟩)))
      · cases h
  | rename =>
      simp only [step] at h
      split at h
      · rename_i value contents hp
        exact Or.inr (Or.inr (Or.inr (Or.inr (Or.inl
          ⟨value, contents, rfl, hp, (Option.some.inj h).symm⟩))))
      · cases h
  | finish =>
      simp only [step] at h
      split at h
      · rename_i value hp
        exact Or.inr (Or.inr (Or.inr (Or.inr (Or.inr (Or.inl
          ⟨value, rfl, hp, (Option.some.inj h).symm⟩)))))
      · cases h
  | fail =>
      obtain ⟨value, hp, rfl⟩ := Option.map_eq_some_iff.mp h
      exact Or.inr (Or.inr (Or.inr (Or.inr (Or.inr (Or.inr (Or.inl
        ⟨value, rfl, hp, rfl⟩))))))
  | crash left =>
      exact Or.inr (Or.inr (Or.inr (Or.inr (Or.inr (Or.inr (Or.inr
        ⟨left, rfl, (Option.some.inj h).symm⟩))))))

/-- A target that holds a complete value is synced. -/
theorem TargetHolds.synced {origin target : Option (File α)}
    {renamed : List β} (horigin : ∀ f, origin = some f → f.synced = true)
    (h : TargetHolds encode origin target renamed) :
    ∀ f, target = some f → f.synced = true := by
  rw [TargetHolds] at h
  split at h
  · rw [h]
    exact horigin
  · obtain ⟨contents, -, rfl⟩ := h
    rintro f ⟨⟩
    rfl

theorem inv_initial (origin temp : Option (File α)) :
    Inv encode origin (initial origin temp) where
  target := rfl
  temp := trivial

theorem Inv.step {origin : Option (File α)}
    (horigin : ∀ f, origin = some f → f.synced = true) {s s' : Store α β}
    {a : Action α β} (h : Inv encode origin s)
    (hstep : s.step encode a = some s') : Inv encode origin s' := by
  have htemp := h.temp
  rcases step_cases hstep with
    ⟨value, rfl, hp, rfl⟩ | ⟨value, contents, rfl, hp, henc, rfl⟩ |
    ⟨count, value, contents, rest, rfl, hp, rfl⟩ |
    ⟨value, contents, rfl, hp, rfl⟩ | ⟨value, contents, rfl, hp, rfl⟩ |
    ⟨value, rfl, hp, rfl⟩ | ⟨value, rfl, hp, rfl⟩ | ⟨left, rfl, rfl⟩
  · exact ⟨h.target, trivial⟩
  · exact ⟨h.target, henc, [], rfl, rfl⟩
  · rw [hp] at htemp
    obtain ⟨henc, done, hdone, hsplit⟩ := htemp
    refine ⟨h.target, henc, done ++ rest.take count, ?_, ?_⟩
    · rw [hdone]
      rfl
    · rw [List.append_assoc, List.take_append_drop, hsplit]
  · rw [hp] at htemp
    obtain ⟨henc, done, hdone, hsplit⟩ := htemp
    rw [List.append_nil] at hsplit
    refine ⟨h.target, henc, ?_⟩
    rw [hdone, hsplit]
    rfl
  · -- the one step that touches the target renames a complete, synced file
    rw [hp] at htemp
    refine ⟨?_, rfl⟩
    rw [TargetHolds, List.getLast?_concat]
    exact ⟨contents, htemp⟩
  · exact ⟨h.target, trivial⟩
  · exact ⟨h.target, trivial⟩
  · refine ⟨?_, trivial⟩
    rw [File.bind_afterCrash (h.target.synced horigin)]
    exact h.target

theorem Inv.run {origin : Option (File α)}
    (horigin : ∀ f, origin = some f → f.synced = true) {s s' : Store α β}
    {actions : List (Action α β)} (h : Inv encode origin s)
    (hrun : s.run encode actions = some s') : Inv encode origin s' := by
  have hstep : ∀ {s s' : Store α β} {a : Action α β}, Inv encode origin s →
      s.step encode a = some s' → Inv encode origin s' :=
    fun hs hstep => hs.step horigin hstep
  exact Machine.run_invariant hstep h hrun

/-- Each rename adds one value to what took effect, and nothing else does. -/
theorem step_renamed {s s' : Store α β} {a : Action α β}
    (h : s.step encode a = some s') :
    ∃ values, s'.renamed = s.renamed ++ values ∧
      values.length = if a.isRename then 1 else 0 := by
  rcases step_cases h with
    ⟨value, rfl, hp, rfl⟩ | ⟨value, contents, rfl, hp, henc, rfl⟩ |
    ⟨count, value, contents, rest, rfl, hp, rfl⟩ |
    ⟨value, contents, rfl, hp, rfl⟩ | ⟨value, contents, rfl, hp, rfl⟩ |
    ⟨value, rfl, hp, rfl⟩ | ⟨value, rfl, hp, rfl⟩ | ⟨left, rfl, rfl⟩
  · exact ⟨[], by simp, rfl⟩
  · exact ⟨[], by simp, rfl⟩
  · exact ⟨[], by simp, rfl⟩
  · exact ⟨[], by simp, rfl⟩
  · exact ⟨[value], rfl, rfl⟩
  · exact ⟨[], by simp, rfl⟩
  · exact ⟨[], by simp, rfl⟩
  · exact ⟨[], by simp, rfl⟩

theorem run_renamed {s s' : Store α β} {actions : List (Action α β)}
    (hrun : s.run encode actions = some s') :
    ∃ values, s'.renamed = s.renamed ++ values ∧
      values.length = actions.countP Action.isRename := by
  induction actions generalizing s with
  | nil =>
      cases Option.some.inj hrun
      exact ⟨[], by simp, rfl⟩
  | cons a rest ih =>
      obtain ⟨mid, hmid, hrest⟩ := Option.bind_eq_some_iff.mp hrun
      obtain ⟨first, hfirst, hlen⟩ := step_renamed hmid
      obtain ⟨later, hlater, hlen'⟩ := ih hrest
      refine ⟨first ++ later, ?_, ?_⟩
      · rw [hlater, hfirst, List.append_assoc]
      · rw [List.length_append, hlen, hlen', List.countP_cons, Nat.add_comm]

/-- Without a rename nothing takes effect. -/
theorem run_renamed_of_not_mem {s s' : Store α β}
    {actions : List (Action α β)} (hactions : .rename ∉ actions)
    (hrun : s.run encode actions = some s') : s'.renamed = s.renamed := by
  obtain ⟨values, hvalues, hlen⟩ := run_renamed hrun
  have hzero : actions.countP Action.isRename = 0 := by
    rw [List.countP_eq_zero]
    intro a ha hrename
    cases a with
    | rename => exact hactions ha
    | _ => cases hrename
  rw [hzero, List.length_eq_zero_iff] at hlen
  rw [hvalues, hlen, List.append_nil]

/-- During one replacement by `value`: what it has renamed. -/
structure OneReplacement (before : List β) (value : β) (s : Store α β) :
    Prop where
  renamed : s.renamed = before ∨ s.renamed = before ++ [value]
  pending : ∀ v, s.progress.pending = some v → v = value ∧ s.renamed = before

theorem OneReplacement.step {before : List β} {value : β} {s s' : Store α β}
    {a : Action α β} (ha : ∀ v, a ≠ .start v)
    (h : OneReplacement before value s) (hstep : s.step encode a = some s') :
    OneReplacement before value s' := by
  have hpending := h.pending
  have hended : OneReplacement before value { s with progress := .idle } :=
    ⟨h.renamed, fun _ hv => (by cases hv)⟩
  rcases step_cases hstep with
    ⟨v, rfl, hp, rfl⟩ | ⟨v, contents, rfl, hp, henc, rfl⟩ |
    ⟨count, v, contents, rest, rfl, hp, rfl⟩ |
    ⟨v, contents, rfl, hp, rfl⟩ | ⟨v, contents, rfl, hp, rfl⟩ |
    ⟨v, rfl, hp, rfl⟩ | ⟨v, rfl, hp, rfl⟩ | ⟨left, rfl, rfl⟩
  · exact absurd rfl (ha v)
  · rw [hp] at hpending
    exact ⟨h.renamed, hpending⟩
  · rw [hp] at hpending
    exact ⟨h.renamed, hpending⟩
  · rw [hp] at hpending
    exact ⟨h.renamed, hpending⟩
  · rw [hp] at hpending
    obtain ⟨rfl, hbefore⟩ := hpending v rfl
    have hrenamed : s.renamed ++ [v] = before ++ [v] := by rw [hbefore]
    exact ⟨Or.inr hrenamed, fun _ hv => (by cases hv)⟩
  · exact hended
  · exact hended
  · exact ⟨hended.renamed, hended.pending⟩

theorem oneReplacement_run {s s' : Store α β} {value : β}
    {actions : List (Action α β)} (hactions : ∀ a ∈ actions, ∀ v, a ≠ .start v)
    (hrun : s.run encode (.start value :: actions) = some s') :
    OneReplacement s.renamed value s' := by
  obtain ⟨mid, hmid, hrest⟩ := Option.bind_eq_some_iff.mp hrun
  have hbegun : OneReplacement s.renamed value mid := by
    simp only [step] at hmid
    split at hmid
    · cases Option.some.inj hmid
      refine ⟨Or.inl rfl, fun v hv => ?_⟩
      exact ⟨(Option.some.inj hv).symm, rfl⟩
    · cases hmid
  have hstep : ∀ {mid next : Store α β} {a : Action α β},
      (∀ v, a ≠ .start v) → OneReplacement s.renamed value mid →
      mid.step encode a = some next → OneReplacement s.renamed value next :=
    OneReplacement.step
  exact Machine.run_induction hstep hactions hbegun hrest

/-- With a rename, the value of a replacement has taken effect. -/
theorem renamed_of_mem {s s' : Store α β} {value : β}
    {actions : List (Action α β)} (hactions : ∀ a ∈ actions, ∀ v, a ≠ .start v)
    (hrename : .rename ∈ actions)
    (hrun : s.run encode (.start value :: actions) = some s') :
    s'.renamed = s.renamed ++ [value] := by
  refine (oneReplacement_run hactions hrun).renamed.resolve_left fun hsame => ?_
  obtain ⟨values, hvalues, hlen⟩ := run_renamed hrun
  have hpos : 0 < (.start value :: actions).countP Action.isRename :=
    List.countP_pos_iff.mpr ⟨.rename, List.mem_cons_of_mem _ hrename, rfl⟩
  rw [hsame] at hvalues
  rw [List.self_eq_append_right.mp hvalues] at hlen
  simp only [List.length_nil] at hlen
  omega

/-- A replacement that fails has renamed nothing. -/
theorem renamed_of_failed {s s' : Store α β} {value : β}
    {actions : List (Action α β)} (hactions : ∀ a ∈ actions, ∀ v, a ≠ .start v)
    (hrun : s.run encode (.start value :: (actions ++ [.fail])) = some s') :
    s'.renamed = s.renamed := by
  rw [← List.cons_append, run, Machine.run_append] at hrun
  obtain ⟨mid, hmid, hfail⟩ := Option.bind_eq_some_iff.mp hrun
  have hone := oneReplacement_run hactions hmid
  obtain ⟨last, hlast, hend⟩ := Option.bind_eq_some_iff.mp hfail
  obtain ⟨v, hp, rfl⟩ := Option.map_eq_some_iff.mp hlast
  cases Option.some.inj hend
  exact (hone.pending v hp).2

end Step

end Store

end AtomicReplace
