/-
Runs of a partial state machine: an action that is not enabled stops the run.
-/
import Mathlib

namespace Machine

universe u v w z

variable {σ : Type u} {α : Type v} (step : σ → α → Option σ)

/-- The state after a sequence of actions, when each was enabled. -/
def run (s : σ) : List α → Option σ
  | [] => some s
  | a :: rest => (step s a).bind fun s' => run s' rest

@[simp] theorem run_nil (s : σ) : run step s [] = some s := rfl

theorem run_cons (s : σ) (a : α) (rest : List α) :
    run step s (a :: rest) = (step s a).bind fun s' => run step s' rest := rfl

theorem run_append (s : σ) (xs ys : List α) :
    run step s (xs ++ ys) =
      (run step s xs).bind fun s' => run step s' ys := by
  induction xs generalizing s with
  | nil => rfl
  | cons a rest ih =>
      rw [List.cons_append, run_cons, run_cons]
      cases step s a with
      | none => rfl
      | some s' => exact ih s'

theorem run_concat (s : σ) (xs : List α) (a : α) :
    run step s (xs ++ [a]) = (run step s xs).bind fun s' => step s' a := by
  rw [run_append]
  congr 1
  funext s'
  rw [run_cons]
  cases step s' a <;> rfl

variable {step}

theorem run_append_of_eq_some {s mid : σ} {xs : List α}
    (h : run step s xs = some mid) (ys : List α) :
    run step s (xs ++ ys) = run step mid ys := by
  rw [run_append, h, Option.bind_some]

/-- What holds at the start and is kept by every admissible step holds after
every run of admissible actions. -/
theorem run_induction {P : σ → Prop} {admissible : α → Prop}
    (hstep : ∀ {s s' a}, admissible a → P s → step s a = some s' → P s')
    {s s' : σ} {actions : List α} (hadm : ∀ a ∈ actions, admissible a)
    (hs : P s) (hrun : run step s actions = some s') : P s' := by
  induction actions generalizing s with
  | nil =>
      cases Option.some.inj hrun
      exact hs
  | cons a rest ih =>
      obtain ⟨mid, hmid, hrest⟩ := Option.bind_eq_some_iff.mp hrun
      exact ih (fun b hb => hadm b (List.mem_cons_of_mem a hb))
        (hstep (hadm a List.mem_cons_self) hs hmid) hrest

/-- What every step keeps, every run keeps. -/
theorem run_invariant {P : σ → Prop}
    (hstep : ∀ {s s' a}, P s → step s a = some s' → P s') {s s' : σ}
    {actions : List α} (hs : P s) (hrun : run step s actions = some s') : P s' := by
  have hall : ∀ {s s' : σ} {a : α}, True → P s → step s a = some s' → P s' :=
    fun _ h hs => hstep h hs
  exact run_induction hall (fun _ _ => trivial) hs hrun

/-- An invariant may speak of the actions that were taken. -/
theorem run_history {P : List α → σ → Prop} {admissible : α → Prop}
    (hstep : ∀ {pre s s' a}, admissible a → P pre s → step s a = some s' →
      P (pre ++ [a]) s')
    {s s' : σ} {actions : List α} (hadm : ∀ a ∈ actions, admissible a)
    (hs : P [] s) (hrun : run step s actions = some s') : P actions s' := by
  induction actions using List.reverseRecOn generalizing s' with
  | nil =>
      cases Option.some.inj hrun
      exact hs
  | append_singleton pre a ih =>
      rw [List.forall_mem_append, List.forall_mem_singleton] at hadm
      rw [run_concat] at hrun
      obtain ⟨mid, hmid, hlast⟩ := Option.bind_eq_some_iff.mp hrun
      exact hstep hadm.2 (ih hadm.1 hmid) hlast

/-- Where exactly the good steps lead from a state with a property to another,
the property holds throughout a run when every step of it is good. -/
theorem forall_prefix_iff {P : σ → Prop} {good : σ → α → Prop}
    (hstep : ∀ {s s' a}, P s → step s a = some s' → (P s' ↔ good s a)) {s : σ}
    (hs : P s) (actions : List α) :
    (∀ pre s', pre <+: actions → run step s pre = some s' → P s') ↔
      ∀ pre a s' s'', pre ++ [a] <+: actions → run step s pre = some s' →
        step s' a = some s'' → good s' a := by
  constructor
  · intro h pre a s' s'' hpre hrun hs''
    refine (hstep (h pre s' ((List.prefix_append pre [a]).trans hpre) hrun)
      hs'').mp (h (pre ++ [a]) s'' hpre ?_)
    rw [run_concat, hrun, Option.bind_some, hs'']
  · intro h pre
    induction pre using List.reverseRecOn with
    | nil =>
        intro s' _ hrun
        cases Option.some.inj hrun
        exact hs
    | append_singleton pre a ih =>
        intro s'' hpre hrun
        rw [run_concat] at hrun
        obtain ⟨s', hrun', hs''⟩ := Option.bind_eq_some_iff.mp hrun
        have hs' := ih s' ((List.prefix_append pre [a]).trans hpre) hrun'
        exact (hstep hs' hs'').mpr (h pre a s' s'' hpre hrun' hs'')

/-- A machine refines another when each of its steps is matched by a run of the
other between related states: then so is every run, piece by piece. -/
theorem run_refines {τ : Type w} {β : Type z} {step' : τ → β → Option τ}
    {R : σ → τ → Prop} {admissible : α → Prop} {matched : α → List β → Prop}
    (hstep : ∀ {s s' t a}, admissible a → R s t → step s a = some s' →
      ∃ bs t', matched a bs ∧ run step' t bs = some t' ∧ R s' t')
    {s s' : σ} {t : τ} {actions : List α} (hadm : ∀ a ∈ actions, admissible a)
    (hs : R s t) (hrun : run step s actions = some s') :
    ∃ pieces t', List.Forall₂ matched actions pieces ∧
      run step' t pieces.flatten = some t' ∧ R s' t' := by
  induction actions generalizing s t with
  | nil =>
      cases Option.some.inj hrun
      exact ⟨[], t, .nil, rfl, hs⟩
  | cons a rest ih =>
      obtain ⟨mid, hmid, hrest⟩ := Option.bind_eq_some_iff.mp hrun
      obtain ⟨bs, t₁, hmatched, hpiece, hmidR⟩ :=
        hstep (hadm a List.mem_cons_self) hs hmid
      obtain ⟨pieces, t', hpieces, hlater, hR⟩ :=
        ih (fun b hb => hadm b (List.mem_cons_of_mem a hb)) hmidR hrest
      refine ⟨bs :: pieces, t', .cons hmatched hpieces, ?_, hR⟩
      rw [List.flatten_cons, run_append_of_eq_some hpiece]
      exact hlater

end Machine
