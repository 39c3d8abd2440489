/-
A one-shot guard: callers take a snapshot, swap a flag and write only if it was
down; a failed write puts the flag down again.  Whatever the interleaving, the
guard is armed, held by one caller, or spent.
-/
import Aquilo.Machine

namespace OneShot

universe u v

/-- Where a caller stands. -/
inductive Phase (σ : Type v) where
  | idle
  | ready (snap : σ)
  | writing (snap : σ)
  | failed

/-- The flag and the callers, with the snapshots from which a write was begun
and those written successfully. -/
structure Guard (ι : Type u) (σ : Type v) where
  flag : Bool
  phase : ι → Phase σ
  attempts : List σ
  succeeded : List σ

/-- What the guard stands for. -/
inductive Stage (ι : Type u) (σ : Type v) where
  | armed
  | held (i : ι)
  | spent (snap : σ)

inductive Action (ι : Type u) (σ : Type v) where
  | snapshot (i : ι) (snap : σ)
  | swap (i : ι)
  | succeed (i : ι)
  | fail (i : ι)
  | reset (i : ι)

variable {ι : Type u} {σ : Type v}

/-- From a successful swap to the end of the write or of the reset. -/
def Phase.Holds : Phase σ → Prop
  | .writing _ | .failed => True
  | .idle | .ready _ => False

namespace Guard

def initial : Guard ι σ where
  flag := false
  phase := fun _ => .idle
  attempts := []
  succeeded := []

/-- A guard as its stage sees it. -/
def Refines (g : Guard ι σ) : Stage ι σ → Prop
  | .armed => g.flag = false ∧ g.succeeded = [] ∧ ∀ j, ¬ (g.phase j).Holds
  | .held i => g.flag = true ∧ g.succeeded = [] ∧
      ∀ j, (g.phase j).Holds ↔ j = i
  | .spent snap => g.flag = true ∧ g.succeeded = [snap] ∧
      ∀ j, ¬ (g.phase j).Holds

theorem refines_initial : (initial : Guard ι σ).Refines .armed :=
  ⟨rfl, rfl, fun _ h => h⟩

/-- Whoever holds is the one the stage names. -/
theorem Refines.held_of_holds {g : Guard ι σ} {stage : Stage ι σ}
    (h : g.Refines stage) {i : ι} (hi : (g.phase i).Holds) :
    g.Refines (.held i) := by
  cases stage with
  | armed => exact absurd hi (h.2.2 i)
  | held k =>
      obtain rfl := (h.2.2 i).mp hi
      exact h
  | spent snap => exact absurd hi (h.2.2 i)

/-- No two callers hold at once. -/
theorem Refines.exclusive {g : Guard ι σ} {stage : Stage ι σ}
    (h : g.Refines stage) {i j : ι} (hi : (g.phase i).Holds)
    (hj : (g.phase j).Holds) : i = j :=
  (((h.held_of_holds hi).2.2 j).mp hj).symm

/-- Nothing has been written while somebody holds. -/
theorem Refines.succeeded_of_holds {g : Guard ι σ} {stage : Stage ι σ}
    (h : g.Refines stage) {i : ι} (hi : (g.phase i).Holds) : g.succeeded = [] :=
  (h.held_of_holds hi).2.1

/-- Every snapshot in use, and every one a write was begun from, is valid. -/
structure Valid (P : σ → Prop) (g : Guard ι σ) : Prop where
  ready : ∀ i snap, g.phase i = .ready snap → P snap
  writing : ∀ i snap, g.phase i = .writing snap → P snap
  attempts : ∀ snap ∈ g.attempts, P snap

theorem valid_initial (P : σ → Prop) : (initial : Guard ι σ).Valid P where
  ready _ _ h := by cases h
  writing _ _ h := by cases h
  attempts _ h := by cases h

variable [DecidableEq ι]

/-- One caller moves on. -/
def move (g : Guard ι σ) (i : ι) (p : Phase σ) : Guard ι σ :=
  { g with phase := Function.update g.phase i p }

def step (g : Guard ι σ) : Action ι σ → Option (Guard ι σ)
  | .snapshot i snap =>
      match g.phase i with
      | .idle => some (g.move i (.ready snap))
      | _ => none
  | .swap i =>
      match g.phase i with
      | .ready snap =>
          if g.flag then some (g.move i .idle)
          else some { g.move i (.writing snap) with
            flag := true
            attempts := g.attempts ++ [snap] }
      | _ => none
  | .succeed i =>
      match g.phase i with
      | .writing snap =>
          some { g.move i .idle with succeeded := g.succeeded ++ [snap] }
      | _ => none
  | .fail i =>
      match g.phase i with
      | .writing _ => some (g.move i .failed)
      | _ => none
  | .reset i =>
      match g.phase i with
      | .failed => some { g.move i .idle with flag := false }
      | _ => none

theorem move_phase (g : Guard ι σ) (i j : ι) (p : Phase σ) :
    (g.move i p).phase j = if j = i then p else g.phase j :=
  Function.update_apply g.phase i p j

@[simp] theorem move_phase_self (g : Guard ι σ) (i : ι) (p : Phase σ) :
    (g.move i p).phase i = p := by
  rw [move_phase, if_pos rfl]

/-- Once the only busy caller is idle again, all are. -/
theorem move_idle_phase {g : Guard ι σ} {i : ι}
    (h : ∀ j, j ≠ i → g.phase j = .idle) (j : ι) :
    (g.move i .idle).phase j = .idle := by
  rw [move_phase]
  split
  · rfl
  · rename_i hj
    exact h j hj

theorem move_phase_of_ne {g : Guard ι σ} {i j : ι} (hj : j ≠ i) (p : Phase σ) :
    (g.move i p).phase j = g.phase j := by
  rw [move_phase, if_neg hj]

theorem step_snapshot_of_idle {g : Guard ι σ} {i : ι} (h : g.phase i = .idle)
    (snap : σ) : g.step (.snapshot i snap) = some (g.move i (.ready snap)) := by
  simp only [step, h]

theorem step_swap_of_up {g : Guard ι σ} {i : ι} {snap : σ}
    (h : g.phase i = .ready snap) (hflag : g.flag = true) :
    g.step (.swap i) = some (g.move i .idle) := by
  simp only [step, h, hflag, if_true]

theorem step_swap_of_down {g : Guard ι σ} {i : ι} {snap : σ}
    (h : g.phase i = .ready snap) (hflag : g.flag = false) :
    g.step (.swap i) = some { g.move i (.writing snap) with
      flag := true
      attempts := g.attempts ++ [snap] } := by
  simp only [step, h, hflag, if_false, Bool.false_eq_true]

/-- Everything a step can do. -/
theorem step_cases {g g' : Guard ι σ} {a : Action ι σ}
    (h : g.step a = some g') :
    (∃ i snap, a = .snapshot i snap ∧ g.phase i = .idle ∧
      g' = g.move i (.ready snap)) ∨
    (∃ i snap, a = .swap i ∧ g.phase i = .ready snap ∧ g.flag = true ∧
      g' = g.move i .idle) ∨
    (∃ i snap, a = .swap i ∧ g.phase i = .ready snap ∧ g.flag = false ∧
      g' = { g.move i (.writing snap) with
        flag := true
        attempts := g.attempts ++ [snap] }) ∨
    (∃ i snap, a = .succeed i ∧ g.phase i = .writing snap ∧
      g' = { g.move i .idle with succeeded := g.succeeded ++ [snap] }) ∨
    (∃ i snap, a = .fail i ∧ g.phase i = .writing snap ∧
      g' = g.move i .failed) ∨
    (∃ i, a = .reset i ∧ g.phase i = .failed ∧
      g' = { g.move i .idle with flag := false }) := by
  cases a with
  | snapshot i snap =>
      simp only [step] at h
      split at h
      · rename_i hp
        exact Or.inl ⟨i, snap, rfl, hp, (Option.some.inj h).symm⟩
      · cases h
  | swap i =>
      simp only [step] at h
      split at h
      · rename_i snap hp
        split at h
        · rename_i hflag
          exact Or.inr (Or.inl
            ⟨i, snap, rfl, hp, hflag, (Option.some.inj h).symm⟩)
        · rename_i hflag
          exact Or.inr (Or.inr (Or.inl ⟨i, snap, rfl, hp,
            Bool.eq_false_iff.mpr hflag, (Option.some.inj h).symm⟩))
      · cases h
  | succeed i =>
      simp only [step] at h
      split at h
      · rename_i snap hp
        exact Or.inr (Or.inr (Or.inr (Or.inl
          ⟨i, snap, rfl, hp, (Option.some.inj h).symm⟩)))
      · cases h
  | fail i =>
      simp only [step] at h
      split at h
      · rename_i snap hp
        exact Or.inr (Or.inr (Or.inr (Or.inr (Or.inl
          ⟨i, snap, rfl, hp, (Option.some.inj h).symm⟩))))
      · cases h
  | reset i =>
      simp only [step] at h
      split at h
      · rename_i hp
        exact Or.inr (Or.inr (Or.inr (Or.inr (Or.inr
          ⟨i, rfl, hp, (Option.some.inj h).symm⟩))))
      · cases h

theorem step_fail {g g' : Guard ι σ} {i : ι} (h : g.step (.fail i) = some g') :
    (∃ snap, g.phase i = .writing snap) ∧ g' = g.move i .failed := by
  rcases step_cases h with
    ⟨_, _, ⟨⟩, _⟩ | ⟨_, _, ⟨⟩, _⟩ | ⟨_, _, ⟨⟩, _⟩ | ⟨_, _, ⟨⟩, _⟩ |
    ⟨_, snap, ⟨⟩, hp, rfl⟩ | ⟨_, ⟨⟩, _⟩
  exact ⟨⟨snap, hp⟩, rfl⟩

theorem step_succeed {g g' : Guard ι σ} {i : ι} {snap : σ}
    (hp : g.phase i = .writing snap) (h : g.step (.succeed i) = some g') :
    g' = { g.move i .idle with succeeded := g.succeeded ++ [snap] } := by
  simp only [step, hp] at h
  exact (Option.some.inj h).symm

/-- A caller begins to write only by its own swap. -/
theorem writing_of_step {g g' : Guard ι σ} {a : Action ι σ} {j : ι} {snap : σ}
    (h : g.step a = some g') (hj : g'.phase j = .writing snap)
    (ha : a ≠ .swap j) : g.phase j = .writing snap := by
  have hmove : ∀ {i : ι} {p : Phase σ}, (∀ s, p ≠ .writing s) →
      (g.move i p).phase j = .writing snap → g.phase j = .writing snap := by
    intro i p hne hmoved
    rw [move_phase] at hmoved
    split at hmoved
    · exact absurd hmoved (hne snap)
    · exact hmoved
  rcases step_cases h with
    ⟨i, s, rfl, hp, rfl⟩ | ⟨i, s, rfl, hp, hflag, rfl⟩ |
    ⟨i, s, rfl, hp, hflag, rfl⟩ | ⟨i, s, rfl, hp, rfl⟩ |
    ⟨i, s, rfl, hp, rfl⟩ | ⟨i, rfl, hp, rfl⟩
  · exact hmove (fun _ => by simp) hj
  · exact hmove (fun _ => by simp) hj
  · change (g.move i (.writing s)).phase j = .writing snap at hj
    rw [move_phase, if_neg (fun hji => ha (by rw [hji]))] at hj
    exact hj
  · exact hmove (fun _ => by simp) hj
  · exact hmove (fun _ => by simp) hj
  · exact hmove (fun _ => by simp) hj

/-- Only a success is recorded as one. -/
theorem succeeded_of_step {g g' : Guard ι σ} {a : Action ι σ}
    (h : g.step a = some g') (ha : ∀ i, a ≠ .succeed i) :
    g'.succeeded = g.succeeded := by
  rcases step_cases h with
    ⟨i, s, rfl, hp, rfl⟩ | ⟨i, s, rfl, hp, hflag, rfl⟩ |
    ⟨i, s, rfl, hp, hflag, rfl⟩ | ⟨i, s, rfl, hp, rfl⟩ |
    ⟨i, s, rfl, hp, rfl⟩ | ⟨i, rfl, hp, rfl⟩
  · rfl
  · rfl
  · rfl
  · exact absurd rfl (ha i)
  · rfl
  · rfl

/-- A caller that does not hold moves to a phase that does not. -/
theorem Refines.move_of_not_holds {g : Guard ι σ} {stage : Stage ι σ}
    (h : g.Refines stage) {i : ι} (hi : ¬ (g.phase i).Holds) {p : Phase σ}
    (hp : ¬ p.Holds) : (g.move i p).Refines stage := by
  have hsame : ∀ j, ((g.move i p).phase j).Holds ↔ (g.phase j).Holds := by
    intro j
    rw [move_phase]
    split
    · rename_i hj
      rw [hj]
      exact iff_of_false hp hi
    · rfl
  cases stage with
  | armed => exact ⟨h.1, h.2.1, fun j => (hsame j).not.mpr (h.2.2 j)⟩
  | held k => exact ⟨h.1, h.2.1, fun j => (hsame j).trans (h.2.2 j)⟩
  | spent snap => exact ⟨h.1, h.2.1, fun j => (hsame j).not.mpr (h.2.2 j)⟩

/-- The holder lets go. -/
theorem Refines.release {g : Guard ι σ} {i : ι} (h : g.Refines (.held i))
    (j : ι) : ¬ ((g.move i .idle).phase j).Holds := by
  rw [move_phase]
  split
  · exact id
  · rename_i hj
    exact fun hholds => hj ((h.2.2 j).mp hholds)

/-- Every step goes from stage to stage: armed to held by a swap, held to armed
by the reset after a failure, held to spent by a success. -/
theorem Refines.step {g g' : Guard ι σ} {stage : Stage ι σ}
    (h : g.Refines stage) {a : Action ι σ} (hstep : g.step a = some g') :
    ∃ stage', g'.Refines stage' := by
  rcases step_cases hstep with
    ⟨i, snap, rfl, hp, rfl⟩ | ⟨i, snap, rfl, hp, hflag, rfl⟩ |
    ⟨i, snap, rfl, hp, hflag, rfl⟩ | ⟨i, snap, rfl, hp, rfl⟩ |
    ⟨i, snap, rfl, hp, rfl⟩ | ⟨i, rfl, hp, rfl⟩
  · exact ⟨stage, h.move_of_not_holds (by rw [hp]; exact id) id⟩
  · exact ⟨stage, h.move_of_not_holds (by rw [hp]; exact id) id⟩
  · -- the flag was down, so the guard was armed
    have harmed : g.Refines .armed := by
      cases stage with
      | armed => exact h
      | held k => exact absurd (hflag.symm.trans h.1) Bool.false_ne_true
      | spent snap => exact absurd (hflag.symm.trans h.1) Bool.false_ne_true
    refine ⟨.held i, rfl, harmed.2.1, fun j => ?_⟩
    change ((g.move i (.writing snap)).phase j).Holds ↔ j = i
    rw [move_phase]
    split
    · rename_i hj
      exact iff_of_true trivial hj
    · rename_i hj
      exact iff_of_false (harmed.2.2 j) hj
  · have hheld := h.held_of_holds (i := i) (by rw [hp]; trivial)
    refine ⟨.spent snap, hheld.1, ?_, hheld.release⟩
    change g.succeeded ++ [snap] = [snap]
    rw [hheld.2.1, List.nil_append]
  · have hheld := h.held_of_holds (i := i) (by rw [hp]; trivial)
    refine ⟨.held i, hheld.1, hheld.2.1, fun j => ?_⟩
    rw [move_phase]
    split
    · rename_i hj
      exact iff_of_true trivial hj
    · exact hheld.2.2 j
  · have hheld := h.held_of_holds (i := i) (by rw [hp]; trivial)
    exact ⟨.armed, rfl, hheld.2.1, hheld.release⟩

/-- Once spent, a guard stays spent and nobody begins to write. -/
theorem Refines.step_spent {g g' : Guard ι σ} {snap : σ}
    (h : g.Refines (.spent snap)) {a : Action ι σ} (hstep : g.step a = some g') :
    g'.Refines (.spent snap) ∧ g'.attempts = g.attempts := by
  rcases step_cases hstep with
    ⟨i, s, rfl, hp, rfl⟩ | ⟨i, s, rfl, hp, hflag, rfl⟩ |
    ⟨i, s, rfl, hp, hflag, rfl⟩ | ⟨i, s, rfl, hp, rfl⟩ |
    ⟨i, s, rfl, hp, rfl⟩ | ⟨i, rfl, hp, rfl⟩
  · exact ⟨h.move_of_not_holds (by rw [hp]; exact id) id, rfl⟩
  · exact ⟨h.move_of_not_holds (by rw [hp]; exact id) id, rfl⟩
  · exact absurd (hflag.symm.trans h.1) Bool.false_ne_true
  · exact absurd (by rw [hp]; trivial) (h.2.2 i)
  · exact absurd (by rw [hp]; trivial) (h.2.2 i)
  · exact absurd (by rw [hp]; trivial) (h.2.2 i)

/-- A caller's move keeps snapshots valid if its new phase has a valid one. -/
theorem Valid.move {P : σ → Prop} {g : Guard ι σ} (h : g.Valid P) {i : ι}
    {p : Phase σ} (hready : ∀ snap, p = .ready snap → P snap)
    (hwriting : ∀ snap, p = .writing snap → P snap) : (g.move i p).Valid P where
  ready j snap hj := by
    rw [move_phase] at hj
    split at hj
    · exact hready snap hj
    · exact h.ready j snap hj
  writing j snap hj := by
    rw [move_phase] at hj
    split at hj
    · exact hwriting snap hj
    · exact h.writing j snap hj
  attempts := h.attempts

theorem Valid.step {P : σ → Prop} {g g' : Guard ι σ} {a : Action ι σ}
    (ha : ∀ i snap, a = .snapshot i snap → P snap) (h : g.Valid P)
    (hstep : g.step a = some g') : g'.Valid P := by
  have hidle : ∀ i, (g.move i .idle).Valid P :=
    fun i => h.move (fun _ hp => by cases hp) (fun _ hp => by cases hp)
  rcases step_cases hstep with
    ⟨i, snap, rfl, hp, rfl⟩ | ⟨i, snap, rfl, hp, hflag, rfl⟩ |
    ⟨i, snap, rfl, hp, hflag, rfl⟩ | ⟨i, snap, rfl, hp, rfl⟩ |
    ⟨i, snap, rfl, hp, rfl⟩ | ⟨i, rfl, hp, rfl⟩
  · apply h.move
    · rintro s ⟨⟩
      exact ha i snap rfl
    · intro s hs
      cases hs
  · exact hidle i
  · have hsnap := h.ready i snap hp
    have hmoved : (g.move i (.writing snap)).Valid P := by
      apply h.move
      · intro s hs
        cases hs
      · rintro s ⟨⟩
        exact hsnap
    refine ⟨hmoved.ready, hmoved.writing, ?_⟩
    intro s hs
    rcases List.mem_append.mp hs with hs | hs
    · exact h.attempts s hs
    · rw [List.mem_singleton.mp hs]
      exact hsnap
  · exact ⟨(hidle i).ready, (hidle i).writing, (hidle i).attempts⟩
  · exact h.move (fun _ hs => by cases hs) (fun _ hs => by cases hs)
  · exact ⟨(hidle i).ready, (hidle i).writing, (hidle i).attempts⟩

end Guard

end OneShot
