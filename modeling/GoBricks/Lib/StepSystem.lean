import Mathlib.Data.List.Basic

/-!
# Partial step functions and their runs

The execution substrate of every model in this development: a state, a label naming who moves and
what the environment answers, and a **partial** step function. A step that returns `none` is not
enabled there; everything else is a function, so a run on concrete labels can be evaluated.

Two ways of saying "reachable" are kept apart on purpose:

* `run` folds the step function over a list of labels and is computable, which is what concrete
  schedules use;
* `Reach C` is the inductive closure under the steps whose pre-state and label satisfy `C`, which is
  what invariants are proved over. `Reachable` is the case with no condition.

`reach_of_run` carries the first into the second, and `restrict` does so for a condition that can be
decided. The invariant rule `Reach.invariant` is stated
with the reachability of the pre-state available, so one invariant may be used while proving the
next.
-/

/-- A labelled transition system with a partial, deterministic step: all nondeterminism is in the
choice of the label. -/
structure StepSystem (σ ℓ : Type*) where
  /-- The admissible initial states. -/
  init : σ → Prop
  /-- One step; `none` when the label is not enabled. -/
  step : σ → ℓ → Option σ

namespace StepSystem

variable {σ ℓ : Type*} (M : StepSystem σ ℓ)

/-- Run a schedule. -/
def run (M : StepSystem σ ℓ) : σ → List ℓ → Option σ
  | s, [] => some s
  | s, l :: ls => (M.step s l).bind fun t ↦ M.run t ls

@[simp] theorem run_nil (s : σ) : M.run s [] = some s := rfl

/-- The states reached by steps that all satisfy `C` at their pre-state and label. -/
inductive Reach (C : σ → ℓ → Prop) : σ → Prop
  | init {s : σ} : M.init s → Reach C s
  | step {s t : σ} {l : ℓ} : Reach C s → C s l → M.step s l = some t → Reach C t

/-- Reachable with no condition on the steps. -/
abbrev Reachable : σ → Prop :=
  M.Reach fun _ _ ↦ True

variable {M} {C : σ → ℓ → Prop}

theorem Reachable.next {s t : σ} {l : ℓ} (hs : M.Reachable s) (h : M.step s l = some t) :
    M.Reachable t :=
  .step hs trivial h

/-- A conditioned run is in particular a run. -/
theorem Reach.reachable {s : σ} (h : M.Reach C s) : M.Reachable s := by
  induction h with
  | init hs => exact .init hs
  | step _ _ ht ih => exact ih.next ht

/-- **The invariant rule.** What holds initially and is kept by every admissible step from a reached
state holds in every reached state. -/
theorem Reach.invariant {P : σ → Prop} (hinit : ∀ s, M.init s → P s)
    (hstep : ∀ s l t, M.Reach C s → C s l → P s → M.step s l = some t → P t) {s : σ}
    (h : M.Reach C s) : P s := by
  induction h with
  | init hs => exact hinit _ hs
  | step hr hc ht ih => exact hstep _ _ _ hr hc ih ht

/-- A schedule from a reachable state ends in one. -/
theorem reach_of_run {s t : σ} {ls : List ℓ} (hs : M.Reachable s) (h : M.run s ls = some t) :
    M.Reachable t := by
  induction ls generalizing s with
  | nil =>
    rw [run_nil, Option.some_inj] at h
    exact h ▸ hs
  | cons l ls ih =>
    obtain ⟨u, hu, hrest⟩ := Option.bind_eq_some_iff.1 h
    exact ih (hs.next hu) hrest

/-- A schedule that begins with another one. -/
theorem run_append {s t : σ} {ls : List ℓ} (h : M.run s ls = some t) (ls' : List ℓ) :
    M.run s (ls ++ ls') = M.run t ls' := by
  induction ls generalizing s with
  | nil =>
    cases h
    rfl
  | cons l ls ih =>
    obtain ⟨u, hu, hrest⟩ := Option.bind_eq_some_iff.1 h
    exact (congrArg (Option.bind · _) hu).trans (ih hrest)

/-- A schedule whose first step satisfies `C` there, and the others anywhere. -/
theorem Reach.run_cons {s t : σ} {l : ℓ} {ls : List ℓ} (hs : M.Reach C s)
    (h : M.run s (l :: ls) = some t) (hl : C s l) (hfree : ∀ l' ∈ ls, ∀ u, C u l') :
    M.Reach C t := by
  induction ls generalizing s l with
  | nil =>
    obtain ⟨u, hu, hrest⟩ := Option.bind_eq_some_iff.1 h
    rw [run_nil, Option.some_inj] at hrest
    exact hrest ▸ .step hs hl hu
  | cons l' ls ih =>
    obtain ⟨u, hu, hrest⟩ := Option.bind_eq_some_iff.1 h
    exact ih (.step hs hl hu) hrest (hfree l' List.mem_cons_self u)
      fun l hl ↦ hfree l (List.mem_cons_of_mem _ hl)

/-- Another condition, which the states it reaches may help to establish. -/
theorem Reach.mono {C' : σ → ℓ → Prop} {s : σ} (h : M.Reach C s)
    (hC : ∀ s l, M.Reach C' s → C s l → C' s l) : M.Reach C' s := by
  induction h with
  | init hs => exact .init hs
  | step _ hc ht ih => exact .step ih (hC _ _ ih hc) ht

/-- Only the steps that satisfy `C`. -/
def restrict (M : StepSystem σ ℓ) (C : σ → ℓ → Prop) [∀ s l, Decidable (C s l)] :
    StepSystem σ ℓ where
  init := M.init
  step s l := if C s l then M.step s l else none

/-- A run of the restricted system is a conditioned run. -/
theorem Reach.of_restrict [∀ s l, Decidable (C s l)] {s : σ} (h : (M.restrict C).Reachable s) :
    M.Reach C s := by
  induction h with
  | init hs => exact .init hs
  | @step s t l _ _ ht ih =>
    change (if C s l then M.step s l else none) = some t at ht
    split at ht
    · next hc => exact .step ih hc ht
    · contradiction

end StepSystem
