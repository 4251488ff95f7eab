import Mathlib.Data.List.Basic

/-!
# Database statements

**Outcomes.** A write statement may report an error although it took effect: the caller of a
statement that failed knows nothing (`DbWrite`).

**Tables under READ COMMITTED.** The statement semantics of a multi-version store, for one table. A
row has an identity that survives its updates and is not reused by a later insert of the same key.
An `UPDATE` or `DELETE`

* finds its targets in the snapshot taken when the statement starts (`found`);
* then takes each target's row lock, which may mean waiting for another transaction;
* then reads that one row again and applies the change only if the row still exists and still
  satisfies the condition (`rewrite`).

Whatever else the condition mentions, other tables and the statement's clock, stays as the snapshot
had it: the condition is passed to `rewrite` as a predicate on the row's values alone, with the rest
already fixed.
-/

/-- How a write statement ends. -/
inductive DbWrite
  | done
  /-- An error, and nothing was written. -/
  | refused
  /-- An error, though the write took effect. -/
  | unconfirmed
  deriving DecidableEq

namespace DbWrite

/-- Whether the tables change. -/
def takesEffect : DbWrite → Bool
  | .refused => false
  | _ => true

/-- Whether the caller sees an error. -/
def fails : DbWrite → Bool
  | .done => false
  | _ => true

end DbWrite

/-- A row with its identity. -/
structure Versioned (α : Type*) where
  uid : ℕ
  val : α
  deriving DecidableEq

/-- A table. -/
abbrev VTable (α : Type*) := List (Versioned α)

namespace VTable

variable {α : Type*}

/-- The rows of a snapshot that satisfy the condition. -/
def found (snapshot : VTable α) (cond : α → Bool) : List ℕ :=
  (snapshot.filter fun x ↦ cond x.val).map Versioned.uid

/-- The change, made on the targets that still exist and still satisfy the condition; `f` returns
`none` to delete. -/
def rewrite (t : VTable α) (targets : List ℕ) (cond : α → Bool) (f : α → Option α) : VTable α :=
  t.filterMap fun x ↦
    if x.uid ∈ targets ∧ cond x.val = true then (f x.val).map (Versioned.mk x.uid) else some x

variable {t : VTable α} {targets : List ℕ} {cond : α → Bool} {f : α → Option α} {x : Versioned α}

theorem mem_rewrite : x ∈ t.rewrite targets cond f ↔
    (∃ y ∈ t, y.uid ∈ targets ∧ cond y.val = true ∧ f y.val = some x.val ∧ y.uid = x.uid) ∨
      (x ∈ t ∧ ¬(x.uid ∈ targets ∧ cond x.val = true)) := by
  rw [rewrite, List.mem_filterMap]
  constructor
  · rintro ⟨y, hy, h⟩
    split at h
    · next hc =>
      obtain ⟨v, hv, rfl⟩ := Option.map_eq_some_iff.1 h
      exact .inl ⟨y, hy, hc.1, hc.2, hv, rfl⟩
    · next hc =>
      cases h
      exact .inr ⟨hy, hc⟩
  · rintro (⟨y, hy, htarget, hcond, hf, huid⟩ | ⟨hx, hc⟩)
    · refine ⟨y, hy, ?_⟩
      rw [if_pos ⟨htarget, hcond⟩, hf, huid]
      rfl
    · exact ⟨x, hx, if_neg hc⟩

/-- A row that is not among the targets is left alone. -/
theorem mem_rewrite_of_not_mem (hx : x ∈ t) (h : x.uid ∉ targets) :
    x ∈ t.rewrite targets cond f :=
  mem_rewrite.2 (.inr ⟨hx, fun hc ↦ h hc.1⟩)

/-- A delete adds nothing. -/
theorem mem_of_mem_delete (h : x ∈ t.rewrite targets cond fun _ ↦ none) : x ∈ t := by
  rcases mem_rewrite.1 h with ⟨y, -, -, -, hnone, -⟩ | ⟨hx, -⟩
  · contradiction
  · exact hx

end VTable
