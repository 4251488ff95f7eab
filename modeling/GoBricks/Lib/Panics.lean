import Mathlib.Logic.Basic

/-!
# Panics and deferred calls

A computation on a state returns a value or panics, and in either case leaves a state behind; the
value of a panic is known by the name of its type only. A deferred call runs however its function
ends. Two kinds are enough:

* `deferring f body` runs `f` after `body`; a panic of `f` takes the place of whatever `body` ended
  with.
* `guarding f body` runs after `body` a function that recovers: it is told of the panic, if there
  was one, and its own end is the end of the whole.

`Ensures P m Q` is the triple for such computations. The postcondition speaks about a panic as well,
for what matters of a deferred call is what it finds when the function it guards has panicked.
-/

/-- How a call ends: with a value, or in a panic with a value of the named type. -/
abbrev Call (α : Type) := Except String α

/-- A computation on the state `σ` that may panic. -/
abbrev Go (σ α : Type) := ExceptT String (StateM σ) α

namespace Go

variable {σ α β : Type}

/-- How the computation ends, and the state it leaves. -/
def exec (m : Go σ α) (s : σ) : Call α × σ :=
  m.run.run s

/-- A call that leaves the state alone. -/
def call (c : Call α) : Go σ α :=
  .mk (pure c)

/-- `defer f()`, around the rest of a function. -/
def deferring (f : Go σ Unit) (body : Go σ α) : Go σ α :=
  .mk do
    let r ← body.run
    match ← f.run with
    | .ok _ => return r
    | .error p => return .error p

/-- The type of the value a call panicked with. -/
def recovered : Call α → Option String
  | .ok _ => none
  | .error p => some p

/-- `defer func() { … recover() … }()`, around the rest of a function. -/
def guarding (f : Option String → Go σ β) (body : Go σ α) : Go σ β :=
  .mk do (f (recovered (← body.run))).run

/-! ### Execution -/

@[simp] theorem exec_call (c : Call α) (s : σ) : exec (call c) s = (c, s) := rfl

@[simp] theorem exec_modify (f : σ → σ) (s : σ) : exec (modify f) s = (.ok (), f s) := rfl

@[simp] theorem exec_get (s : σ) : exec (get : Go σ σ) s = (.ok s, s) := rfl

/-- A panic skips what comes after. -/
theorem exec_bind (m : Go σ α) (f : α → Go σ β) (s : σ) :
    exec (m >>= f) s = match exec m s with
      | (.ok a, s') => exec (f a) s'
      | (.error p, s') => (.error p, s') := by
  change (ExceptT.bindCont f (exec m s).1).run (exec m s).2 = _
  rcases exec m s with ⟨_ | a, s'⟩ <;> rfl

/-- A deferred call runs in any case. -/
theorem exec_deferring (f : Go σ Unit) (body : Go σ α) (s : σ) :
    exec (deferring f body) s = match exec f (exec body s).2 with
      | (.ok _, s') => ((exec body s).1, s')
      | (.error p, s') => (.error p, s') := by
  change ((match (exec f (exec body s).2).1 with
    | .ok _ => pure (exec body s).1
    | .error p => pure (.error p) : StateM σ (Call α))).run (exec f (exec body s).2).2 = _
  rcases exec f (exec body s).2 with ⟨_ | _, s'⟩ <;> rfl

/-- The deferred call goes on from the state the function leaves. -/
theorem exec_deferring_snd (f : Go σ Unit) (body : Go σ α) (s : σ) :
    (exec (deferring f body) s).2 = (exec f (exec body s).2).2 := by
  rw [exec_deferring]
  rcases exec f (exec body s).2 with ⟨_ | _, s'⟩ <;> rfl

/-- A function with a deferred call returns only what it would have returned without. -/
theorem ok_of_exec_deferring {f : Go σ Unit} {body : Go σ α} {s : σ} {a : α}
    (h : (exec (deferring f body) s).1 = .ok a) : (exec body s).1 = .ok a := by
  rw [exec_deferring] at h
  rcases hf : exec f (exec body s).2 with ⟨_ | _, s'⟩ <;> rw [hf] at h
  · contradiction
  · exact h

theorem exec_guarding (f : Option String → Go σ β) (body : Go σ α) (s : σ) :
    exec (guarding f body) s = exec (f (recovered (exec body s).1)) (exec body s).2 := rfl

/-! ### Triples -/

/-- From a state with `P` the computation ends, by a value or a panic, as `Q` says. -/
def Ensures (P : σ → Prop) (m : Go σ α) (Q : Call α → σ → Prop) : Prop :=
  ∀ s, P s → Q (m.exec s).1 (m.exec s).2

namespace Ensures

variable {P P' : σ → Prop} {Q Q' : Call α → σ → Prop} {R : Call β → σ → Prop} {m : Go σ α}

/-- Consequence. -/
theorem mono (h : Ensures P m Q) (hP : ∀ s, P' s → P s) (hQ : ∀ r s, Q r s → Q' r s) :
    Ensures P' m Q' :=
  fun s hs ↦ hQ _ _ (h s (hP s hs))

/-- Sequence. -/
theorem bind {f : α → Go σ β} (h : Ensures P m Q) (hvalue : ∀ a, Ensures (Q (.ok a)) (f a) R)
    (hpanic : ∀ p s, Q (.error p) s → R (.error p) s) : Ensures P (m >>= f) R := by
  intro s hs
  have hm := h s hs
  rw [exec_bind]
  rcases hexec : exec m s with ⟨p | a, s'⟩ <;> rw [hexec] at hm
  · exact hpanic p s' hm
  · exact hvalue a s' hm

/-- A call that leaves the state alone and may panic: what it is called with holds after it. -/
theorem call_bind {c : Call α} {f : α → Go σ β} (hvalue : ∀ a, c = .ok a → Ensures P (f a) R)
    (hpanic : ∀ p s, c = .error p → P s → R (.error p) s) : Ensures P (call c >>= f) R := by
  intro s hs
  cases c with
  | ok a => exact hvalue a rfl s hs
  | error p => exact hpanic p s rfl hs

theorem modify_bind {g : σ → σ} {f : Unit → Go σ β} (h : Ensures P (f ()) R)
    (hg : ∀ s, P' s → P (g s)) : Ensures P' (modify g >>= f) R := by
  intro s hs
  exact h (g s) (hg s hs)

end Ensures

end Go
