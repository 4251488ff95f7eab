import GoBricks.Lib.StepSystem
import Mathlib.Logic.Function.Basic

/-!
# Redeclaring the topology

A registry declares its exchanges, queues and bindings again when a channel was replaced. A **pass**
is driven by the registry's own observer, by a consumer that subscribes again, or by a pooled
publisher, each with a context of its own, and runs under one lock. The ledger says which generation
of which client was reacted to; it is written before the declarations are replayed. When a pass
finds repair halted at its end, it is owed, and re-arming empties the ledger.

`StopConsumers` cancels the consumers, then halts repair. A pass that a consumer drives and that is
cut short by the first finds, at its end, that the second has not happened yet: nothing is owed, and
the generation stays in the ledger (`redeclare_lost`). As long as no context is canceled under a
pass that it drives, unless repair is halted, no generation is lost (`redeclare_served`).
-/

namespace Messaging

/-- Who drives a pass. -/
inductive Driver
  /-- The registry's observer, one for each time that repair is armed. -/
  | observer (epoch : ℕ)
  /-- A consumer, with the context of one `StartConsumers`. -/
  | consumer (start : ℕ)
  | pooled (i : ℕ)
  deriving DecidableEq

/-- Whose channels are counted: the registry's own client, or a pooled publisher. -/
inductive Token
  | client
  | pooled (i : ℕ)
  deriving DecidableEq

/-- The client whose channels a driver watches. -/
def Driver.token : Driver → Token
  | .observer _ => .client
  | .consumer _ => .client
  | .pooled i => .pooled i

/-- Where a pass is. -/
inductive PC
  /-- Before the condition of the loop. -/
  | check
  /-- Before the generation is read. -/
  | read
  /-- In `replayTopology`, with the declarations that remain. -/
  | replay (generation : ℕ) (steps : List String)
  /-- A declaration failed; the context has not been looked at. -/
  | failed (generation : ℕ) (key : String) (preconditionFailed : Bool)
  /-- Behind the loop. -/
  | exit
  deriving DecidableEq

/-- Who holds `redeclareMu`. -/
inductive Holder
  /-- `DeclareInfrastructure`, after it wrote the ledger. -/
  | declare (generation : ℕ)
  | pass (d : Driver) (pc : PC)
  deriving DecidableEq

/-- The registry with its channels and drivers, and what has been served. -/
structure Registry where
  declared : Bool := false
  /-- How often repair was armed; `redeclareDone` belongs to the last observer. -/
  epoch : ℕ := 0
  canceled : List Driver := []
  repairOwed : Bool := false
  handledGenerations : Token → Option ℕ := fun _ ↦ none
  redeclareSkip : List String := []
  holder : Option Holder := none
  /-- The generation of each client's channel, and whether it is ready. -/
  channels : Token → ℕ × Bool := fun _ ↦ (0, false)
  /-- The passes that ran to the end, or to a declaration that failed while the driver's context was
  live: a history variable. -/
  served : List (Token × ℕ) := []

/-- Who moves, and what the environment answers. -/
inductive Label
  /-- `DeclareInfrastructure`: its start, and its end with or without an error. -/
  | declare
  | declared (ok : Bool)
  /-- A client's channel is replaced, or ready, or not. -/
  | channel (t : Token) (generation : ℕ) (ready : Bool)
  /-- A driver takes the lock. -/
  | start (d : Driver)
  /-- The pass goes on, with the recorded declarations and the answer of the broker: none, or an
  error and whether it is `PRECONDITION_FAILED`. -/
  | advance (steps : List String) (error : Option Bool)
  /-- The context of a consumer or of a pooled publisher is canceled. -/
  | cancel (d : Driver)
  /-- `stopRedeclaring` -/
  | halt
  /-- `rearmRedeclaring` -/
  | rearm
  /-- `forgetRedeclareSource` -/
  | forget (i : ℕ)

namespace Registry

variable (r : Registry)

/-- Repair was stopped after it was armed. -/
def redeclareHalted : Bool :=
  r.declared && r.canceled.contains (.observer r.epoch)

/-- Whether a context is canceled. -/
def isCanceled (d : Driver) : Bool :=
  r.canceled.contains d

/-- The pass of a driver goes on. -/
def goto (d : Driver) (pc : PC) : Registry :=
  { r with holder := some (.pass d pc) }

/-- The lock is free. -/
def release : Registry :=
  { r with holder := none }

/-- A generation is noted as handled. -/
def record (t : Token) (generation : ℕ) : Registry :=
  { r with handledGenerations := Function.update r.handledGenerations t (some generation) }

theorem record_self (t : Token) (generation : ℕ) :
    (r.record t generation).handledGenerations t = some generation :=
  Function.update_self ..

/-- A pass ended in a way that needs no other. -/
def serve (t : Token) (generation : ℕ) : Registry :=
  { r with served := (t, generation) :: r.served }

/-- The next step of a pass. -/
def advance (d : Driver) (steps : List String) (error : Option Bool) : PC → Registry
  | .check => if r.redeclareHalted || r.isCanceled d then r.goto d .exit else r.goto d .read
  | .read =>
    let (generation, ready) := r.channels d.token
    if !ready || generation == (r.handledGenerations d.token).getD 0 then r.release
    else (r.record d.token generation).goto d (.replay generation steps)
  | .replay generation [] => (r.serve d.token generation).goto d .check
  | .replay generation (key :: steps) =>
    if r.redeclareSkip.contains key then r.goto d (.replay generation steps)
    else match error with
    | none => r.goto d (.replay generation steps)
    | some preconditionFailed => r.goto d (.failed generation key preconditionFailed)
  | .failed generation key preconditionFailed =>
    if r.isCanceled d then r.goto d .check
    else
      let skip := if preconditionFailed then key :: r.redeclareSkip else r.redeclareSkip
      ({ r with redeclareSkip := skip }.serve d.token generation).goto d .check
  | .exit => { r.release with repairOwed := r.repairOwed || r.redeclareHalted }

/-- A step of the registry. -/
def step : Label → Option Registry
  | .declare =>
    if r.holder = none ∧ r.declared = false then
      let generation := (r.channels .client).1
      some { r.record .client generation with holder := some (.declare generation) }
    else none
  | .declared ok =>
    match r.holder with
    | some (.declare generation) =>
      some (if ok then { r.serve .client generation with declared := true, holder := none }
        else r.release)
    | _ => none
  | .channel t generation ready =>
    some { r with channels := Function.update r.channels t (generation, ready) }
  | .start d =>
    if r.holder = none then some (if r.declared then r.goto d .check else r) else none
  | .advance steps error =>
    match r.holder with
    | some (.pass d pc) => some (r.advance d steps error pc)
    | _ => none
  | .cancel d =>
    match d with
    | .observer _ => none
    | _ => some { r with canceled := d :: r.canceled }
  | .halt =>
    some (if r.declared then { r with canceled := .observer r.epoch :: r.canceled } else r)
  | .rearm =>
    if r.holder = none ∧ r.redeclareHalted then
      some { r with
        epoch := r.epoch + 1
        handledGenerations := if r.repairOwed then fun _ ↦ none else r.handledGenerations
        repairOwed := false }
    else none
  | .forget i =>
    if r.holder = none then
      some { r with handledGenerations := Function.update r.handledGenerations (.pooled i) none }
    else none

end Registry

/-- The registry, from its creation on. -/
def system : StepSystem Registry Label where
  init r := r = {}
  step := Registry.step

/-- Who drives the pass that is under way. -/
def Registry.driver (r : Registry) : Option Driver :=
  match r.holder with
  | some (.pass d _) => some d
  | _ => none

/-- A context is not canceled under a pass that it drives, unless repair is halted. -/
def CancelsApart (r : Registry) : Label → Prop
  | .cancel d => r.driver = some d → r.redeclareHalted
  | _ => True

/-- Only a cancellation has a condition. -/
instance (r : Registry) (l : Label) : Decidable (CancelsApart r l) :=
  match l with
  | .cancel d => inferInstanceAs (Decidable (r.driver = some d → r.redeclareHalted))
  | .declare | .declared _ | .channel .. | .start _ | .advance .. | .halt | .rearm | .forget _ =>
    .isTrue trivial

/-! ### What is owed -/

/-- The generation that a pass is replaying. -/
def PC.generation? : PC → Option ℕ
  | .replay generation _ => some generation
  | .failed generation _ _ => some generation
  | _ => none

/-- A pass that has looked at its context and has not ended. -/
def PC.inside : PC → Bool
  | .check => false
  | .exit => false
  | _ => true

namespace Registry

variable {r r' : Registry} {d : Driver} {t : Token} {g : ℕ}

/-- A pass is replaying a generation, or was cut short and is about to find repair halted. -/
def UnderWay (r : Registry) (t : Token) (g : ℕ) : Prop :=
  ∃ d pc, r.holder = some (.pass d pc) ∧ d.token = t ∧
    (pc.generation? = some g ∨ r.redeclareHalted ∧ (pc = .check ∨ pc = .exit))

/-- No generation that was noted is lost. -/
structure Kept (r : Registry) : Prop where
  /-- What the ledger holds is served, owed or under way. -/
  entries : r.declared → ∀ t g, r.handledGenerations t = some g →
    (t, g) ∈ r.served ∨ r.repairOwed ∨ r.UnderWay t g
  /-- Before the first declaration ends, only its own entry is in the ledger. -/
  first : r.declared = false → ∀ t g, r.handledGenerations t = some g → t = .client
  declaring : ∀ g, r.holder = some (.declare g) →
    r.declared = false ∧ r.handledGenerations .client = some g
  passing : ∀ d pc, r.holder = some (.pass d pc) → r.declared
  live : ∀ d pc, r.holder = some (.pass d pc) → pc.inside →
    r.isCanceled d = false ∨ r.redeclareHalted

theorem kept_init : Kept {} where
  entries h := nomatch h
  first _ _ _ h := nomatch h
  declaring _ h := nomatch h
  passing _ _ h := nomatch h
  live _ _ h := nomatch h

/-- A pass goes on. -/
theorem Kept.goto (h : Kept r) (hdeclared : r.declared) {pc : PC}
    (hentries : ∀ t g, r.handledGenerations t = some g →
      (t, g) ∈ r.served ∨ r.repairOwed ∨ (r.goto d pc).UnderWay t g)
    (hlive : pc.inside → r.isCanceled d = false ∨ r.redeclareHalted) : Kept (r.goto d pc) where
  entries _ := hentries
  first := h.first
  declaring _ hholder := nomatch hholder
  passing _ _ _ := hdeclared
  live d' pc' hholder := by
    cases hholder
    exact hlive

/-- The holder leaves. -/
theorem Kept.release (h : Kept r)
    (hentries : r.declared → ∀ t g, r.handledGenerations t = some g →
      (t, g) ∈ r.served ∨ r.repairOwed) : Kept r.release where
  entries hdeclared t g hg := (hentries hdeclared t g hg).imp_right .inl
  first := h.first
  declaring _ hholder := nomatch hholder
  passing _ _ hholder := nomatch hholder
  live _ _ hholder := nomatch hholder

/-- Without a pass, nothing is under way. -/
theorem Kept.entries_of_holder (h : Kept r) (hholder : r.holder = none) (hdeclared : r.declared)
    (hg : r.handledGenerations t = some g) : (t, g) ∈ r.served ∨ r.repairOwed := by
  rcases h.entries hdeclared t g hg with hserved | howed | ⟨d, pc, hpass, -⟩
  · exact .inl hserved
  · exact .inr howed
  · rw [hholder] at hpass
    cases hpass

/-- What is under way in a pass. -/
theorem Kept.entries_of_pass {pc : PC} (h : Kept r) (hholder : r.holder = some (.pass d pc))
    (hg : r.handledGenerations t = some g) :
    (t, g) ∈ r.served ∨ r.repairOwed ∨ d.token = t ∧
      (pc.generation? = some g ∨ r.redeclareHalted ∧ (pc = .check ∨ pc = .exit)) := by
  rcases h.entries (h.passing d pc hholder) t g hg with hserved | howed | ⟨d', pc', hpass, hway⟩
  · exact .inl hserved
  · exact .inr (.inl howed)
  · rw [hholder] at hpass
    cases hpass
    exact .inr (.inr hway)

/-- A pass ends in a way that needs no other. -/
theorem Kept.serve (h : Kept r) {pc : PC} (hholder : r.holder = some (.pass d pc))
    (hgeneration : pc.generation? = some g) (skip : List String) :
    Kept (({ r with redeclareSkip := skip }.serve d.token g).goto d .check) where
  entries _ t g' hg := by
    rcases h.entries_of_pass hholder hg with hserved | howed | ⟨rfl, hway⟩
    · exact .inl (List.mem_cons_of_mem _ hserved)
    · exact .inr (.inl howed)
    · rcases hway with hg' | ⟨-, rfl | rfl⟩
      · cases hgeneration.symm.trans hg'
        exact .inl List.mem_cons_self
      · cases hgeneration
      · cases hgeneration
  first hnot := absurd (h.passing d pc hholder) (Bool.eq_false_iff.mp hnot)
  declaring _ hholder' := nomatch hholder'
  passing _ _ _ := h.passing d pc hholder
  live d' pc' hholder' := by
    cases hholder'
    exact nofun

theorem Kept.advance (h : Kept r) {pc : PC} (hholder : r.holder = some (.pass d pc))
    (steps : List String) (error : Option Bool) : Kept (r.advance d steps error pc) := by
  have hdeclared := h.passing d pc hholder
  have hlive := h.live d pc hholder
  cases pc with
  | check =>
    rw [Registry.advance]
    split
    · next hend =>
      refine h.goto hdeclared (fun t g hg ↦ ?_) nofun
      rcases h.entries_of_pass hholder hg with hserved | howed | ⟨htoken, hway⟩
      · exact .inl hserved
      · exact .inr (.inl howed)
      · rcases hway with hg' | ⟨hhalted, -⟩
        · cases hg'
        · exact .inr (.inr ⟨d, .exit, rfl, htoken, .inr ⟨hhalted, .inr rfl⟩⟩)
    · next hgo =>
      rw [Bool.or_eq_true, not_or, Bool.not_eq_true, Bool.not_eq_true] at hgo
      refine h.goto hdeclared (fun t g hg ↦ ?_) fun _ ↦ .inl hgo.2
      rcases h.entries_of_pass hholder hg with hserved | howed | ⟨-, hway⟩
      · exact .inl hserved
      · exact .inr (.inl howed)
      · rcases hway with hg' | ⟨hhalted, -⟩
        · cases hg'
        · rw [hgo.1] at hhalted
          cases hhalted
  | read =>
    have hentries : ∀ t g, r.handledGenerations t = some g →
        (t, g) ∈ r.served ∨ r.repairOwed := by
      intro t g hg
      rcases h.entries_of_pass hholder hg with hserved | howed | ⟨-, hg' | ⟨-, hpc | hpc⟩⟩
      · exact .inl hserved
      · exact .inr howed
      · cases hg'
      · cases hpc
      · cases hpc
    rw [Registry.advance]
    dsimp only
    split
    · exact h.release fun _ ↦ hentries
    · refine ⟨fun _ t g hg ↦ ?_, fun hnot ↦ ?_, fun g hholder' ↦ (nomatch hholder'), fun _ _ _ ↦
        hdeclared, fun d' pc' hholder' ↦ ?_⟩
      · by_cases ht : t = d.token
        · subst ht
          have hg' : some (r.channels d.token).1 = some g :=
            (Function.update_self (β := fun _ ↦ Option ℕ) d.token _ _).symm.trans hg
          exact .inr (.inr ⟨d, _, rfl, rfl, .inl hg'⟩)
        · have hg' : r.handledGenerations t = some g :=
            (Function.update_of_ne ht _ _).symm.trans hg
          exact (hentries t g hg').imp_right .inl
      · exact absurd hdeclared (Bool.eq_false_iff.mp hnot)
      · cases hholder'
        exact fun _ ↦ hlive rfl
  | replay generation remaining =>
    -- Entries of this pass go on being under way as long as its generation is kept.
    have hkeep : ∀ pc, pc.generation? = some generation → Kept (r.goto d pc) := by
      intro pc hpc
      refine h.goto hdeclared (fun t g hg ↦ ?_) fun _ ↦ hlive rfl
      rcases h.entries_of_pass hholder hg with hserved | howed | ⟨htoken, hg' | ⟨-, hpc' | hpc'⟩⟩
      · exact .inl hserved
      · exact .inr (.inl howed)
      · cases hg'
        exact .inr (.inr ⟨d, pc, rfl, htoken, .inl hpc⟩)
      · cases hpc'
      · cases hpc'
    cases remaining with
    | nil => exact h.serve hholder rfl r.redeclareSkip
    | cons key remaining =>
      rw [Registry.advance.eq_def]
      dsimp only
      split
      · exact hkeep _ rfl
      · split
        · exact hkeep _ rfl
        · exact hkeep _ rfl
  | failed generation key preconditionFailed =>
    rw [Registry.advance]
    split
    · next hcanceled =>
      -- The context was canceled under the pass, so repair is halted.
      have hhalted : r.redeclareHalted := by
        rcases hlive rfl with hnot | hhalted
        · rw [hcanceled] at hnot
          cases hnot
        · exact hhalted
      refine h.goto hdeclared (fun t g hg ↦ ?_) nofun
      rcases h.entries_of_pass hholder hg with hserved | howed | ⟨htoken, -⟩
      · exact .inl hserved
      · exact .inr (.inl howed)
      · exact .inr (.inr ⟨d, .check, rfl, htoken, .inr ⟨hhalted, .inl rfl⟩⟩)
    · exact h.serve hholder rfl _
  | exit =>
    refine ⟨fun _ t g hg ↦ ?_, h.first, fun g hholder' ↦ (nomatch hholder'),
      fun d pc hholder' ↦ (nomatch hholder'), fun d pc hholder' ↦ (nomatch hholder')⟩
    rcases h.entries_of_pass hholder hg with hserved | howed | ⟨-, hg' | ⟨hhalted, -⟩⟩
    · exact .inl hserved
    · exact .inr (.inl (Bool.or_eq_true_iff.mpr (.inl howed)))
    · cases hg'
    · exact .inr (.inl (Bool.or_eq_true_iff.mpr (.inr hhalted)))

/-- More contexts are canceled. -/
theorem Kept.cancel (h : Kept r) (d' : Driver)
    (hapart : ∀ d pc, r.holder = some (.pass d pc) → d = d' →
      ({ r with canceled := d' :: r.canceled } : Registry).redeclareHalted) :
    Kept { r with canceled := d' :: r.canceled } := by
  have hhalted : r.redeclareHalted →
      ({ r with canceled := d' :: r.canceled } : Registry).redeclareHalted := by
    intro hhalted
    rw [redeclareHalted, Bool.and_eq_true, List.contains_iff_mem] at hhalted ⊢
    exact ⟨hhalted.1, List.mem_cons_of_mem _ hhalted.2⟩
  refine ⟨fun hdeclared t g hg ↦ ?_, h.first, h.declaring, h.passing, fun d pc hholder hinside ↦ ?_⟩
  · rcases h.entries hdeclared t g hg with hserved | howed | ⟨d, pc, hholder, htoken, hway⟩
    · exact .inl hserved
    · exact .inr (.inl howed)
    · exact .inr (.inr ⟨d, pc, hholder, htoken, hway.imp_right fun h ↦ ⟨hhalted h.1, h.2⟩⟩)
  · by_cases hd : d = d'
    · exact .inr (hapart d pc hholder hd)
    · refine (h.live d pc hholder hinside).imp (fun hlive ↦ ?_) hhalted
      rw [isCanceled, Bool.eq_false_iff, Ne, List.contains_iff_mem] at hlive ⊢
      exact fun hmem ↦ (List.mem_cons.mp hmem).elim hd hlive

/-- Every step keeps the invariant, if cancellations come apart. -/
theorem Kept.step (h : Kept r) {l : Label} (hc : CancelsApart r l) (hstep : r.step l = some r') :
    Kept r' := by
  cases l with
  | declare =>
    rw [Registry.step, Option.ite_none_right_eq_some] at hstep
    obtain ⟨⟨hholder, hdeclared⟩, hstep⟩ := hstep
    cases hstep
    refine ⟨fun hdec ↦ ?_, fun _ t g hg ↦ ?_, fun g hg ↦ ?_, fun d pc hpass ↦ (nomatch hpass),
      fun d pc hpass ↦ (nomatch hpass)⟩
    · exact absurd (hdeclared.symm.trans hdec) Bool.false_ne_true
    · by_contra ht
      -- Before the first declaration only the client has an entry.
      have hg' : r.handledGenerations t = some g := (Function.update_of_ne ht _ _).symm.trans hg
      exact ht (h.first hdeclared t g hg')
    · cases hg
      exact ⟨hdeclared, r.record_self .client _⟩
  | declared ok =>
    rw [Registry.step] at hstep
    split at hstep
    · next generation hholder =>
      cases hstep
      obtain ⟨hdeclared, hclient⟩ := h.declaring generation hholder
      cases ok with
      | true =>
        refine ⟨fun _ t g hg ↦ ?_, fun hnot ↦ (nomatch hnot), fun g hg ↦ (nomatch hg),
          fun d pc hpass ↦ (nomatch hpass), fun d pc hpass ↦ (nomatch hpass)⟩
        -- The one entry is of the generation that was declared.
        obtain rfl := h.first hdeclared t g hg
        cases hclient.symm.trans hg
        exact .inl List.mem_cons_self
      | false =>
        refine h.release fun hdec ↦ ?_
        exact absurd (hdeclared.symm.trans hdec) Bool.false_ne_true
    · cases hstep
  | channel t generation ready =>
    cases hstep
    exact ⟨h.entries, h.first, h.declaring, h.passing, h.live⟩
  | start d =>
    rw [Registry.step, Option.ite_none_right_eq_some] at hstep
    obtain ⟨hholder, hstep⟩ := hstep
    cases hstep
    split
    · next hdeclared =>
      refine h.goto hdeclared (fun t g hg ↦ ?_) nofun
      exact (h.entries_of_holder hholder hdeclared hg).imp_right .inl
    · exact h
  | advance steps error =>
    rw [Registry.step] at hstep
    split at hstep
    · next d pc hholder =>
      cases hstep
      exact h.advance hholder steps error
    · cases hstep
  | cancel d =>
    have hapart : ∀ d' pc, r.holder = some (.pass d' pc) → d' = d →
        ({ r with canceled := d :: r.canceled } : Registry).redeclareHalted := by
      rintro _ pc hholder rfl
      have hhalted := hc (by rw [driver, hholder])
      rw [redeclareHalted, Bool.and_eq_true, List.contains_iff_mem] at hhalted ⊢
      exact ⟨hhalted.1, List.mem_cons_of_mem _ hhalted.2⟩
    cases d with
    | observer epoch => cases hstep
    | consumer start | pooled i =>
      cases hstep
      exact h.cancel _ hapart
  | halt =>
    cases hstep
    split
    · next hdeclared =>
      refine h.cancel _ fun _ _ _ _ ↦ ?_
      rw [redeclareHalted, Bool.and_eq_true, List.contains_iff_mem]
      exact ⟨hdeclared, List.mem_cons_self⟩
    · exact h
  | rearm =>
    rw [Registry.step, Option.ite_none_right_eq_some] at hstep
    obtain ⟨⟨hholder, hhalted⟩, hstep⟩ := hstep
    cases hstep
    rw [redeclareHalted, Bool.and_eq_true] at hhalted
    have hnone : ∀ x, r.holder ≠ some x := fun x hx ↦ nomatch hholder.symm.trans hx
    refine ⟨fun _ t g hg ↦ ?_, fun hnot ↦ ?_, fun g hg ↦ absurd hg (hnone _),
      fun d pc hpass ↦ absurd hpass (hnone _), fun d pc hpass ↦ absurd hpass (hnone _)⟩
    · by_cases howed : r.repairOwed
      · rw [if_pos howed] at hg
        cases hg
      · rw [if_neg howed] at hg
        exact .inl ((h.entries_of_holder hholder hhalted.1 hg).resolve_right howed)
    · exact absurd hhalted.1 (Bool.eq_false_iff.mp hnot)
  | forget i =>
    rw [Registry.step, Option.ite_none_right_eq_some] at hstep
    obtain ⟨hholder, hstep⟩ := hstep
    cases hstep
    have hold : ∀ t g, Function.update r.handledGenerations (.pooled i) none t = some g →
        r.handledGenerations t = some g := by
      intro t g hg
      by_cases ht : t = .pooled i
      · subst ht
        rw [Function.update_self] at hg
        cases hg
      · rwa [Function.update_of_ne ht] at hg
    have hnone : ∀ x, r.holder ≠ some x := fun x hx ↦ nomatch hholder.symm.trans hx
    exact ⟨fun hdeclared t g hg ↦ (h.entries_of_holder hholder hdeclared (hold t g hg)).imp_right
      .inl, fun hnot t g hg ↦ h.first hnot t g (hold t g hg), fun g hg ↦ absurd hg (hnone _),
      fun d pc hpass ↦ absurd hpass (hnone _), fun d pc hpass ↦ absurd hpass (hnone _)⟩

end Registry

/-! ### Runs -/

/-- In every run in which no context is canceled under a pass that it drives unless repair is
halted: while no pass is under way, what the ledger holds is served or a pass is owed; re-arming
empties the ledger if one is owed; and what is in the ledger after it was served. -/
theorem redeclare_served {r : Registry} (h : system.Reach CancelsApart r) :
    (r.declared → r.holder = none → ∀ t g, r.handledGenerations t = some g →
      (t, g) ∈ r.served ∨ r.repairOwed) ∧
    ∀ r', r.step .rearm = some r' →
      (r.repairOwed → ∀ t, r'.handledGenerations t = none) ∧
      ∀ t g, r'.handledGenerations t = some g → (t, g) ∈ r'.served := by
  have hkept : r.Kept := h.invariant (fun _ hinit ↦ hinit ▸ Registry.kept_init)
    fun _ _ _ _ hc hinv hstep ↦ hinv.step hc hstep
  refine ⟨fun hdeclared hholder t g hg ↦ hkept.entries_of_holder hholder hdeclared hg, fun r' hstep
    ↦ ?_⟩
  rw [Registry.step, Option.ite_none_right_eq_some] at hstep
  obtain ⟨⟨hholder, hhalted⟩, hstep⟩ := hstep
  cases hstep
  rw [Registry.redeclareHalted, Bool.and_eq_true] at hhalted
  refine ⟨fun howed t ↦ by rw [if_pos howed], fun t g hg ↦ ?_⟩
  split at hg
  · cases hg
  · next howed => exact (hkept.entries_of_holder hholder hhalted.1 hg).resolve_right howed

/-- `StopConsumers` cancels a consumer in its pass and halts repair only after the pass has ended.
-/
def stopInsidePass : List Label :=
  [.channel .client 1 true, .declare, .declared true, .channel .client 2 true,
    .start (.consumer 0), .advance [] none, .advance ["exchange:orders"] none,
    .cancel (.consumer 0), .advance [] (some false), .advance [] none, .advance [] none,
    .advance [] none, .halt, .rearm]

/-- The generation is in the ledger after re-arming although no pass served it, and the observer
that is started then does not declare anything either. -/
theorem redeclare_lost : ∃ r r', system.run {} stopInsidePass = some r ∧
    r.handledGenerations .client = some 2 ∧ (.client, 2) ∉ r.served ∧
    system.run r [.start (.observer 1), .advance [] none, .advance ["exchange:orders"] none] =
      some r' ∧ r'.holder = none ∧ r'.served = r.served :=
  ⟨_, _, rfl, rfl, by decide, rfl, rfl, rfl⟩

/-- The same stop with repair halted before the pass has ended. -/
def haltInsidePass : List Label :=
  [.channel .client 1 true, .declare, .declared true, .channel .client 2 true,
    .start (.consumer 0), .advance [] none, .advance ["exchange:orders"] none, .halt,
    .cancel (.consumer 0), .advance [] (some false), .advance [] none, .advance [] none,
    .advance [] none]

theorem redeclare_served_owed : ∃ r r', system.run {} haltInsidePass = some r ∧ r.repairOwed ∧
    r.handledGenerations .client = some 2 ∧ r.step .rearm = some r' ∧
    r'.handledGenerations .client = none := by
  obtain ⟨r, hrun, hrun', howed, hledger⟩ : ∃ r,
      (system.restrict CancelsApart).run {} haltInsidePass = some r ∧
        system.run {} haltInsidePass = some r ∧ r.repairOwed ∧
        r.handledGenerations .client = some 2 := ⟨_, rfl, rfl, rfl, rfl⟩
  obtain ⟨r', hrearm⟩ : ∃ r', r.step .rearm = some r' := by
    cases hrun'
    exact ⟨_, rfl⟩
  have hserved := redeclare_served (.of_restrict (StepSystem.reach_of_run (.init rfl) hrun))
  exact ⟨r, r', hrun', howed, hledger, hrearm, (hserved.2 r' hrearm).1 howed .client⟩

end Messaging
