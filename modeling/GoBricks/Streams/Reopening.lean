import GoBricks.Streams.Gate

/-!
# The gate can always be opened again

A promotion closes the gate and starts a reload that carries its epoch. The reload may fail and be
refused any number of times; only a stopped consumer ends it. So while the gate is closed the reload
of the last promotion is under way (`Underway`), and what is left of it opens the gate (`run_rest`).
-/

namespace Streams

open List Function

variable {s t : State} {l : Label} {r : ℕ}

/-- The consumer is not stopped while a promotion's reload waits for its next try. -/
def Running (_ : State) : Label → Prop
  | .wait _ stopped => stopped = false
  | _ => True

/-- A promotion's reload, with the epoch of that promotion. -/
def Reload.carries (epoch : ℕ) : Reload → Prop
  | .top caller e | .listing caller e _ | .replacing caller e _ _ | .refused caller e =>
    caller = .promotion ∧ e = epoch
  | .waiting e => e = epoch
  | _ => False

/-- The reload of the last promotion is under way. -/
def Underway (s : State) : Prop :=
  s.held.closed = true → ∃ r, (s.reloads r).carries s.held.epoch

/-- A reload moves and goes on carrying its epoch. -/
theorem Underway.move {pc : Reload} (hs : Underway s)
    (h : (s.reloads r).carries s.held.epoch → pc.carries s.held.epoch) :
    Underway (s.setReload r pc) := by
  intro hclosed
  obtain ⟨r', hr'⟩ := hs hclosed
  refine ⟨r', ?_⟩
  show (update s.reloads r pc r').carries _
  rw [update_apply]
  split
  · next heq => exact h (heq ▸ hr')
  · exact hr'

/-- While the gate is closed a reload goes on. -/
theorem Underway.step (hs : Underway s) (hl : Running s l) (h : s.step l = some t) :
    Underway t := by
  cases l with
  | hold | release | deliver | wake | stop | attempt | handled | park | add =>
    simp only [State.step, State.mark, State.deliver, State.wake, State.stop, State.attempt,
      State.handled, State.park, State.add] at h
    repeat' split at h
    all_goals cases h
    all_goals exact hs
  | promote r =>
    simp only [State.step, State.promote] at h
    repeat' split at h
    all_goals cases h
    exact fun _ ↦ ⟨r, by simp [State.setReload, State.log, Reload.carries]⟩
  | replace r =>
    simp only [State.step, State.replace] at h
    split at h
    · next caller epoch generation tenants hpc =>
      split at h
      · cases h
        exact hs
      · cases h
        refine hs.move ?_
        rw [hpc]
        exact id
      · next held hreplace =>
        -- A replace that lands leaves the gate open.
        have hopen : held.closed = false := by
          simp only [HeldSet.replace] at hreplace
          grind
        cases h
        intro hclosed
        split at hclosed <;> exact absurd (hopen.symm.trans hclosed) Bool.false_ne_true
    · contradiction
  | reload | epochAt | generationAt | heldTenants | recheck | wait =>
    simp only [State.step, State.reload, State.epochAt, State.generationAt, State.heldTenants,
      State.recheck, State.wait] at h
    repeat' split at h
    all_goals cases h
    all_goals
      refine hs.move fun hcarries ↦ ?_
      simp_all [Reload.carries, Reload.fail, Running]

/-! ### Channels -/

/-- The channel a delivery waits for has been closed, or is the one of the closed gate. -/
def Signalled (s : State) : Prop :=
  ∀ d tenant opened, s.deliveries d = .waiting tenant opened →
    opened ∈ s.held.fired ∨ s.held.closed = true ∧ opened = s.held.opened

/-- A gate that opens closes the channel it had. -/
theorem Signalled.step (hs : Signalled s) (h : Act s l t) : Signalled t := by
  intro d tenant opened
  have := hs d tenant opened
  cases h with
  | ledger | reads | list | panic => exact this
  | move hpc hmoves => cases hmoves <;> grind
  | park | add | promote | replace => grind [HeldSet.add, HeldSet.closeGate]

/-- Every wait is signalled, along every run. -/
theorem signalled_of_reachable (hs : runnerSystem.Reachable s) : Signalled s := by
  refine hs.invariant ?_ fun _ _ _ _ _ h hstep ↦ h.step (step_act hstep)
  rintro s ⟨markers, next, -, rfl⟩
  exact nofun

/-! ### The way to the opening -/

/-- A round of a reload's loop. -/
def fullRound (r : ℕ) : List Label :=
  [.generationAt r, .heldTenants r true, .replace r]

/-- The replace that follows a listing; a stale one is refused, and another round begins. -/
def afterListing (r : ℕ) (stale : Bool) : List Label :=
  .replace r :: if stale then .recheck r false :: fullRound r else []

/-- What is left for a reload to do when its next listing succeeds and nothing comes between. -/
def Reload.rest (r current : ℕ) : Reload → List Label
  | .top .. => fullRound r
  | .listing _ _ generation => .heldTenants r true :: afterListing r (current ≠ generation)
  | .replacing _ _ generation _ => afterListing r (current ≠ generation)
  | .refused .. => .recheck r false :: fullRound r
  | .waiting _ => .wait r false :: fullRound r
  | _ => []

/-- From wherever it stands, a reload that carries the present epoch opens the gate. -/
theorem run_rest (hclosed : s.held.closed = true) (hfree : s.held.opened ∉ s.held.fired)
    (hcarries : (s.reloads r).carries s.held.epoch) :
    ∃ t, runnerSystem.run s ((s.reloads r).rest r s.held.generation) = some t ∧
      t.held.closed = false := by
  by_cases hcurrent : some s.held.generation = (s.reloads r).generation
  all_goals
    cases hpc : s.reloads r
    all_goals simp_all only [Reload.carries, Reload.generation, Option.some_inj]
    -- The states that carry nothing are gone; the others are run.
    all_goals
      simp [Reload.rest, afterListing, fullRound, StepSystem.run, runnerSystem, State.step,
        State.generationAt, State.heldTenants, State.replace, State.recheck, State.wait,
        State.setReload, State.log, State.finish, HeldSet.replace, *]

/-- **The gate can be opened again.** As long as the consumer is not stopped, a closed gate has a
reload under way that carries the epoch of the last promotion. Whatever failed so far, what is left
of that reload opens the gate without a panic, and every delivery that waits can go on. -/
theorem gate_opens_again (hs : runnerSystem.Reach Running s) (hclosed : s.held.closed = true) :
    ∃ r t, (s.reloads r).carries s.held.epoch ∧
      runnerSystem.run s ((s.reloads r).rest r s.held.generation) = some t ∧
      t.held.closed = false ∧ t.panicked = false ∧
      ∀ d tenant opened, t.deliveries d = .waiting tenant opened →
        ∃ u, t.step (.wake d) = some u ∧ u.deliveries d = .proceeding tenant := by
  have hunderway : Underway s := by
    refine hs.invariant ?_ fun _ _ _ _ hl h hstep ↦ h.step hl hstep
    rintro s ⟨markers, next, -, rfl⟩
    exact nofun
  obtain ⟨r, hcarries⟩ := hunderway hclosed
  have hgated := (kept_and_gated_of_reachable hs.reachable).2
  obtain ⟨t, hrun, hopen⟩ := run_rest hclosed (hgated.channel hclosed) hcarries
  have ht := StepSystem.reach_of_run hs.reachable hrun
  refine ⟨r, t, hcarries, hrun, hopen, (kept_and_gated_of_reachable ht).2.sound, ?_⟩
  intro d tenant opened hpc
  rcases signalled_of_reachable ht d tenant opened hpc with hfired | ⟨hclosed', -⟩
  · have hstep : t.step (.wake d) =
        some ((t.log (.proceeded d)).setDelivery d (.proceeding tenant)) := by
      show t.wake d = _
      rw [State.wake, hpc]
      exact if_pos hfired
    exact ⟨_, hstep, update_self ..⟩
  · cases hopen.symm.trans hclosed'

theorem gate_opens_again_failed : ∃ s r t, runnerSystem.Reach Running s ∧
    s.held.closed = true ∧ s.deliveries 0 = .waiting "x" 1 ∧
    runnerSystem.run s ((s.reloads r).rest r s.held.generation) = some t ∧
    t.held.closed = false := by
  have hrun : runnerSystem.run {} [.epochAt 0, .generationAt 0, .heldTenants 0 true, .replace 0,
      .promote 1, .deliver 0 "x", .generationAt 1, .heldTenants 1 false] = some _ := rfl
  have hs : runnerSystem.Reach Running _ :=
    .run_cons (.init ⟨[], 0, by simp, rfl⟩) hrun trivial (by simp [Running])
  obtain ⟨r, t, -, ht, hopen, -⟩ := gate_opens_again hs rfl
  exact ⟨_, r, t, hs, rfl, rfl, ht, hopen⟩

end Streams
