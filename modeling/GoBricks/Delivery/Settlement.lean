import GoBricks.Delivery.Pipeline
import Mathlib.Data.List.Induction
import Mathlib.Data.List.Range

/-!
# Every delivery is settled once

Once the guard of `Run` is installed, the trace of a delivery is known up to the number of attempts:
the attempts, the end of the span, the releases, and one settlement (`run_trace`).

* `run_settles_once`: every delivery is settled once, and every lease has been released by then
  exactly if no release callback but the last one panics.
* `settles_before_release`: `ReleaseAll` does not go on after a callback that panics, and the guard
  then settles a message some of whose leases were never released.
-/

namespace Delivery

open Go

variable {req : Request} {env : Env} {tenant : Option String}

/-- The outcome is a success exactly if there is no error. -/
def Result.Sound (res : Result) : Prop :=
  res.err = none ↔ res.outcome = .succeeded

/-- The result of an invocation is sound. -/
theorem invoke_sound (reply : Call (Option Err)) : (invoke reply).Sound := by
  rcases reply with p | _ | err <;> simp [invoke, Result.Sound]

theorem panickedResult_sound (res : Option Result) (type : String) :
    (panickedResult req env res type).Sound := by
  simp [panickedResult, Result.Sound]

/-! ### Attempts -/

/-- The `n`-th attempt returned an error that is not permanent. -/
def Request.Retried (req : Request) (tenant : Option String) (n : ℕ) : Prop :=
  ∃ err, (req.handle tenant n).reply = .ok (some err) ∧ err.isPermanent = .ok false

/-- The leases of the first `k` attempts. -/
def Request.leases (req : Request) (tenant : Option String) (k : ℕ) : List Lease :=
  (List.range' 1 k).flatMap fun n ↦ (req.handle tenant n).leases

/-- The events of the first `k` attempts. -/
def attempts (k : ℕ) : List Event :=
  (List.range' 1 k).map .attempted

/-- The handler has run `k` times, and nothing else has happened. -/
structure Ran (req : Request) (tenant : Option String) (k : ℕ) (s : State) : Prop where
  trace : s.trace.reverse = attempts k
  releases : s.scope.releases = req.leases tenant k
  retried : ∀ n, 1 ≤ n → n < k → req.Retried tenant n

/-- One attempt more. -/
theorem Ran.attempt {k : ℕ} {s : State} (h : Ran req tenant k s)
    (hretried : 1 ≤ k → req.Retried tenant k) :
    Ran req tenant (k + 1) (s.attempt (k + 1) (req.handle tenant (k + 1)).leases) where
  trace := by
    simp [State.attempt, State.log, attempts, List.range'_concat, h.trace, Nat.add_comm]
  releases := by
    simp [State.attempt, State.log, Request.leases, List.range'_concat, h.releases, Nat.add_comm]
  retried n hn hk := by
    rcases Nat.lt_succ_iff_lt_or_eq.1 hk with hlt | rfl
    · exact h.retried n hn hlt
    · exact hretried hn

/-- The attempts are over, after the `k`-th at the earliest and the `k + left`-th at the latest. -/
def AttemptsOver (req : Request) (tenant : Option String) (k left : ℕ) (r : Call Result)
    (s : State) : Prop :=
  (∃ k', 1 ≤ k' ∧ k' ≤ k + left ∧ Ran req tenant k' s) ∧ ∀ res, r = .ok res → res.Sound

theorem attemptsOver_of_ran {k left : ℕ} {r : Call Result} {s : State}
    (h : Ran req tenant (k + 1) s) (hr : ∀ res, r = .ok res → res.Sound) :
    AttemptsOver req tenant (k + 1) left r s :=
  ⟨⟨k + 1, k.succ_pos, Nat.le_add_right _ _, h⟩, hr⟩

theorem ensures_result {k left n : ℕ} {res : Result} (h : res.Sound) :
    Ensures (Ran req tenant (k + 1)) (pure { res with attempts := n })
      (AttemptsOver req tenant (k + 1) left) :=
  fun s hs ↦ attemptsOver_of_ran (s := s) hs fun res' h' ↦ by
    cases h'
    exact h

/-- A handler's error is what the handler returned. -/
theorem invoke_handlerError {reply : Call (Option Err)} {err : Err}
    (h : (invoke reply).outcome = .handlerError) (herr : (invoke reply).err = some err) :
    reply = .ok (some err) := by
  rcases reply with p | _ | err'
  · simp [invoke] at h
  · simp [invoke] at h
  · simp only [invoke, Option.some_inj] at herr
    rw [herr]

/-- A round of the loop, given what the rest of the loop does after an attempt that may be retried.
-/
theorem runAttempt_ensures {k left : ℕ} {next : Option (Go State Result)}
    (hnext : req.Retried tenant (k + 1) → ∀ m ∈ next,
      Ensures (Ran req tenant (k + 1)) m (AttemptsOver req tenant (k + 1) left)) :
    Ensures (fun s ↦ Ran req tenant k s ∧ (1 ≤ k → req.Retried tenant k))
      (runAttempt req env tenant (k + 1) next) (AttemptsOver req tenant (k + 1) left) := by
  refine .modify_bind (P := Ran req tenant (k + 1)) ?_ fun s hs ↦ hs.1.attempt hs.2
  dsimp only
  split
  · next err retry m houtcome herr _ =>
    have hreply := invoke_handlerError houtcome herr
    refine .call_bind (fun permanent hpermanent ↦ ?_) fun p s _ hs ↦ ?_
    · split
      · exact ensures_result (invoke_sound _)
      · next hnot =>
        rw [Bool.eq_false_iff.2 hnot] at hpermanent
        split
        · exact hnext ⟨err, hreply, hpermanent⟩ m rfl
        · exact ensures_result (invoke_sound _)
    · exact attemptsOver_of_ran hs nofun
  · exact ensures_result (invoke_sound _)

/-- The attempts, by induction on how many are left. -/
theorem runAttempts_ensures (left k : ℕ) :
    Ensures (fun s ↦ Ran req tenant k s ∧ (1 ≤ k → req.Retried tenant k))
      (runAttempts req env tenant left (k + 1)) (AttemptsOver req tenant (k + 1) left) := by
  induction left generalizing k with
  | zero => exact runAttempt_ensures nofun
  | succ left ih =>
    refine runAttempt_ensures fun hretried m hm ↦ ?_
    cases hm
    refine (ih (k + 1)).mono (fun s hs ↦ ⟨hs, fun _ ↦ hretried⟩) ?_
    rintro r s ⟨⟨k', hpos, hle, hran⟩, hsound⟩
    exact ⟨⟨k', hpos, by omega, hran⟩, hsound⟩

/-! ### The pipeline up to its deferred calls -/

/-- Something panics before the first attempt. -/
def PanicsFirst (req : Request) (env : Env) : Prop :=
  ∃ p, (env.extract = .ok none ∧ env.ensureTraceID = .error p) ∨ env.withContext = .error p ∨
    seedTenant req = .error p

/-- The tenant stamp is refused. -/
def Request.Refused (req : Request) : Prop :=
  ∃ err, seedTenant req = .ok (.error err)

/-- Everything a delivery did before its deferred calls: `k` attempts. -/
structure Worked (req : Request) (env : Env) (tenant : Option String) (k : ℕ) (s : State) : Prop
    extends Ran req tenant k s where
  le_max : k ≤ 1 + req.retries
  seeded : 1 ≤ k → seedTenant req = .ok (.ok tenant)
  none_only : k = 0 → req.Refused ∨ PanicsFirst req env

/-- How the body of `Run` ends. -/
def BodyOver (req : Request) (env : Env) (r : Call Unit) (s : State) : Prop :=
  (∃ tenant k, Worked req env tenant k s) ∧
    (r = .ok () → ∃ res, s.res = some res ∧ res.Sound)

theorem ran_zero : Ran req tenant 0 {} where
  trace := rfl
  releases := rfl
  retried n hn hk := by omega

/-- A delivery that was refused ran nothing. -/
theorem worked_zero (h : req.Refused ∨ PanicsFirst req env) : Worked req env tenant 0 {} where
  toRan := ran_zero
  le_max := Nat.zero_le _
  seeded h := absurd h (by decide)
  none_only _ := h

/-- The body panics before the first attempt. -/
theorem bodyOver_of_panicsFirst {p : String} (h : PanicsFirst req env) :
    BodyOver req env (.error p) {} :=
  ⟨⟨none, 0, worked_zero (.inr h)⟩, nofun⟩

/-- The handling ends with a sound result, after the attempts it made. -/
theorem handle_ensures : Ensures (· = {}) (handle req env) fun r s ↦
    (∃ tenant k, Worked req env tenant k s) ∧ ∀ res, r = .ok res → res.Sound := by
  refine .call_bind (fun seeded hseeded ↦ ?_) fun p s hp hs ↦ ?_
  · rcases seeded with err | tenant
    · rintro s rfl
      refine ⟨⟨none, 0, worked_zero (.inl ⟨err, hseeded⟩)⟩, fun res hres ↦ ?_⟩
      cases hres
      simp [Result.Sound]
    · refine (runAttempts_ensures req.retries 0).mono ?_ ?_
      · rintro s rfl
        exact ⟨ran_zero, fun h ↦ absurd h (by decide)⟩
      · rintro r s ⟨⟨k, hpos, hle, hran⟩, hsound⟩
        exact ⟨⟨tenant, k, hran, by omega, fun _ ↦ hseeded, by omega⟩, hsound⟩
  · subst hs
    exact ⟨⟨none, 0, worked_zero (.inr ⟨p, .inr (.inr hp)⟩)⟩, nofun⟩

/-- The report settles what was handled. -/
theorem report_ensures {res : Result} (hres : res.Sound) :
    Ensures (fun s ↦ ∃ tenant k, Worked req env tenant k s) (report req env res)
      (BodyOver req env) := by
  have hover (r : Call Unit) (s : State)
      (h : (∃ tenant k, Worked req env tenant k s) ∧ s.res = some res) : BodyOver req env r s :=
    ⟨h.1, fun _ ↦ ⟨res, h.2, hres⟩⟩
  refine .modify_bind
    (P := fun s ↦ (∃ tenant k, Worked req env tenant k s) ∧ s.res = some res) ?_ ?_
  · refine .call_bind (fun _ _ ↦ ?_) fun p s _ ↦ hover _ s
    refine .call_bind (fun _ _ ↦ ?_) fun p s _ ↦ hover _ s
    refine .call_bind (fun _ _ ↦ ?_) fun p s _ ↦ hover _ s
    refine .call_bind (fun _ _ ↦ ?_) fun p s _ ↦ hover _ s
    exact fun s ↦ hover _ s
  · rintro s ⟨tenant, k, hworked⟩
    exact ⟨⟨tenant, k, ⟨hworked.trace, hworked.releases, hworked.retried⟩, hworked.le_max,
      hworked.seeded, hworked.none_only⟩, rfl⟩

/-- The body handles and reports. -/
theorem body_ensures {carried : Option String} (hextract : env.extract = .ok carried) :
    Ensures (· = {}) (body req env carried) (BodyOver req env) := by
  refine .call_bind (fun id _ ↦ ?_) fun p s hp hs ↦ ?_
  · refine .call_bind (fun log _ ↦ ?_) fun p s hp hs ↦ ?_
    · refine handle_ensures.bind (fun res ↦ ?_) fun p s hs ↦ ⟨hs.1, nofun⟩
      rintro s ⟨hworked, hsound⟩
      have hsound' : Result.Sound
          { res with duration := env.elapsed, traceID := id, log := log } := hsound res rfl
      exact report_ensures hsound' s hworked
    · exact hs ▸ bodyOver_of_panicsFirst ⟨p, .inr (.inl hp)⟩
  · refine hs ▸ bodyOver_of_panicsFirst ⟨p, .inl ?_⟩
    cases carried with
    | none => exact ⟨hextract, hp⟩
    | some id => contradiction

/-! ### The deferred calls -/

/-- The leases whose callbacks the loop of `ReleaseAll` calls: a panic ends it. -/
def called : List Lease → List Lease
  | [] => []
  | lease :: leases =>
    match lease.release with
    | .ok _ => lease :: called leases
    | .error _ => [lease]

/-- The leases are released in their order, up to the one that panics. -/
theorem called_isPrefix (leases : List Lease) : called leases <+: leases := by
  induction leases with
  | nil => exact List.prefix_rfl
  | cons lease leases ih =>
    rw [called]
    split
    · exact (List.prefix_cons_inj lease).2 ih
    · exact (List.prefix_cons_inj lease).2 List.nil_prefix

/-- Every callback is called exactly if none but the last one panics. -/
theorem called_eq_self_iff (leases : List Lease) :
    called leases = leases ↔ ∀ lease ∈ leases.dropLast, lease.release = .ok () := by
  induction leases with
  | nil => simp [called]
  | cons lease leases ih =>
    cases leases with
    | nil => rcases h : lease.release with p | _ <;> simp [called, h]
    | cons next leases =>
      rw [called, List.dropLast_cons_cons, List.forall_mem_cons]
      rcases h : lease.release with p | _
      · simp
      · simp [ih]

/-- The callbacks of the leases were called. -/
def releases (leases : List Lease) : List Event :=
  leases.map (.released ·.id)

/-- What is released, one after the other. -/
theorem releaseEach_exec (leases : List Lease) (s : State) :
    ((releaseEach leases).exec s).2 =
      { s with trace := (releases (called leases)).reverse ++ s.trace } := by
  induction leases generalizing s with
  | nil => rfl
  | cons lease leases ih =>
    rw [releaseEach, exec_bind, exec_modify]
    dsimp only
    rw [exec_bind, exec_call, called]
    rcases lease.release with p | _
    · rfl
    · rw [ih]
      simp [releases, State.log]

/-- What is released, all in all. -/
theorem releaseAll_exec (s : State) : (releaseAll.exec s).2 =
    { s with
      scope := { releases := [], drained := true }
      trace := (releases (called s.scope.releases)).reverse ++ s.trace } := by
  change ((releaseEach s.scope.releases).exec _).2 = _
  rw [releaseEach_exec]

theorem endSpan_exec (s : State) : ((endSpan env).exec s).2 = s.log .spanEnded := rfl

/-- The settlement of the result, if the lane has one. -/
def settlement (req : Request) (res : Result) : List Event :=
  match req.settle with
  | some _ => [.settled res]
  | none => []

theorem settlement_reverse (res : Result) : (settlement req res).reverse = settlement req res := by
  rw [settlement]
  split <;> rfl

/-- No panic escapes the settlement. -/
theorem settleOnce_exec {s : State} {res : Result} (h : s.res = some res) :
    (settleOnce req env).exec s = (.ok (), { s with trace := settlement req res ++ s.trace }) := by
  obtain ⟨scope, res', trace⟩ := s
  obtain rfl : res' = some res := h
  rw [settleOnce, exec_bind, exec_get, settlement]
  dsimp only
  cases req.settle with
  | none => rfl
  | some settle =>
    rw [exec_guarding, exec_bind, exec_modify]
    dsimp only
    rcases settle res with p | _
    · rcases res.log with _ | log <;> rfl
    · rfl

/-- The guard settles on a sound result, whatever the deferred calls before it ended with. -/
theorem settleGuard_exec {r : Call Unit} {s : State}
    (h : r = .ok () → ∃ res, s.res = some res ∧ res.Sound) :
    ∃ res : Result, res.Sound ∧ (settleGuard req env (recovered r)).exec s =
      (.ok (), { s with res := some res, trace := settlement req res ++ s.trace }) := by
  rcases r with p | _
  · refine ⟨panickedResult req env s.res p, panickedResult_sound _ _, ?_⟩
    change (settleOnce req env).exec { s with res := some (panickedResult req env s.res p) } = _
    rw [settleOnce_exec rfl]
  · obtain ⟨res, hres, hsound⟩ := h rfl
    refine ⟨res, hsound, ?_⟩
    change (settleOnce req env).exec s = _
    rw [settleOnce_exec hres, hres]

/-- Nothing panics before the guard is installed. -/
def Env.Guarded (env : Env) : Prop :=
  (∃ carried, env.extract = .ok carried) ∧ env.start = .ok () ∧ env.setAttributes = .ok ()

/-- The number of attempts the policy names. -/
def Request.maxAttempts (req : Request) : ℤ :=
  match req.retry with
  | none => 1
  | some retry => retry.maxAttempts

/-- The retries are what the attempts allow. -/
theorem le_maxAttempts {k : ℕ} (h : k ≤ 1 + req.retries) : (k : ℤ) ≤ max 1 req.maxAttempts := by
  rw [Request.retries] at h
  rw [Request.maxAttempts]
  cases hretry : req.retry with
  | none | some retry =>
    rw [hretry] at h
    dsimp only at h ⊢
    omega

/-- The trace of a delivery: its attempts, the end of its span, the releases, the settlement. -/
theorem run_trace (h : env.Guarded) : ∃ tenant k s res, Worked req env tenant k s ∧ res.Sound ∧
    ((run req env).exec {}).1 = .ok (some res) ∧
    ((run req env).exec {}).2.trace.reverse = attempts k ++ .spanEnded ::
      (releases (called (req.leases tenant k)) ++ settlement req res) := by
  obtain ⟨⟨carried, hextract⟩, hstart, hattributes⟩ := h
  have hbody := @body_ensures req env carried hextract {} rfl
  set s := ((body req env carried).exec {}).2
  set deferred := deferring releaseAll (deferring (endSpan env) (body req env carried))
  have hdeferred : (deferred.exec {}).2 =
      { s with
        scope := { releases := [], drained := true }
        trace := (releases (called s.scope.releases)).reverse ++ .spanEnded :: s.trace } := by
    rw [exec_deferring_snd, exec_deferring_snd, endSpan_exec, releaseAll_exec]
    rfl
  obtain ⟨⟨tenant, k, hworked⟩, hreturned⟩ := hbody
  obtain ⟨res, hsound, hguard⟩ :=
    @settleGuard_exec req env (deferred.exec {}).1 (deferred.exec {}).2 fun hr ↦ by
      rw [hdeferred]
      exact hreturned (ok_of_exec_deferring (ok_of_exec_deferring hr))
  have hrun : (run req env).exec {} = (.ok (some res), { (deferred.exec {}).2 with
      res := some res, trace := settlement req res ++ (deferred.exec {}).2.trace }) := by
    rw [run, exec_bind, exec_call, hextract]
    dsimp only
    rw [exec_bind, exec_call, hstart]
    dsimp only
    rw [exec_bind, exec_call, hattributes]
    dsimp only
    rw [exec_bind, exec_guarding, hguard]
    rfl
  refine ⟨tenant, k, s, res, hworked, hsound, ?_, ?_⟩
  · rw [hrun]
  · rw [hrun, hdeferred, hworked.releases]
    simp [hworked.trace, settlement_reverse]

/-- **Every delivery is settled once**, after its span has ended and its leases were released in the
order in which the attempts took them, **and every lease was released exactly if no callback but the
last one panics**. No panic escapes; the result is a success exactly if it has no error; the handler
runs at most as often as the policy allows, not at all only if the stamp was refused or something
panicked before, and each attempt but the last returned an error that is not permanent. -/
theorem run_settles_once {settle : Result → Call Unit} (hsettle : req.settle = some settle)
    (hguarded : env.Guarded) :
    ∃ tenant k res released, ((run req env).exec {}).1 = .ok (some res) ∧
      ((run req env).exec {}).2.trace.reverse =
        attempts k ++ .spanEnded :: (releases released ++ [.settled res]) ∧
      released <+: req.leases tenant k ∧
      (released = req.leases tenant k ↔
        ∀ lease ∈ (req.leases tenant k).dropLast, lease.release = .ok ()) ∧
      (res.err = none ↔ res.outcome = .succeeded) ∧
      (k : ℤ) ≤ max 1 req.maxAttempts ∧
      (k = 0 → req.Refused ∨ PanicsFirst req env) ∧
      (1 ≤ k → seedTenant req = .ok (.ok tenant)) ∧
      ∀ n, 1 ≤ n → n < k → req.Retried tenant n := by
  obtain ⟨tenant, k, s, res, hworked, hsound, hresult, htrace⟩ := @run_trace req env hguarded
  refine ⟨tenant, k, res, called (req.leases tenant k), hresult, ?_, called_isPrefix _,
    called_eq_self_iff _, hsound, le_maxAttempts hworked.le_max, hworked.none_only,
    hworked.seeded, hworked.retried⟩
  rw [htrace, settlement, hsettle]

/-- Surroundings in which nothing panics and every wait runs its time. -/
def quiet : Env where
  extract := .ok (some "trace")
  start := .ok ()
  setAttributes := .ok ()
  ensureTraceID := .ok "minted"
  withContext := .ok (some .bound)
  ctxErr _ := false
  fires _ := true
  setOutcome := .ok ()
  recordError := .ok ()
  recordConsume := .ok ()
  endSpan := .ok ()
  logSettlePanic := .ok ()
  elapsed := 7
  elapsedAtPanic := 9

theorem quiet_guarded : quiet.Guarded :=
  ⟨⟨some "trace", rfl⟩, rfl, rfl⟩

/-- A request whose handler takes the leases and succeeds. -/
def borrowing (leases : List Lease) : Request where
  handle _ _ := { leases := leases, reply := .ok none }
  logOutcome _ := .ok ()
  settle := some fun _ ↦ .ok ()

/-- A delivery whose outcome line panics, and the callback of its last lease: it is settled once all
the same, with both leases released. -/
theorem run_settles_once_outcome_panics : ∃ tenant k res released,
    let req := { borrowing [⟨1, .ok ()⟩, ⟨2, .error "string"⟩] with
      logOutcome := fun _ ↦ .error "string" }
    ((run req quiet).exec {}).1 = .ok (some res) ∧
    ((run req quiet).exec {}).2.trace.reverse =
      attempts k ++ .spanEnded :: (releases released ++ [.settled res]) ∧
    (released = req.leases tenant k ↔
      ∀ lease ∈ (req.leases tenant k).dropLast, lease.release = .ok ()) := by
  obtain ⟨tenant, k, res, released, hresult, htrace, -, hall, -⟩ := @run_settles_once
    { borrowing [⟨1, .ok ()⟩, ⟨2, .error "string"⟩] with logOutcome := fun _ ↦ .error "string" }
    quiet _ rfl quiet_guarded
  exact ⟨tenant, k, res, released, hresult, htrace, hall⟩

/-- A release callback that panics keeps those after it from being called, and the message is
settled: here the lease 2 is taken, and never released. -/
theorem settles_before_release : ∃ (req : Request) (env : Env) (lease : Lease) (res : Result),
    env.Guarded ∧ lease ∈ (req.handle none 1).leases ∧
      ((run req env).exec {}).2.trace.reverse =
        [.attempted 1, .spanEnded, .released 1, .settled res] ∧ lease.id = 2 :=
  ⟨borrowing [⟨1, .error "string"⟩, ⟨2, .ok ()⟩], quiet, ⟨2, .ok ()⟩, _, quiet_guarded,
    by simp [borrowing], rfl, rfl⟩

end Delivery
