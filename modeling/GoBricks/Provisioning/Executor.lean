import GoBricks.Lib.Database
import GoBricks.Lib.StepSystem
import GoBricks.Provisioning.Store
import Mathlib.Logic.Function.Basic

/-!
# Executors

Any number of executors run jobs of one store, several of them the same job if they like. `Run`
reads the job and then works on its copy: it calls the step that leaves the copy's state, and asks
the store for the transition. Between two statements of the store, and while a step is executing,
anything may happen; a step takes as long as it takes, and an executor may die anywhere (`crash`).

Steps are the caller's. They may change the metadata of the copy, and end with an error or without.

`history` is a history variable, newest event first.
-/

namespace Provisioning

/-- What a job is taken through. -/
inductive Step
  | createSchema
  | createRole
  | migrate
  | seed
  | cleanup
  deriving DecidableEq

/-- The forward step that exits a state. -/
def stepFor : State → Option Step
  | .pending => some .createSchema
  | .schemaCreated => some .createRole
  | .roleCreated => some .migrate
  | .migrated => some .seed
  | _ => none

/-- Where an executor stands in `Run`, with its copy of the job. -/
inductive Pc
  | idle
  /-- The top of the loop. -/
  | looping (job : Job)
  /-- A step is executing. -/
  | stepping (step : Step) (job : Job)
  /-- `Transition` to a state. -/
  | recording (job : Job) (target : State) (lastError : String)
  deriving DecidableEq

/-- The copy of an executor that is in `Run`. -/
def Pc.job? : Pc → Option Job
  | .idle => none
  | .looping job => some job
  | .stepping _ job => some job
  | .recording job _ _ => some job

/-- Recorded events. -/
inductive Event
  | invoked (step : Step) (id : String)
  | returned (step : Step) (id : String) (err : Option String)
  /-- A transition took effect. -/
  | recorded (id : String) (source target : State) (lastError : String)
  deriving DecidableEq

/-- The store's jobs, where the executors stand, and what has happened. -/
structure System where
  jobs : Jobs := []
  pcs : ℕ → Pc := fun _ ↦ .idle
  history : List Event := []

/-- What the checks at the top of the loop say. -/
inductive Gate
  | proceed
  | cancelled
  | quiesced

/-- Who moves, and what the environment answers. -/
inductive Label
  /-- Somebody upserts a job. -/
  | upsert (job : Option Job) (w : DbWrite)
  /-- An executor calls `Run`, which reads the job; the read may fail. -/
  | load (i : ℕ) (id : String) (ok : Bool)
  | loop (i : ℕ) (gate : Gate)
  /-- A step returns, with the metadata it leaves. -/
  | reply (i : ℕ) (err : Option String) (metadata : Metadata)
  | record (i : ℕ) (w : DbWrite)
  | crash (i : ℕ)

/-! ### `Run` -/

/-- What `runCleanup` does after the step. -/
def runCleanup (job : Job) : Option String → Pc
  | none => .recording job .failed job.lastError
  | some err =>
    let job :=
      if job.lastError = "" then { job with lastError := "cleanup error: " ++ err } else job
    .recording job .failed job.lastError

/-- What `runForwardStep` does after the step. -/
def runForwardStep (job : Job) : Option String → Pc
  | some err => .recording { job with lastError := err } .cleanup err
  | none =>
    match job.state.nextForward with
    | some target => .recording job target ""
    | none => .idle

/-- What `advance` does after the step. -/
def afterStep (job : Job) (err : Option String) : Pc :=
  if job.state = .cleanup then runCleanup job err else runForwardStep job err

namespace System

/-- An executor moves. -/
def goto (s : System) (i : ℕ) (pc : Pc) : System :=
  { s with pcs := Function.update s.pcs i pc }

/-- An event is recorded. -/
def log (s : System) (e : Event) : System :=
  { s with history := e :: s.history }

/-- Somebody upserts a job. -/
def upsert (vendor : Vendor) (s : System) (job : Option Job) (w : DbWrite) : Option System :=
  match vendor.upsert s.jobs job with
  | .error _ => some s
  | .ok (jobs, _) => some (if w.takesEffect then { s with jobs := jobs } else s)

/-- `Run` reads its job. -/
def load (s : System) (i : ℕ) (id : String) (ok : Bool) : Option System :=
  match s.pcs i with
  | .idle =>
    match s.jobs.get id with
    | some job => some (s.goto i (if ok then .looping job else .idle))
    | none => some s
  | _ => none

/-- The step starts to execute. -/
def invoke (s : System) (i : ℕ) (step : Step) (job : Job) : System :=
  (s.log (.invoked step job.id)).goto i (.stepping step job)

/-- The head of `Run`'s loop and `advance` up to its step. -/
def loop (s : System) (i : ℕ) (gate : Gate) : Option System :=
  match s.pcs i with
  | .looping job =>
    if job.state.isTerminal then some (s.goto i .idle)
    else match gate with
    | .cancelled => some (s.goto i .idle)
    | .quiesced =>
      -- A job in cleanup is exempt.
      if job.state = .cleanup then some (s.invoke i .cleanup job) else some (s.goto i .idle)
    | .proceed =>
      if job.state = .cleanup then some (s.invoke i .cleanup job)
      else if job.state = .seeded then some (s.goto i (.recording job .ready ""))
      else match stepFor job.state with
      | some step => some (s.invoke i step job)
      | none => some (s.goto i .idle)
  | _ => none

/-- A step returns. -/
def reply (s : System) (i : ℕ) (err : Option String) (metadata : Metadata) : Option System :=
  match s.pcs i with
  | .stepping step job =>
    some ((s.log (.returned step job.id err)).goto i
      (afterStep { job with metadata := metadata } err))
  | _ => none

/-- `transitionAndAdvance`. -/
def record (vendor : Vendor) (s : System) (i : ℕ) (w : DbWrite) : Option System :=
  match s.pcs i with
  | .recording job target lastError =>
    match vendor.transition s.jobs job.id job.state target job.metadata lastError with
    | .error _ => some (s.goto i .idle)
    | .ok jobs =>
      let s' :=
        if w.takesEffect then
          { s.log (.recorded job.id job.state target lastError) with jobs := jobs }
        else s
      some (s'.goto i
        (if w.fails then .idle else .looping { job with state := target, lastError := lastError }))
  | _ => none

/-- A step of the executors. -/
def step (vendor : Vendor) (s : System) : Label → Option System
  | .upsert job w => s.upsert vendor job w
  | .load i id ok => s.load i id ok
  | .loop i gate => s.loop i gate
  | .reply i err metadata => s.reply i err metadata
  | .record i w => s.record vendor i w
  | .crash i => some (s.goto i .idle)

end System

/-- Executors on one store, from its creation on. -/
def system (vendor : Vendor) : StepSystem System Label where
  init s := s = {}
  step := System.step vendor

/-! ### What a step can do -/

/-- What one executor does in a step: the jobs after it, where the executor then stands, and what is
recorded. -/
inductive Act (s : System) (i : ℕ) : Label → Jobs → Pc → List Event → Prop
  /-- `Run` is over. -/
  | stop {l : Label} : Act s i l s.jobs .idle []
  | load {l : Label} {job : Job} (hjob : job ∈ s.jobs) : Act s i l s.jobs (.looping job) []
  | acknowledge {l : Label} {job : Job} (hpc : s.pcs i = .looping job)
      (hstate : job.state = .seeded) : Act s i l s.jobs (.recording job .ready "") []
  | cleanup {l : Label} {job : Job} (hpc : s.pcs i = .looping job)
      (hstate : job.state = .cleanup) :
      Act s i l s.jobs (.stepping .cleanup job) [.invoked .cleanup job.id]
  | forward {l : Label} {job : Job} {step : Step} (hpc : s.pcs i = .looping job)
      (hstep : stepFor job.state = some step) :
      Act s i l s.jobs (.stepping step job) [.invoked step job.id]
  | reply {l : Label} {job : Job} {step : Step} (hpc : s.pcs i = .stepping step job)
      (err : Option String) (metadata : Metadata) :
      Act s i l s.jobs (afterStep { job with metadata := metadata } err)
        [.returned step job.id err]
  /-- The transition takes effect, and the executor may not learn of it. -/
  | record {w : DbWrite} {job : Job} {target : State} {lastError : String}
      (hpc : s.pcs i = .recording job target lastError) (hw : w.takesEffect)
      (hallowed : target ∈ job.state.allowedNext)
      (hstored : ∃ j ∈ s.jobs, j.id = job.id ∧ j.state = job.state) {pc : Pc}
      (hnext : pc = .idle ∨ pc = .looping { job with state := target, lastError := lastError }) :
      Act s i (.record i w) (s.jobs.advance job.id target job.metadata lastError) pc
        [.recorded job.id job.state target lastError]

variable {vendor : Vendor} {s t : System} {l : Label} {i : ℕ}

/-- The state after an act. -/
def System.after (s : System) (i : ℕ) (jobs : Jobs) (pc : Pc) (events : List Event) : System :=
  ⟨jobs, Function.update s.pcs i pc, events ++ s.history⟩

/-- `Upsert` leaves the store or adds one row. -/
theorem upsert_cases {job : Option Job} {w : DbWrite} (h : s.upsert vendor job w = some t) :
    t = s ∨ ∃ stored, Inserted s.jobs stored ∧ t = { s with jobs := s.jobs ++ [stored] } := by
  rw [System.upsert] at h
  cases hup : vendor.upsert s.jobs job with
  | error e =>
    rw [hup] at h
    exact .inl (Option.some.inj h).symm
  | ok r =>
    obtain ⟨jobs, stored⟩ := r
    rw [hup] at h
    cases h
    split
    · rcases upsert_eq_ok hup with rfl | ⟨rfl, hins⟩
      · exact .inl rfl
      · exact .inr ⟨stored, hins, rfl⟩
    · exact .inl rfl

/-- The top of the loop leaves the store alone. -/
theorem loop_cases {gate : Gate} (h : s.loop i gate = some t) :
    ∃ pc events, Act s i l s.jobs pc events ∧ t = s.after i s.jobs pc events := by
  rw [System.loop] at h
  split at h
  · next job hpc =>
    split at h
    · exact ⟨_, _, .stop, (Option.some.inj h).symm⟩
    · split at h
      · exact ⟨_, _, .stop, (Option.some.inj h).symm⟩
      · split at h
        · next hstate => exact ⟨_, _, .cleanup hpc hstate, (Option.some.inj h).symm⟩
        · exact ⟨_, _, .stop, (Option.some.inj h).symm⟩
      · split at h
        · next hstate => exact ⟨_, _, .cleanup hpc hstate, (Option.some.inj h).symm⟩
        · split at h
          · next hstate => exact ⟨_, _, .acknowledge hpc hstate, (Option.some.inj h).symm⟩
          · split at h
            · next step hstep => exact ⟨_, _, .forward hpc hstep, (Option.some.inj h).symm⟩
            · exact ⟨_, _, .stop, (Option.some.inj h).symm⟩
  · cases h

/-- A transition leaves the store or moves the job that the copy names. -/
theorem record_cases (hnodup : (s.jobs.map Job.id).Nodup) {w : DbWrite}
    (h : s.record vendor i w = some t) :
    ∃ jobs pc events, Act s i (.record i w) jobs pc events ∧ t = s.after i jobs pc events := by
  rw [System.record] at h
  split at h
  · next job target lastError hpc =>
    split at h
    · exact ⟨_, _, _, .stop, (Option.some.inj h).symm⟩
    · next jobs hok =>
      obtain ⟨hallowed, hstored, rfl⟩ := transition_eq_ok hnodup hok
      cases h
      cases w with
      | refused => exact ⟨_, _, _, .stop, rfl⟩
      | done => exact ⟨_, _, _, .record hpc rfl hallowed hstored (.inr rfl), rfl⟩
      | unconfirmed => exact ⟨_, _, _, .record hpc rfl hallowed hstored (.inl rfl), rfl⟩
  · cases h

/-- **What a step can do**: nothing, insert a job, or be an act of an executor. -/
theorem step_cases (hnodup : (s.jobs.map Job.id).Nodup) (h : s.step vendor l = some t) :
    t = s ∨ (∃ job, Inserted s.jobs job ∧ t = { s with jobs := s.jobs ++ [job] }) ∨
      ∃ i jobs pc events, Act s i l jobs pc events ∧ t = s.after i jobs pc events := by
  cases l with
  | upsert job w =>
    rcases upsert_cases h with rfl | hins
    · exact .inl rfl
    · exact .inr (.inl hins)
  | load i id ok =>
    rw [System.step, System.load] at h
    split at h
    · split at h
      · next job hget =>
        have hjob := (Jobs.mem_of_get hget).1
        cases ok with
        | true => exact .inr (.inr ⟨i, _, _, _, .load hjob, (Option.some.inj h).symm⟩)
        | false => exact .inr (.inr ⟨i, _, _, _, .stop, (Option.some.inj h).symm⟩)
      · exact .inl (Option.some.inj h).symm
    · cases h
  | loop i gate =>
    obtain ⟨pc, events, hact, ht⟩ := loop_cases h
    exact .inr (.inr ⟨i, _, pc, events, hact, ht⟩)
  | reply i err metadata =>
    rw [System.step, System.reply] at h
    split at h
    · next step job hpc =>
      exact .inr (.inr ⟨i, _, _, _, .reply hpc err metadata, (Option.some.inj h).symm⟩)
    · cases h
  | record i w =>
    obtain ⟨jobs, pc, events, hact, ht⟩ := record_cases hnodup h
    exact .inr (.inr ⟨i, jobs, pc, events, hact, ht⟩)
  | crash i => exact .inr (.inr ⟨i, _, _, _, .stop, (Option.some.inj h).symm⟩)

end Provisioning
