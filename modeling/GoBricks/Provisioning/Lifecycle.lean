import GoBricks.Provisioning.Executor

/-!
# The life of a job

Whatever executors do, a job's life is a walk in the graph of states (`lifecycle`): its attempts are
the forward transitions of the walk, it is ready only after its steps have returned without an
error, one after the other, it fails only after a cleanup, and the error that led to the cleanup
stays.

All of it follows from one invariant (`Inv`). An executor's copy of a job is one that the store had
(`Held`): what has happened by then has happened, so it does not matter that the copy may be old.
-/

namespace Provisioning

open List Function State

/-! ### Histories -/

/-- The transition of a job that an event records. -/
def Event.edge? (id : String) : Event → Option (State × State)
  | .recorded id' source target _ => if id' = id then some (source, target) else none
  | _ => none

/-- The step of a job that an event says has returned without an error. -/
def Event.done? (id : String) : Event → Option Step
  | .returned step id' none => if id' = id then some step else none
  | _ => none

/-- The transitions of a job, oldest first. -/
def trail (history : List Event) (id : String) : List (State × State) :=
  history.reverse.filterMap (Event.edge? id)

/-- The steps of a job that have returned without an error, oldest first. -/
def returns (history : List Event) (id : String) : List Step :=
  history.reverse.filterMap (Event.done? id)

theorem trail_cons (e : Event) (history : List Event) (id : String) :
    trail (e :: history) id = trail history id ++ (e.edge? id).toList := by
  rw [trail, trail, reverse_cons, filterMap_append]
  cases h : e.edge? id with
  | none | some edge => simp [h]

theorem returns_cons (e : Event) (history : List Event) (id : String) :
    returns (e :: history) id = returns history id ++ (e.done? id).toList := by
  rw [returns, returns, reverse_cons, filterMap_append]
  cases h : e.done? id with
  | none | some step => simp [h]

variable {id : String}

theorem sublist_returns_append {steps : List Step} {history : List Event}
    (h : steps.Sublist (returns history id)) (events : List Event) :
    steps.Sublist (returns (events ++ history) id) := by
  induction events with
  | nil => exact h
  | cons e events ih =>
    rw [cons_append, returns_cons]
    exact ih.trans (sublist_append_left _ _)

/-- Where a walk in the graph ends. -/
def walk : State → List (State × State) → Option State
  | s, [] => some s
  | s, (source, target) :: edges =>
    if s = source ∧ target ∈ source.allowedNext then walk target edges else none

variable {target : State}

/-- A walk goes on by an allowed edge. -/
theorem walk_append {s u : State} {edges : List (State × State)} (h : walk s edges = some u)
    (hallowed : target ∈ u.allowedNext) : walk s (edges ++ [(u, target)]) = some target := by
  induction edges generalizing s with
  | nil =>
    cases h
    rw [nil_append, walk, if_pos ⟨rfl, hallowed⟩, walk]
  | cons edge edges ih =>
    rw [walk] at h
    split at h
    · next hedge =>
      rw [cons_append, walk, if_pos hedge]
      exact ih h
    · cases h

/-- How many transitions count as attempts. -/
def forwardCount (edges : List (State × State)) : ℕ :=
  edges.countP fun edge ↦ edge.2.isForward

/-- The steps that have been made in a state. -/
def State.done : State → List Step
  | .schemaCreated => [.createSchema]
  | .roleCreated => [.createSchema, .createRole]
  | .migrated => [.createSchema, .createRole, .migrate]
  | .seeded => [.createSchema, .createRole, .migrate, .seed]
  | .ready => [.createSchema, .createRole, .migrate, .seed]
  | _ => []

/-- A forward edge adds the step that its state runs. -/
theorem State.done_nextForward {state : State} {step : Step} (hstep : stepFor state = some step)
    (hnext : state.nextForward = some target) : target.done = state.done ++ [step] := by
  cases state <;> cases hstep <;> cases hnext <;> rfl

/-! ### The invariant -/

/-- What has happened to a job of the store. -/
structure Journal (history : List Event) (j : Job) : Prop where
  walked : walk .pending (trail history j.id) = some j.state
  attempts : j.attempts = forwardCount (trail history j.id)
  done : j.state.done.Sublist (returns history j.id)
  cleaned : j.state = .failed → .invoked .cleanup j.id ∈ history
  lastError : ∀ source e, .recorded j.id source .cleanup e ∈ history →
    j.state = .cleanup ∧ j.lastError = e ∨ j.state = .failed ∧ (e ≠ "" → j.lastError = e)

/-- An executor's copy of a job is of a job that is stored and has got as far. -/
structure Stored (s : System) (job : Job) : Prop where
  stored : ∃ j ∈ s.jobs, j.id = job.id ∧ j.tenantID = job.tenantID ∧
    (job.state = .cleanup → j.state = .cleanup ∨ j.state = .failed)
  done : job.state.done.Sublist (returns s.history job.id)

/-- The error of a copy in cleanup is that of the transition to cleanup. -/
def KeepsError (s : System) (job : Job) : Prop :=
  job.state = .cleanup → ∀ source e, .recorded job.id source .cleanup e ∈ s.history →
    job.lastError = e

/-- What is known where an executor stands. -/
inductive Held (s : System) : Pc → Prop
  | idle : Held s .idle
  | looping {job : Job} (stored : Stored s job) (keeps : KeepsError s job) : Held s (.looping job)
  | stepping {step : Step} {job : Job} (stored : Stored s job) (keeps : KeepsError s job)
      (invoked : job.state = .cleanup ∧ .invoked .cleanup job.id ∈ s.history ∨
        stepFor job.state = some step) : Held s (.stepping step job)
  | recording {job : Job} {target : State} {lastError : String} (stored : Stored s job)
      (done : target.done.Sublist (returns s.history job.id))
      (cleaned : target = .failed → job.state = .cleanup ∧ .invoked .cleanup job.id ∈ s.history ∧
        ∀ source e, .recorded job.id source .cleanup e ∈ s.history → e ≠ "" → lastError = e) :
      Held s (.recording job target lastError)

/-- What holds of jobs and of the executors' copies. -/
structure Inv (s : System) : Prop where
  ids : (s.jobs.map Job.id).Nodup
  active : ∀ j ∈ s.jobs, ∀ j' ∈ s.jobs, j.tenantID = j'.tenantID → ¬j.state.isTerminal →
    ¬j'.state.isTerminal → j = j'
  known : ∀ id source target e, .recorded id source target e ∈ s.history → ∃ j ∈ s.jobs, j.id = id
  journal : ∀ j ∈ s.jobs, Journal s.history j
  held : ∀ i, Held s (s.pcs i)

variable {vendor : Vendor} {s t : System} {l : Label}

/-! ### What lasts -/

/-- A later state: jobs stay, also in or after their cleanup, and a cleanup is entered only by jobs
that were not there yet. -/
structure Later (s t : System) : Prop where
  jobs : ∀ j ∈ s.jobs, ∃ j' ∈ t.jobs, j'.id = j.id ∧ j'.tenantID = j.tenantID ∧
    (j.state = .cleanup ∨ j.state = .failed → j'.state = .cleanup ∨ j'.state = .failed)
  history : ∃ events, t.history = events ++ s.history
  entered : ∀ id source e, .recorded id source .cleanup e ∈ t.history →
    .recorded id source .cleanup e ∈ s.history ∨
      ∀ j ∈ s.jobs, j.id = id → j.state ≠ .cleanup ∧ j.state ≠ .failed

theorem Later.mem_history (h : Later s t) {e : Event} (he : e ∈ s.history) : e ∈ t.history := by
  obtain ⟨events, heq⟩ := h.history
  rw [heq]
  exact mem_append_right _ he

/-- What a job has done stays done. -/
theorem Later.sublist_returns (h : Later s t) {steps : List Step}
    (hsteps : steps.Sublist (returns s.history id)) : steps.Sublist (returns t.history id) := by
  obtain ⟨events, heq⟩ := h.history
  rw [heq]
  exact sublist_returns_append hsteps events

variable {job : Job}

theorem Stored.later (hs : Stored s job) (h : Later s t) : Stored t job := by
  obtain ⟨j, hj, hid, htenant, hcleanup⟩ := hs.stored
  obtain ⟨j', hj', hid', htenant', hlater⟩ := h.jobs j hj
  exact ⟨⟨j', hj', hid'.trans hid, htenant'.trans htenant, fun hstate ↦ hlater (hcleanup hstate)⟩,
    h.sublist_returns hs.done⟩

/-- No cleanup is entered for a copy that is in it. -/
theorem Stored.entered (hs : Stored s job) (h : Later s t) (hstate : job.state = .cleanup)
    {source : State} {e : String} (he : .recorded job.id source .cleanup e ∈ t.history) :
    .recorded job.id source .cleanup e ∈ s.history := by
  rcases h.entered _ _ _ he with hold | hnew
  · exact hold
  · obtain ⟨j, hj, hid, -, hcleanup⟩ := hs.stored
    obtain ⟨hne, hne'⟩ := hnew j hj hid
    rcases hcleanup hstate with hj' | hj'
    · exact absurd hj' hne
    · exact absurd hj' hne'

/-- An entry of cleanup cannot be followed by another. -/
theorem KeepsError.later (hk : KeepsError s job) (hs : Stored s job) (h : Later s t) :
    KeepsError t job :=
  fun hstate _ _ he ↦ hk hstate _ _ (hs.entered h hstate he)

theorem Held.later {pc : Pc} (hpc : Held s pc) (h : Later s t) : Held t pc := by
  cases hpc with
  | idle => exact .idle
  | looping stored keeps => exact .looping (stored.later h) (keeps.later stored h)
  | stepping stored keeps invoked =>
    refine .stepping (stored.later h) (keeps.later stored h) ?_
    rcases invoked with ⟨hstate, hmem⟩ | hstep
    · exact .inl ⟨hstate, h.mem_history hmem⟩
    · exact .inr hstep
  | recording stored done cleaned =>
    refine .recording (stored.later h) (h.sublist_returns done) fun htarget ↦ ?_
    obtain ⟨hstate, hmem, herror⟩ := cleaned htarget
    exact ⟨hstate, h.mem_history hmem, fun source e he ↦ herror source e (stored.entered h hstate
      he)⟩

/-! ### Inserts -/

/-- A new row leaves the others as they are. -/
theorem later_insert : Later s { s with jobs := s.jobs ++ [job] } where
  jobs j hj := ⟨j, mem_append_left _ hj, rfl, rfl, id⟩
  history := ⟨[], rfl⟩
  entered _ _ _ he := .inl he

/-- An id that no job has, has no trail. -/
theorem trail_eq_nil (hs : Inv s) (h : ∀ j ∈ s.jobs, j.id ≠ id) : trail s.history id = [] := by
  rw [trail, filterMap_eq_nil_iff]
  intro e he
  cases e with
  | invoked step id' | returned step id' err => rfl
  | recorded id' source target e =>
    obtain ⟨j, hj, hid⟩ := hs.known id' source target e (mem_reverse.mp he)
    exact if_neg fun heq ↦ h j hj (hid.trans heq)

/-- A new job starts with an empty trail. -/
theorem Inv.insert (hs : Inv s) (hjob : Inserted s.jobs job) :
    Inv { s with jobs := s.jobs ++ [job] } := by
  refine
    { ids := hjob.nodup hs.ids
      active := ?_
      known := fun id source target e he ↦ ?_
      journal := ?_
      held := fun i ↦ (hs.held i).later later_insert }
  · intro j hj j' hj' htenant hactive hactive'
    rcases mem_append.mp hj with hold | hnew <;>
      rcases mem_append.mp hj' with hold' | hnew'
    · exact hs.active j hold j' hold' htenant hactive hactive'
    · obtain rfl := mem_singleton.mp hnew'
      exact absurd (hjob.free j hold htenant) hactive
    · obtain rfl := mem_singleton.mp hnew
      exact absurd (hjob.free j' hold' htenant.symm) hactive'
    · exact (mem_singleton.mp hnew).trans (mem_singleton.mp hnew').symm
  · obtain ⟨j, hj, hid⟩ := hs.known id source target e he
    exact ⟨j, mem_append_left _ hj, hid⟩
  · intro j hj
    rcases mem_append.mp hj with hj | hj
    · exact hs.journal j hj
    · obtain rfl := mem_singleton.mp hj
      have htrail := trail_eq_nil hs hjob.fresh
      refine ⟨?_, ?_, ?_, ?_, fun source e he ↦ ?_⟩
      · rw [htrail, hjob.state, walk]
      · rw [htrail, hjob.attempts]
        rfl
      · rw [hjob.state]
        exact nil_sublist _
      · intro hfailed
        rw [hjob.state] at hfailed
        cases hfailed
      · obtain ⟨j', hj', hid⟩ := hs.known _ _ _ _ he
        exact absurd hid (hjob.fresh j' hj')

/-! ### Acts that record no transition -/

theorem trail_append {events : List Event} (hevents : ∀ e ∈ events, e.edge? id = none)
    (history : List Event) : trail (events ++ history) id = trail history id := by
  induction events with
  | nil => rfl
  | cons e events ih =>
    rw [cons_append, trail_cons, hevents e mem_cons_self,
      ih fun e' he' ↦ hevents e' (mem_cons_of_mem _ he')]
    exact append_nil _

/-- Events that record no transition. -/
def Quiet (events : List Event) : Prop :=
  ∀ e ∈ events, ∀ id, e.edge? id = none

theorem Quiet.mem_history {events history : List Event} (h : Quiet events) {source : State}
    {e : String} (he : .recorded id source target e ∈ events ++ history) :
    .recorded id source target e ∈ history := by
  rcases mem_append.mp he with he | he
  · have := h _ he id
    rw [Event.edge?, if_pos rfl] at this
    cases this
  · exact he

variable {i : ℕ} {pc : Pc} {events : List Event}

/-- Events that are no transition change no job. -/
theorem later_quiet (i : ℕ) (pc : Pc) (hevents : Quiet events) :
    Later s (s.after i s.jobs pc events) where
  jobs j hj := ⟨j, hj, rfl, rfl, id⟩
  history := ⟨events, rfl⟩
  entered _ _ _ he := .inl (hevents.mem_history he)

theorem Journal.quiet {history : List Event} {j : Job} (h : Journal history j)
    (hevents : Quiet events) : Journal (events ++ history) j where
  walked := by
    rw [trail_append fun e he ↦ hevents e he j.id]
    exact h.walked
  attempts := by
    rw [trail_append fun e he ↦ hevents e he j.id]
    exact h.attempts
  done := sublist_returns_append h.done events
  cleaned hfailed := mem_append_right _ (h.cleaned hfailed)
  lastError source e he := h.lastError source e (hevents.mem_history he)

theorem held_update {pcs : ℕ → Pc} (hpcs : ∀ k, Held t (pcs k)) (hpc : Held t pc) (k : ℕ) :
    Held t (update pcs i pc k) := by
  by_cases hk : k = i
  · rw [hk, update_self]
    exact hpc
  · rw [update_of_ne hk]
    exact hpcs k

/-- A step that is no transition keeps the invariant. -/
theorem Inv.quiet (hs : Inv s) (hevents : Quiet events)
    (hpc : Held (s.after i s.jobs pc events) pc) : Inv (s.after i s.jobs pc events) where
  ids := hs.ids
  active := hs.active
  known id source target e he := hs.known id source target e (hevents.mem_history he)
  journal j hj := (hs.journal j hj).quiet hevents
  held := held_update (fun k ↦ (hs.held k).later (later_quiet i pc hevents)) hpc

/-! ### Transitions -/

section Record

variable {job : Job} {target : State} {lastError : String}

/-- A transition changes the rows of one id. -/
theorem mem_advance {jobs : Jobs} {metadata : Metadata} {j' : Job} :
    j' ∈ jobs.advance id target metadata lastError ↔ ∃ j ∈ jobs,
      j.id = id ∧ j' = j.advance target metadata lastError ∨ j.id ≠ id ∧ j' = j := by
  rw [Jobs.advance, mem_map]
  refine exists_congr fun j ↦ and_congr_right fun _ ↦ ?_
  by_cases hid : j.id = id
  · simp [hid, eq_comm]
  · simp [hid, eq_comm]

/-- What the store and the executor agree on when a transition takes effect. -/
structure Agrees (s : System) (job : Job) (target : State) (j : Job) : Prop where
  ids : (s.jobs.map Job.id).Nodup
  mem : j ∈ s.jobs
  id : j.id = job.id
  state : j.state = job.state
  allowed : target ∈ job.state.allowedNext

variable {j : Job}

/-- The job that a transition moves is the only one of its id. -/
theorem Agrees.eq (h : Agrees s job target j) {j' : Job} (hj' : j' ∈ s.jobs)
    (hid : j'.id = job.id) : j' = j :=
  Jobs.eq_of_id h.ids hj' h.mem (hid.trans h.id.symm)

/-- The state after the transition. -/
def recordState (s : System) (i : ℕ) (job : Job) (target : State) (lastError : String) (pc : Pc) :
    System :=
  s.after i (s.jobs.advance job.id target job.metadata lastError) pc
    [.recorded job.id job.state target lastError]

theorem later_record (h : Agrees s job target j) :
    Later s (recordState s i job target lastError pc) where
  jobs := by
    intro j' hj'
    by_cases hid : j'.id = job.id
    · obtain rfl := h.eq hj' hid
      refine ⟨_, mem_advance.mpr ⟨j', hj', .inl ⟨hid, rfl⟩⟩, rfl, rfl, fun hstate ↦ ?_⟩
      -- From cleanup a job fails; from failure it goes nowhere.
      have hallowed := h.state ▸ h.allowed
      rcases hstate with hstate | hstate
      · exact .inr ((eq_cleanup_iff_of_allowed hallowed).mp hstate)
      · rw [hstate] at hallowed
        cases hallowed
    · exact ⟨j', mem_advance.mpr ⟨j', hj', .inr ⟨hid, rfl⟩⟩, rfl, rfl, id⟩
  history := ⟨_, rfl⟩
  entered := by
    intro id source e he
    rcases mem_cons.mp he with hnew | hold
    · right
      obtain ⟨rfl, -, htarget, -⟩ := Event.recorded.inj hnew
      intro j' hj' hid
      obtain rfl := h.eq hj' hid
      have hallowed := h.state ▸ h.allowed
      rw [← htarget] at hallowed
      constructor
      · intro hstate
        have := (eq_cleanup_iff_of_allowed hallowed).mp hstate
        cases this
      · intro hstate
        rw [hstate] at hallowed
        cases hallowed
    · exact .inl hold

/-- The journal of a job that the transition is not about. -/
theorem Journal.other {j' : Job} (hj : Journal s.history j') (hid : j'.id ≠ job.id) :
    Journal (.recorded job.id job.state target lastError :: s.history) j' := by
  have hedge : (Event.recorded job.id job.state target lastError).edge? j'.id = none :=
    if_neg (Ne.symm hid)
  have htrail : trail (.recorded job.id job.state target lastError :: s.history) j'.id =
      trail s.history j'.id := by
    rw [trail_cons, hedge]
    exact append_nil _
  refine
    { walked := htrail ▸ hj.walked
      attempts := htrail ▸ hj.attempts
      done := sublist_returns_append hj.done [_]
      cleaned := fun hfailed ↦ mem_cons_of_mem _ (hj.cleaned hfailed)
      lastError := fun source e he ↦ ?_ }
  rcases mem_cons.mp he with hnew | hold
  · exact absurd (Event.recorded.inj hnew).1 hid
  · exact hj.lastError source e hold

/-- The journal of the job that makes the transition. -/
theorem Journal.record (hj : Journal s.history j) (h : Agrees s job target j)
    (hdone : target.done.Sublist (returns s.history job.id))
    (hcleaned : target = .failed → job.state = .cleanup ∧ .invoked .cleanup job.id ∈ s.history ∧
      ∀ source e, .recorded job.id source .cleanup e ∈ s.history → e ≠ "" → lastError = e) :
    Journal (.recorded job.id job.state target lastError :: s.history)
      (j.advance target job.metadata lastError) := by
  have hallowed : target ∈ j.state.allowedNext := h.state ▸ h.allowed
  have hedge : (Event.recorded job.id job.state target lastError).edge? j.id =
      some (j.state, target) := by
    rw [Event.edge?, if_pos h.id.symm, h.state]
  have htrail : trail (.recorded job.id job.state target lastError :: s.history) j.id =
      trail s.history j.id ++ [(j.state, target)] := by
    rw [trail_cons, hedge]
    rfl
  have hid : (j.advance target job.metadata lastError).id = j.id := rfl
  refine ⟨?_, ?_, ?_, ?_, ?_⟩
  · rw [hid, htrail]
    exact walk_append hj.walked hallowed
  · rw [hid, htrail, forwardCount, countP_append, countP_singleton, ← forwardCount,
      ← hj.attempts, Job.advance]
    split
    · rfl
    · rfl
  · rw [hid, h.id]
    exact sublist_returns_append hdone [_]
  · intro htarget
    obtain ⟨-, hmem, -⟩ := hcleaned htarget
    rw [hid, h.id]
    exact mem_cons_of_mem _ hmem
  · intro source e he
    rw [hid, h.id] at he
    rcases mem_cons.mp he with hnew | hold
    · obtain ⟨-, -, htarget, herror⟩ := Event.recorded.inj hnew
      exact .inl ⟨htarget.symm, herror.symm⟩
    · -- The cleanup was entered before, so that the job fails now.
      rw [← h.id] at hold
      have hstate : j.state = .cleanup := by
        rcases hj.lastError source e hold with ⟨hstate, -⟩ | ⟨hstate, -⟩
        · exact hstate
        · rw [hstate] at hallowed
          cases hallowed
      have htarget := (eq_cleanup_iff_of_allowed hallowed).mp hstate
      obtain ⟨-, -, herror⟩ := hcleaned htarget
      rw [h.id] at hold
      exact .inr ⟨htarget, herror source e hold⟩

/-- A transition keeps the invariant, given what the step before it returned. -/
theorem Inv.record (hs : Inv s) (h : Agrees s job target j)
    (hdone : target.done.Sublist (returns s.history job.id))
    (hcleaned : target = .failed → job.state = .cleanup ∧ .invoked .cleanup job.id ∈ s.history ∧
      ∀ source e, .recorded job.id source .cleanup e ∈ s.history → e ≠ "" → lastError = e)
    (hpc : Held (recordState s i job target lastError pc) pc) :
    Inv (recordState s i job target lastError pc) where
  ids := by
    rw [recordState, System.after, map_id_advance]
    exact hs.ids
  active := by
    -- A job of the store before, with the same tenant and finished if that one was.
    have hback : ∀ j' ∈ s.jobs.advance job.id target job.metadata lastError,
        ¬j'.state.isTerminal → ∃ j₀ ∈ s.jobs, j₀.tenantID = j'.tenantID ∧
          ¬j₀.state.isTerminal ∧ (j₀.id = job.id ∧ j' = j₀.advance target job.metadata lastError ∨
            j₀.id ≠ job.id ∧ j' = j₀) := by
      intro j' hj' hactive
      obtain ⟨j₀, hj₀, hcase⟩ := mem_advance.mp hj'
      refine ⟨j₀, hj₀, ?_, ?_, hcase⟩
      · rcases hcase with ⟨-, rfl⟩ | ⟨-, rfl⟩
        · rfl
        · rfl
      · rcases hcase with ⟨hid, -⟩ | ⟨-, rfl⟩
        · rw [h.eq hj₀ hid, h.state]
          exact not_isTerminal_of_allowed h.allowed
        · exact hactive
    intro j₁ hj₁ j₂ hj₂ htenant hactive₁ hactive₂
    obtain ⟨k₁, hk₁, ht₁, ha₁, hcase₁⟩ := hback j₁ hj₁ hactive₁
    obtain ⟨k₂, hk₂, ht₂, ha₂, hcase₂⟩ := hback j₂ hj₂ hactive₂
    obtain rfl := hs.active k₁ hk₁ k₂ hk₂ (ht₁.trans (htenant.trans ht₂.symm)) ha₁ ha₂
    rcases hcase₁ with ⟨hid, rfl⟩ | ⟨hid, rfl⟩
    · rcases hcase₂ with ⟨-, rfl⟩ | ⟨hid', -⟩
      · rfl
      · exact absurd hid hid'
    · rcases hcase₂ with ⟨hid', -⟩ | ⟨-, rfl⟩
      · exact absurd hid' hid
      · rfl
  known := by
    intro id source target' e he
    obtain ⟨j₀, hj₀, hid⟩ : ∃ j₀ ∈ s.jobs, j₀.id = id := by
      rcases mem_cons.mp he with hnew | hold
      · exact ⟨j, h.mem, h.id.trans (Event.recorded.inj hnew).1.symm⟩
      · exact hs.known id source target' e hold
    obtain ⟨j', hj', hid', -⟩ := (later_record h).jobs j₀ hj₀
    exact ⟨j', hj', hid'.trans hid⟩
  journal := by
    intro j' hj'
    obtain ⟨j₀, hj₀, ⟨hid, rfl⟩ | ⟨hid, rfl⟩⟩ := mem_advance.mp hj'
    · obtain rfl := h.eq hj₀ hid
      exact (hs.journal j₀ hj₀).record h hdone hcleaned
    · exact (hs.journal j' hj₀).other hid
  held := held_update (fun k ↦ (hs.held k).later (later_record h)) hpc

end Record

/-! ### Acts -/

theorem Stored.congr {job' : Job} (h : Stored s job) (hid : job'.id = job.id)
    (htenant : job'.tenantID = job.tenantID) (hstate : job'.state = job.state) : Stored s job' := by
  obtain ⟨hstored, hdone⟩ := h
  rw [← hid, ← htenant, ← hstate] at hstored
  rw [← hid, ← hstate] at hdone
  exact ⟨hstored, hdone⟩

/-- A job as loaded is a copy of the stored one. -/
theorem held_load (hs : Inv s) (hjob : job ∈ s.jobs) : Held s (.looping job) := by
  have hj := hs.journal job hjob
  refine .looping ⟨⟨job, hjob, rfl, rfl, .inl⟩, hj.done⟩ fun hstate source e he ↦ ?_
  rcases hj.lastError source e he with ⟨-, herror⟩ | ⟨hfailed, -⟩
  · exact herror
  · rw [hstate] at hfailed
    cases hfailed

/-- After a step, the executor knows what it needs for the transition. -/
theorem held_reply {step : Step} (h : Held s (.stepping step job)) (err : Option String)
    (metadata : Metadata) :
    Held (s.after i s.jobs pc [.returned step job.id err])
      (afterStep { job with metadata := metadata } err) := by
  have hquiet : Quiet [.returned step job.id err] := by
    intro e he id
    rw [mem_singleton.mp he]
    rfl
  cases h.later (later_quiet i pc hquiet) with
  | stepping stored keeps invoked =>
    have hstored : ∀ lastError, Stored (s.after i s.jobs pc [.returned step job.id err])
        { job with metadata := metadata, lastError := lastError } := fun _ ↦
      stored.congr rfl rfl rfl
    rw [afterStep]
    split
    · next hstate =>
      obtain hmem : .invoked .cleanup job.id ∈ (s.after i s.jobs pc _).history := by
        rcases invoked with ⟨-, hmem⟩ | hstep
        · exact hmem
        · rw [show job.state = .cleanup from hstate] at hstep
          cases hstep
      cases err with
      | none =>
        exact .recording (hstored _) (nil_sublist _)
          fun _ ↦ ⟨hstate, hmem, fun source e he _ ↦ keeps hstate source e he⟩
      | some err =>
        rw [runCleanup]
        split
        · -- There is no error yet, so that none was recorded.
          next hnone =>
          refine .recording (hstored _) (nil_sublist _)
            fun _ ↦ ⟨hstate, hmem, fun source e he hne ↦ ?_⟩
          exact absurd ((keeps hstate source e he).symm.trans hnone) hne
        · exact .recording (hstored _) (nil_sublist _)
            fun _ ↦ ⟨hstate, hmem, fun source e he _ ↦ keeps hstate source e he⟩
    · next hstate =>
      cases err with
      | some err => exact .recording (hstored _) (nil_sublist _) nofun
      | none =>
        rw [runForwardStep]
        split
        · next target hnext =>
          refine .recording (hstored _) ?_ fun h ↦ absurd h (isForward_of_nextForward hnext).2
          have hstep : stepFor job.state = some step := by
            rcases invoked with ⟨hcleanup, -⟩ | hstep
            · exact absurd hcleanup hstate
            · exact hstep
          have hdone : job.state.done.Sublist (returns s.history job.id) := by
            cases h with
            | stepping stored _ _ => exact stored.done
          have hreturns : returns (.returned step job.id none :: s.history) job.id =
              returns s.history job.id ++ [step] := by
            rw [returns_cons, Event.done?, if_pos rfl]
            rfl
          rw [done_nextForward hstep hnext]
          exact hreturns ▸ hdone.append_right [step]
        · exact .idle

/-- After its transition the executor's copy is the stored job again. -/
theorem held_record {lastError : String} {j : Job} (hs : Inv s) (h : Agrees s job target j)
    (hdone : target.done.Sublist (returns s.history job.id)) (htenant : j.tenantID = job.tenantID) :
    Held (recordState s i job target lastError pc)
      (.looping { job with state := target, lastError := lastError }) := by
  have hmem : j.advance target job.metadata lastError ∈
      s.jobs.advance job.id target job.metadata lastError :=
    mem_advance.mpr ⟨j, h.mem, .inl ⟨h.id, rfl⟩⟩
  refine .looping ⟨⟨_, hmem, h.id, htenant, fun htarget ↦ .inl htarget⟩,
    (later_record h).sublist_returns hdone⟩ fun htarget source e he ↦ ?_
  rcases mem_cons.mp he with hnew | hold
  · exact (Event.recorded.inj hnew).2.2.2.symm
  · -- A cleanup is entered once.
    have hallowed : target ∈ j.state.allowedNext := h.state ▸ h.allowed
    have htarget : target = .cleanup := htarget
    have hjournal := (hs.journal j h.mem).lastError source e (h.id ▸ hold)
    rcases hjournal with ⟨hstate, -⟩ | ⟨hstate, -⟩
    · rw [hstate, htarget] at hallowed
      exact absurd hallowed (by decide)
    · rw [hstate] at hallowed
      cases hallowed

/-- Every step of an executor keeps the invariant. -/
theorem Inv.act (hs : Inv s) {jobs : Jobs} (hact : Act s i l jobs pc events) :
    Inv (s.after i jobs pc events) := by
  have hi := hs.held i
  have hinvoked : ∀ (step : Step) (id : String), Quiet [.invoked step id] := by
    intro step id e he id'
    rw [mem_singleton.mp he]
    rfl
  have hnone : Quiet [] := nofun
  cases hact with
  | stop => exact hs.quiet hnone .idle
  | load hjob => exact hs.quiet hnone ((held_load hs hjob).later (later_quiet i _ hnone))
  | @acknowledge _ job hpc hstate =>
    rw [hpc] at hi
    cases hi.later (later_quiet i (.recording job .ready "") hnone) with
    | looping stored keeps =>
      refine hs.quiet hnone (.recording stored ?_ nofun)
      have hdone := stored.done
      rw [hstate] at hdone
      exact hdone
  | @cleanup _ job hpc hstate =>
    rw [hpc] at hi
    cases hi.later (later_quiet i (.stepping .cleanup job) (hinvoked .cleanup job.id)) with
    | looping stored keeps =>
      exact hs.quiet (hinvoked _ _) (.stepping stored keeps (.inl ⟨hstate, mem_cons_self⟩))
  | @forward _ job step hpc hstep =>
    rw [hpc] at hi
    cases hi.later (later_quiet i (.stepping step job) (hinvoked step job.id)) with
    | looping stored keeps =>
      exact hs.quiet (hinvoked _ _) (.stepping stored keeps (.inr hstep))
  | reply hpc err metadata =>
    rw [hpc] at hi
    refine hs.quiet (fun e he id ↦ ?_) (held_reply hi err metadata)
    rw [mem_singleton.mp he]
    rfl
  | record hpc hw hallowed hstored hnext =>
    rw [hpc] at hi
    cases hi with
    | recording stored done cleaned =>
      obtain ⟨j, hj, hid, hstate⟩ := hstored
      have hagrees : Agrees s _ _ j := ⟨hs.ids, hj, hid, hstate, hallowed⟩
      obtain ⟨j', hj', hid', htenant, -⟩ := stored.stored
      rw [hagrees.eq hj' hid'] at htenant
      refine hs.record hagrees done cleaned ?_
      rcases hnext with rfl | rfl
      · exact .idle
      · exact held_record hs hagrees done htenant

/-- The invariant holds along every run. -/
theorem inv_of_reachable (hs : (system vendor).Reachable s) : Inv s := by
  refine hs.invariant ?_ ?_
  · rintro s rfl
    exact
      { ids := nodup_nil
        active := nofun
        known := nofun
        journal := nofun
        held := fun _ ↦ .idle }
  · intro s l t _ _ hs hstep
    rcases step_cases hs.ids hstep with rfl | ⟨job, hjob, rfl⟩ | ⟨i, jobs, pc, events, hact, rfl⟩
    · exact hs
    · exact hs.insert hjob
    · exact hs.act hact

/-! ### The life of a job -/

/-- What holds of the jobs of a store. -/
structure Lifecycle (s : System) : Prop where
  /-- The states of a job are a walk in the graph. -/
  walked : ∀ j ∈ s.jobs, walk .pending (trail s.history j.id) = some j.state
  attempts : ∀ j ∈ s.jobs, j.attempts = forwardCount (trail s.history j.id)
  /-- A job that is ready has made its steps in order. -/
  ready : ∀ j ∈ s.jobs, j.state = .ready →
    [Step.createSchema, .createRole, .migrate, .seed].Sublist (returns s.history j.id)
  /-- A job that has failed has gone through its cleanup. -/
  failed : ∀ j ∈ s.jobs, j.state = .failed →
    (State.cleanup, State.failed) ∈ trail s.history j.id ∧ .invoked .cleanup j.id ∈ s.history
  /-- At most one job of a tenant is not finished. -/
  active : ∀ j ∈ s.jobs, ∀ j' ∈ s.jobs, j.tenantID = j'.tenantID → ¬j.state.isTerminal →
    ¬j'.state.isTerminal → j = j'
  /-- The error that led to the cleanup is still there. -/
  lastError : ∀ j ∈ s.jobs, j.state = .failed → ∀ source e,
    .recorded j.id source .cleanup e ∈ s.history → e ≠ "" → j.lastError = e

/-- Jobs stay, they move along the graph if at all, and do not change once they are finished; new
ones are pending. -/
structure Follows (jobs jobs' : Jobs) : Prop where
  stays : ∀ j ∈ jobs, ∃ j' ∈ jobs', j'.id = j.id ∧ j'.tenantID = j.tenantID ∧
    (j'.state = j.state ∨ j'.state ∈ j.state.allowedNext) ∧ (j.state.isTerminal → j' = j)
  starts : ∀ j' ∈ jobs', (∃ j ∈ jobs, j.id = j'.id) ∨ j'.state = .pending

theorem Follows.refl (jobs : Jobs) : Follows jobs jobs :=
  ⟨fun j hj ↦ ⟨j, hj, rfl, rfl, .inl rfl, fun _ ↦ rfl⟩, fun j hj ↦ .inl ⟨j, hj, rfl⟩⟩

/-- A transition follows an edge of the graph. -/
theorem follows_advance {lastError : String} (hs : Inv s)
    (hallowed : target ∈ job.state.allowedNext)
    (hstored : ∃ j ∈ s.jobs, j.id = job.id ∧ j.state = job.state) :
    Follows s.jobs (s.jobs.advance job.id target job.metadata lastError) := by
  obtain ⟨j₀, hj₀, hid₀, hstate₀⟩ := hstored
  constructor
  · intro j hj
    by_cases hid : j.id = job.id
    · obtain rfl := Jobs.eq_of_id hs.ids hj hj₀ (hid.trans hid₀.symm)
      have hallowed : target ∈ j.state.allowedNext := hstate₀ ▸ hallowed
      exact ⟨_, mem_advance.mpr ⟨j, hj, .inl ⟨hid, rfl⟩⟩, rfl, rfl, .inr hallowed,
        fun h ↦ absurd h (not_isTerminal_of_allowed hallowed)⟩
    · exact ⟨j, mem_advance.mpr ⟨j, hj, .inr ⟨hid, rfl⟩⟩, rfl, rfl, .inl rfl, fun _ ↦ rfl⟩
  · intro j' hj'
    obtain ⟨j, hj, ⟨-, rfl⟩ | ⟨-, rfl⟩⟩ := mem_advance.mp hj'
    · exact .inl ⟨j, hj, rfl⟩
    · exact .inl ⟨j', hj, rfl⟩

/-- Every step of the system moves every job along an edge, if at all. -/
theorem follows_of_step (hs : Inv s) (h : s.step vendor l = some t) : Follows s.jobs t.jobs := by
  rcases step_cases hs.ids h with rfl | ⟨job, hjob, rfl⟩ | ⟨i, jobs, pc, events, hact, rfl⟩
  · exact .refl _
  · refine ⟨fun j hj ↦ ⟨j, mem_append_left _ hj, rfl, rfl, .inl rfl, fun _ ↦ rfl⟩,
      fun j' hj' ↦ ?_⟩
    rcases mem_append.mp hj' with hold | hnew
    · exact .inl ⟨j', hold, rfl⟩
    · rw [mem_singleton.mp hnew]
      exact .inr hjob.state
  · cases hact with
    | record hpc hw hallowed hstored hnext => exact follows_advance hs hallowed hstored
    | stop | load | acknowledge | cleanup | forward | reply => exact .refl _

/-- A walk that ends in failure does so from the cleanup. -/
theorem mem_of_walk_failed {s : State} {edges : List (State × State)}
    (h : walk s edges = some .failed) (hs : s ≠ .failed) :
    (State.cleanup, State.failed) ∈ edges := by
  induction edges generalizing s with
  | nil => exact absurd (Option.some.inj h) hs
  | cons edge edges ih =>
    obtain ⟨source, target⟩ := edge
    rw [walk] at h
    split at h
    · next hedge =>
      by_cases htarget : target = .failed
      · rw [(eq_cleanup_iff_of_allowed hedge.2).mpr htarget, htarget]
        exact mem_cons_self
      · exact mem_cons_of_mem _ (ih h htarget)
    · cases h

/-- What the invariant says of the jobs, without the executors. -/
theorem Inv.toLifecycle (hs : Inv s) : Lifecycle s where
  walked j hj := (hs.journal j hj).walked
  attempts j hj := (hs.journal j hj).attempts
  ready j hj hready := by
    have hdone := (hs.journal j hj).done
    rw [hready] at hdone
    exact hdone
  failed j hj hfailed := by
    have hwalk := (hs.journal j hj).walked
    rw [hfailed] at hwalk
    exact ⟨mem_of_walk_failed hwalk (by decide), (hs.journal j hj).cleaned hfailed⟩
  active := hs.active
  lastError j hj hfailed source e he hne := by
    rcases (hs.journal j hj).lastError source e he with ⟨hcleanup, -⟩ | ⟨-, herror⟩
    · rw [hfailed] at hcleanup
      cases hcleanup
    · exact herror hne

/-- **The life of a job**, in every state that executors reach and at every step they make. -/
theorem lifecycle (hs : (system vendor).Reachable s) :
    Lifecycle s ∧ ∀ l t, (system vendor).step s l = some t → Follows s.jobs t.jobs :=
  ⟨(inv_of_reachable hs).toLifecycle, fun _ _ h ↦ follows_of_step (inv_of_reachable hs) h⟩

/-- Two executors on one job, one of which fails at its first step while the other has made it. -/
theorem lifecycle_failed : ∃ s, (system .postgreSQL).Reachable s ∧
    (∃ j ∈ s.jobs, j.state = .failed ∧ j.lastError = "no schema") ∧ Lifecycle s := by
  have hrun : (system .postgreSQL).run {}
      [.upsert (some ⟨"j", "t", .pending, 0, "", none⟩) .done, .load 0 "j" true, .load 1 "j" true,
        .loop 0 .proceed, .loop 1 .proceed, .reply 0 (some "no schema") none, .reply 1 none none,
        .record 0 .done, .record 1 .done, .loop 0 .quiesced, .reply 0 (some "no role") none,
        .record 0 .unconfirmed] = some _ := rfl
  have hs := StepSystem.reach_of_run (.init rfl) hrun
  exact ⟨_, hs, ⟨_, mem_cons_self, rfl, rfl⟩, (lifecycle hs).1⟩

/-! ### Resumption -/

variable {j : Job}

/-- A transition from the state that the store has succeeds. -/
theorem transition_of_get (vendor : Vendor) {jobs : Jobs} (hget : jobs.get id = some j)
    (htarget : target ∈ j.state.allowedNext) (metadata : Metadata)
    (lastError : String) :
    ∃ jobs' j', vendor.transition jobs id j.state target metadata lastError = .ok jobs' ∧
      jobs'.get id = some j' ∧ j'.state = target := by
  obtain ⟨hmem, hid⟩ := Jobs.mem_of_get hget
  have hmap (p : Job → Bool) (hp : p j = true) : Jobs.get (jobs.map fun j' ↦
      if p j' then j'.advance target metadata lastError else j') id =
        some (j.advance target metadata lastError) := by
    have hfind : jobs.find? (·.id == id) = some j := hget
    have hid : ((·.id == id) ∘ fun j' ↦ if p j' then j'.advance target metadata lastError else j') =
        (·.id == id) := by
      funext j'
      simp [apply_ite Job.id, Job.advance]
    rw [Jobs.get, List.find?_map, hid, hfind, Option.map_some, if_pos hp]
  cases vendor with
  | memory =>
    refine ⟨_, _, ?_, hmap (·.id == id) (by simp [hid]), rfl⟩
    simp [Vendor.transition, MemoryStore.transition, validateTransition, htarget, hget, bind,
      Except.bind]
  | postgreSQL =>
    let p (j' : Job) := j'.id == id && j'.state == j.state
    have hp : p j = true := by simp [p, hid]
    refine ⟨_, _, ?_, hmap p hp, rfl⟩
    have hne : jobs.countP p ≠ 0 := Nat.ne_of_gt (List.countP_pos_iff.2 ⟨j, hmem, hp⟩)
    simp [Vendor.transition, PostgresStore.transition, validateTransition, htarget, hne, bind,
      Except.bind, p]

/-- The steps of an executor while nothing goes wrong. -/
def smooth (i : ℕ) (metadata : Metadata) : List Label :=
  [.loop i .proceed, .reply i none metadata, .record i .done]

/-- The executor is in its loop with a copy of the job in the state that the store has it in. -/
def Current (s : System) (i : ℕ) (id : String) (state : State) : Prop :=
  ∃ job j, s.pcs i = .looping job ∧ job.id = id ∧ s.jobs.get id = some j ∧ j.state = state ∧
    job.state = state

/-- A smooth run of the executor brings the job to the state. -/
def Reaches (vendor : Vendor) (metadata : Metadata) (i : ℕ) (id : String) (target : State)
    (s : System) : Prop :=
  ∃ ls ⊆ smooth i metadata, ∃ t, (system vendor).run s ls = some t ∧ Current t i id target

variable {metadata : Metadata} {state mid : State}

/-- Runs follow each other. -/
theorem Reaches.trans (h : Reaches vendor metadata i id mid s)
    (hmid : ∀ t, Current t i id mid → Reaches vendor metadata i id target t) :
    Reaches vendor metadata i id target s := by
  obtain ⟨ls, hls, t, hrun, ht⟩ := h
  obtain ⟨ls', hls', u, hrun', hu⟩ := hmid t ht
  exact ⟨ls ++ ls', List.append_subset.2 ⟨hls, hls'⟩, u, (StepSystem.run_append hrun _).trans hrun',
    hu⟩

/-- The state that a job is in after the one it is in, if nothing goes wrong. -/
def State.Leads (state target : State) : Prop :=
  some target = state.nextForward ∨ state = .cleanup ∧ target = .failed

/-- What a state leads to is an edge of the graph. -/
theorem State.Leads.allowed (h : state.Leads target) : target ∈ state.allowedNext := by
  rcases h with h | ⟨rfl, rfl⟩
  · cases state <;> cases h <;> decide
  · decide

/-- The top of the loop: a seeded job is acknowledged, and for any other a step executes. -/
theorem loop_proceeds (hpc : s.pcs i = .looping job) (h : job.state.Leads target) :
    job.state = .seeded ∧ s.loop i .proceed = some (s.goto i (.recording job .ready "")) ∨
      ∃ step, s.loop i .proceed = some (s.invoke i step job) := by
  simp only [System.loop, hpc]
  cases hstate : job.state with
  | pending | schemaCreated | roleCreated | migrated | cleanup => exact .inr ⟨_, rfl⟩
  | seeded => exact .inl ⟨rfl, rfl⟩
  | ready | failed => simp [hstate, State.Leads, State.nextForward] at h

/-- A step that returns without an error is followed by the transition. -/
theorem afterStep_none (h : job.state.Leads target) :
    ∃ lastError, afterStep job none = .recording job target lastError := by
  rcases h with hnext | ⟨hcleanup, rfl⟩
  · have hne : job.state ≠ .cleanup := fun hcleanup ↦ by
      rw [hcleanup] at hnext
      cases hnext
    exact ⟨"", by rw [afterStep, if_neg hne, runForwardStep, ← hnext]⟩
  · exact ⟨job.lastError, by rw [afterStep, if_pos hcleanup, runCleanup]⟩

variable (vendor) in
/-- A transition of an executor whose copy is in the state that the store has the job in. -/
theorem record_done {lastError : String} (hpc : s.pcs i = .recording job target lastError)
    (hget : s.jobs.get job.id = some j) (hstate : j.state = job.state)
    (hallowed : target ∈ job.state.allowedNext) :
    ∃ t, s.record vendor i .done = some t ∧ Current t i job.id target := by
  obtain ⟨jobs', j', hok, hget', hstate'⟩ :=
    transition_of_get vendor hget (hstate ▸ hallowed) job.metadata lastError
  rw [hstate] at hok
  rw [System.record, hpc]
  simp only [hok]
  exact ⟨_, rfl, _, j', update_self .., rfl, hget', hstate', rfl⟩

/-- A round of `Run`. -/
theorem Current.round (h : Current s i id state) (htarget : state.Leads target) :
    Reaches vendor metadata i id target s := by
  obtain ⟨job, j, hpc, rfl, hget, hj, rfl⟩ := h
  rcases loop_proceeds hpc htarget with ⟨hseeded, hloop⟩ | ⟨step, hloop⟩
  · obtain rfl : target = .ready := by
      rw [hseeded] at htarget
      rcases htarget with h | ⟨h, -⟩ <;> cases h
      rfl
    obtain ⟨t, hrecord, ht⟩ := record_done (s := s.goto i (.recording job .ready "")) vendor
      (update_self ..) hget hj htarget.allowed
    exact ⟨[.loop i .proceed, .record i .done], by simp [smooth], t,
      Option.bind_eq_some_iff.2 ⟨_, hloop, Option.bind_eq_some_iff.2 ⟨t, hrecord, rfl⟩⟩, ht⟩
  · obtain ⟨lastError, hafter⟩ := @afterStep_none _ { job with metadata := metadata } htarget
    set u := ((s.invoke i step job).log (.returned step job.id none)).goto i
      (.recording { job with metadata := metadata } target lastError)
    have hreply : (s.invoke i step job).reply i none metadata = some u := by
      rw [System.reply, show (s.invoke i step job).pcs i = .stepping step job from update_self ..]
      simp only [hafter]
      rfl
    obtain ⟨t, hrecord, ht⟩ :=
      record_done (s := u) vendor (update_self ..) hget hj htarget.allowed
    exact ⟨smooth i metadata, List.Subset.refl _, t, Option.bind_eq_some_iff.2 ⟨_, hloop,
      Option.bind_eq_some_iff.2 ⟨u, hreply, Option.bind_eq_some_iff.2 ⟨t, hrecord, rfl⟩⟩⟩, ht⟩

/-- An executor that nothing stops brings its job to a terminal state. -/
theorem Current.finishes (h : Current s i id state) (hactive : ¬state.isTerminal) :
    Reaches vendor metadata i id (if state = .cleanup then .failed else .ready) s := by
  -- A state finishes because the one after it does.
  have next {a b : State} (hab : some b = a.nextForward)
      (hb : ∀ t, Current t i id b → Reaches vendor metadata i id .ready t) (t : System)
      (h : Current t i id a) : Reaches vendor metadata i id .ready t :=
    (h.round (.inl hab)).trans hb
  have migrated := next (a := .migrated) rfl fun _ h ↦ h.round (.inl rfl)
  have roleCreated := next (a := .roleCreated) rfl migrated
  have schemaCreated := next (a := .schemaCreated) rfl roleCreated
  cases state with
  | ready | failed => exact absurd rfl hactive
  | cleanup => exact h.round (.inr ⟨rfl, rfl⟩)
  | seeded => exact h.round (.inl rfl)
  | migrated => exact migrated s h
  | roleCreated => exact roleCreated s h
  | schemaCreated => exact schemaCreated s h
  | pending => exact next rfl schemaCreated s h

/-- **A job can always be resumed.** Whatever executors have done so far and wherever they died, the
`Run` of an idle executor finishes a job that is not finished if nothing goes wrong on the way: it
gets ready, or fails if it was in cleanup. -/
theorem resumed_run_finishes (vendor : Vendor) (metadata : Metadata) (hi : s.pcs i = .idle)
    (hget : s.jobs.get id = some j) (hactive : ¬j.state.isTerminal) :
    ∃ ls ⊆ smooth i metadata, ∃ t j', (system vendor).run s (.load i id true :: ls) = some t ∧
      t.jobs.get id = some j' ∧ j'.state = if j.state = .cleanup then .failed else .ready := by
  have hload : s.step vendor (.load i id true) = some (s.goto i (.looping j)) := by
    simp [System.step, System.load, hi, hget]
  have hcurrent : Current (s.goto i (.looping j)) i id j.state :=
    ⟨j, j, update_self .., (Jobs.mem_of_get hget).2, hget, rfl, rfl⟩
  obtain ⟨ls, hls, t, hrun, -, j', -, -, hget', hstate', -⟩ := hcurrent.finishes hactive
  exact ⟨ls, hls, t, j', Option.bind_eq_some_iff.2 ⟨_, hload, hrun⟩, hget', hstate'⟩

/-- A job that was left in `migrated` is resumed. -/
theorem resumed_run_finishes_migrated :
    let s : System := { jobs := [⟨"job", "tenant", .migrated, 3, "", none⟩] }
    ∃ ls t j', (system .memory).run s (.load 0 "job" true :: ls) = some t ∧
      t.jobs.get "job" = some j' ∧ j'.state = .ready := by
  intro s
  obtain ⟨ls, -, h⟩ := @resumed_run_finishes "job" s 0 _ .memory none rfl rfl (by decide)
  exact ⟨ls, h⟩

end Provisioning
