import GoBricks.Streams.Publisher

/-!
# Waiters of a stream publisher

What one step can do (`Act`), and what the waiters guarantee:

* a waiter gets at most one result, and `Publish` returns nil only on a positive confirmation;
* the routing key of a message is found from its registration until its send resolves or a close
  sweeps it (`Standing`), whatever became of the caller;
* where the publisher is not reopened while a call that loaded an earlier handle is still
  registering (`Orderly`), no call is left waiting on a handle that was closed.

`registerSend` reads `closed` after it has added the waiter, so that a call the sweep missed
resolves itself. That does not hold across a `bind`, which clears the flag:
`waits_on_closed_handle`.
-/

namespace Streams.Publisher

open List Function Option Bool

/-! ### What a step can do -/

/-- How a call moves when nothing else changes. -/
inductive Moves (s : State) : Pc → Pc → Prop
  | nil : Moves s .idle (.ended (some .nilMessage))
  | closed : Moves s .opening (.ended (some .publisherClosed))
  | opened : Moves s .opening .loading
  | loaded {handle : ℕ} (hbound : s.bound = some handle) : Moves s .loading (.validating handle)
  | unbound : Moves s .loading .explaining
  | explained {err : Err} : Moves s .explaining (.ended (some err))
  | invalid {handle : ℕ} {err : Err} : Moves s (.validating handle) (.ended (some err))
  | valid {handle : ℕ} : Moves s (.validating handle) (.registering handle)
  | refused {handle : ℕ} : Moves s (.checking handle) (.refusing handle)
  | expired {handle : ℕ} {cause : String} : Moves s (.waiting handle) (.abandoning cause)

/-- What a step does. -/
inductive Act (s : State) : Label → State → Prop
  | begin {c : ℕ} {routingKey : String} (hpc : s.calls c = .idle) :
    Act s (.begin c (some routingKey))
      ({ s with routingKeys := Function.update s.routingKeys c routingKey }.goto c .opening)
  | move {l : Label} {c : ℕ} {pc pc' : Pc} (hpc : s.calls c = pc) (h : Moves s pc pc') :
    Act s l (s.goto c pc')
  | register {c handle : ℕ} (hpc : s.calls c = .registering handle) :
    Act s (.register c)
      (((s.add c (s.routingKeys c)).log (.registered c)).goto c (.checking handle))
  | live {c handle : ℕ} (hpc : s.calls c = .checking handle) (hopen : s.closed = false) :
    Act s (.check c) ((s.setSender c (.sending handle)).goto c (.waiting handle))
  | refuse {c handle : ℕ} (hpc : s.calls c = .refusing handle) :
    Act s (.refuse c)
      (((s.resolve c (some .publisherClosed)).log (.resolved c)).goto c (.waiting handle))
  | receive {c handle : ℕ} {err : Outcome} (hpc : s.calls c = .waiting handle)
    (hch : (s.waiters c).ch = some err) :
    Act s (.receive c)
      ({ s with waiters := Function.update s.waiters c { s.waiters c with ch := none } }.goto c
        (.ended err))
  | abandon {c : ℕ} {cause : String} (hpc : s.calls c = .abandoning cause) :
    Act s (.abandon c) ((s.tombstone c).goto c (.ended (some (.abandoned cause))))
  | sent {c : ℕ} {sendErr : Option String} {sender : Sender} :
    Act s (.sent c sendErr) (s.setSender c sender)
  | fail {c : ℕ} {err : Err} :
    Act s (.fail c) (((s.resolve c (some err)).log (.resolved c)).setSender c .finished)
  | confirm {c : ℕ} {ok : Bool} {cause : Option String} {err : Outcome}
    (herr : err = none → ok = true) :
    Act s (.confirm c ok cause)
      (((s.resolve c err).log (.confirmed c ok)).log (.resolved c))
  | shut (hpc : s.manager = .idle) : Act s .shut { s with closed := true, manager := .swapping }
  | swap {manager : Manager} (hpc : s.manager = .swapping)
    (hmanager : s.bound = none ∧ manager = .sweeping none ∨
      ∃ handle, s.bound = some handle ∧ manager = .closing handle) :
    Act s .swap { s with bound := none, manager := manager }
  | closeHandle {handle : ℕ} (hpc : s.manager = .closing handle) :
    Act s .closeHandle { s with manager := .sweeping (some handle) }
  | sweep {handle : Option ℕ} (hpc : s.manager = .sweeping handle) :
    Act s .sweep { (s.sweepWaiters (some .publisherClosed)).log .swept with
      manager := .idle
      closedHandles := handle.toList ++ s.closedHandles }
  | bind (hpc : s.manager = .idle) :
    Act s .bind { s with
      bound := some s.nextHandle
      nextHandle := s.nextHandle + 1
      manager := .reopening }
  | reopen (hpc : s.manager = .reopening) :
    Act s .reopen { s with closed := false, manager := .idle }

variable {super : Bool} {s t u : State} {l : Label} {c : ℕ} {pc pc' : Pc}

/-- The start of a call is one of the listed effects. -/
theorem act_of_begin {msg : Option String} (h : s.begin c msg = some t) :
    Act s (.begin c msg) t := by
  rw [State.begin.eq_def] at h
  split at h
  · next hpc =>
    cases h
    cases msg with
    | none => exact .move hpc .nil
    | some routingKey => exact .begin hpc
  · contradiction

/-- So is a confirmation. -/
theorem act_of_confirm {ok : Bool} {cause : Option String} (h : s.confirm c ok cause = some t) :
    Act s (.confirm c ok cause) t := by
  rw [State.confirm] at h
  split at h
  · contradiction
  · cases h
    refine .confirm fun herr ↦ ?_
    split at herr
    · next hok => exact hok
    · contradiction

theorem act_of_swap (h : s.swap = some t) : Act s .swap t := by
  rw [State.swap] at h
  split at h
  · next hpc =>
    cases h
    refine .swap hpc ?_
    split
    · next handle hbound => exact .inr ⟨handle, hbound, rfl⟩
    · next hbound => exact .inl ⟨hbound, rfl⟩
  · contradiction

/-- **Inversion.** Everything a step can do. -/
theorem act_of_step (h : (system super).step s l = some t) : Act s l t := by
  cases l with
  | begin c msg => exact act_of_begin h
  | opened c | load c | explain c | validate c stampErr | expire c cause =>
    simp only [system, State.step, State.opened, State.load, State.explain, State.validate,
      State.expire] at h
    split at h
    · next hpc =>
      cases h
      refine .move hpc ?_
      repeat' split
      all_goals first | exact .loaded ‹_› | constructor
    · contradiction
  | check c =>
    simp only [system, State.step, State.check] at h
    split at h
    · next hpc =>
      cases h
      split
      · exact .move hpc .refused
      · next hopen => exact .live hpc (eq_false_iff.2 hopen)
    · contradiction
  | receive c =>
    simp only [system, State.step, State.receive] at h
    split at h
    · next hpc hch =>
      cases h
      exact .receive hpc hch
    · contradiction
  | sent c sendErr | fail c =>
    simp only [system, State.step, State.sent, State.fail] at h
    split at h
    · cases h
      constructor
    · contradiction
  | confirm c ok cause => exact act_of_confirm h
  | swap => exact act_of_swap h
  | register c | refuse c | abandon c | shut | closeHandle | sweep | bind | reopen =>
    simp only [system, State.step, State.register, State.refuse, State.abandon, State.shut,
      State.closeHandle, State.sweep, State.bind, State.reopen] at h
    split at h
    · next hpc =>
      cases h
      constructor
      exact hpc
    · contradiction

/-! ### One waiter -/

/-- The send of the call was registered, and neither resolved nor swept since. -/
def Standing (c : ℕ) : List Event → Bool
  | [] => false
  | .registered c' :: history => c' = c || Standing c history
  | .resolved c' :: history => c' ≠ c && Standing c history
  | .swept :: _ => false
  | .confirmed _ _ :: history => Standing c history

/-- The events that say nothing about the entry of the call. -/
def Event.Silent (c : ℕ) : Event → Prop
  | .registered c' | .resolved c' => c' ≠ c
  | .swept => False
  | .confirmed _ _ => True

/-- An event of another call does not count. -/
theorem standing_cons_of_silent {ev : Event} {history : List Event} (h : ev.Silent c) :
    Standing c (ev :: history) = Standing c history := by
  cases ev with
  | registered c' | resolved c' => simp [Standing, show c' ≠ c from h]
  | confirmed => rfl
  | swept => exact h.elim

/-- A result is in the channel, or one can still be delivered. -/
def Answerable (pending : Bool) (w : Waiter) : Prop :=
  w.ch ≠ none ∨ pending = true ∧ w.done = false

/-- Whether a call has a waiter that it goes on to wait for. -/
def Pc.registered : Pc → Bool
  | .checking _ | .refusing _ | .waiting _ => true
  | _ => false

/-- What holds of one call and its waiter. -/
structure Kept (s : State) (c : ℕ) : Prop where
  once : (s.waiters c).results.length ≤ 1 ∧
    ((s.waiters c).results ≠ [] → (s.waiters c).done = true)
  positive : (s.waiters c).ch = some none → .confirmed c true ∈ s.history
  ended : s.calls c = .ended none → .confirmed c true ∈ s.history
  idle : s.calls c = .idle → Standing c s.history = false
  standing : Standing c s.history = true → s.pending c = true ∧
    (s.waiters c).routingKey = s.routingKeys c
  answerable : (s.calls c).registered = true → Answerable (s.pending c) (s.waiters c)

namespace Kept

/-- Only the place of the call changes. -/
theorem moved (hs : Kept s c) (hw : t.waiters c = s.waiters c) (hp : t.pending c = s.pending c)
    (hk : t.routingKeys c = s.routingKeys c) (hhistory : t.history = s.history)
    (hended : t.calls c = .ended none → s.calls c = .ended none)
    (hidle : t.calls c = .idle → s.calls c = .idle)
    (hregistered : (t.calls c).registered = true → (s.calls c).registered = true) : Kept t c where
  once := by rw [hw]; exact hs.once
  positive h := by rw [hhistory]; exact hs.positive (hw ▸ h)
  ended h := by rw [hhistory]; exact hs.ended (hended h)
  idle h := by rw [hhistory]; exact hs.idle (hidle h)
  standing h := by
    rw [hp, hw, hk]
    exact hs.standing (hhistory ▸ h)
  answerable h := by
    rw [hp, hw]
    exact hs.answerable (hregistered h)

/-- Nothing changes but that something happened elsewhere. -/
theorem silent {ev : Event} (hs : Kept s c) (h : ev.Silent c) : Kept (s.log ev) c where
  once := hs.once
  positive h' := mem_cons_of_mem _ (hs.positive h')
  ended h' := mem_cons_of_mem _ (hs.ended h')
  idle h' := (standing_cons_of_silent h).trans (hs.idle h')
  standing h' := hs.standing ((standing_cons_of_silent h).symm.trans h')
  answerable := hs.answerable

/-- The waiter is resolved, if it has an entry, and the entry is removed. -/
theorem resolved {err : Outcome} (hs : Kept s c)
    (hw : t.waiters c = if s.pending c then (s.waiters c).resolve err else s.waiters c)
    (hstanding : Standing c t.history = false) (hhistory : ∀ ev ∈ s.history, ev ∈ t.history)
    (herr : err = none → .confirmed c true ∈ t.history)
    (hended : t.calls c = .ended none → s.calls c = .ended none)
    (hregistered : (t.calls c).registered = true → (s.calls c).registered = true) : Kept t c := by
  have hanswer : (t.calls c).registered = true → (t.waiters c).ch ≠ none := by
    intro h
    have hans := hs.answerable (hregistered h)
    rw [hw]
    cases hp : s.pending c with
    | false =>
      rcases hans with hch | ⟨hp', -⟩
      · simpa using hch
      · exact nomatch hp.symm.trans hp'
    | true =>
      simp only [if_true, Waiter.resolve]
      split
      · next hdone =>
        rcases hans with hch | ⟨-, hnot⟩
        · exact hch
        · exact absurd (hnot.symm.trans hdone) false_ne_true
      · exact nofun
  refine ⟨?_, fun h ↦ ?_, fun h ↦ hhistory _ (hs.ended (hended h)), fun _ ↦ hstanding,
    fun h ↦ absurd (hstanding.symm.trans h) false_ne_true, fun h ↦ .inl (hanswer h)⟩
  · rw [hw, Waiter.resolve]
    split
    · split
      · exact hs.once
      · next hdone =>
        have hempty : (s.waiters c).results = [] := by
          by_contra hne
          exact hdone (hs.once.2 hne)
        simp [hempty]
    · exact hs.once
  · rw [hw, Waiter.resolve] at h
    split at h
    · split at h
      · exact hhistory _ (hs.positive h)
      · exact herr (some_inj.1 h)
    · exact hhistory _ (hs.positive h)

end Kept

/-- Without an entry there is nothing to remove or to resolve. -/
theorem resolve_eq (s : State) (c : ℕ) (err : Outcome) :
    s.resolve c err = { s with
      pending := update s.pending c false
      waiters := update s.waiters c
        (if s.pending c then (s.waiters c).resolve err else s.waiters c) } := by
  rw [State.resolve]
  split
  · rfl
  · next h =>
    rw [update_eq_self, ← eq_false_iff.2 h, update_eq_self]

theorem resolve_log (s : State) (c : ℕ) (err : Outcome) (ev : Event) :
    (s.log ev).resolve c err = (s.resolve c err).log ev := by
  rw [resolve_eq, resolve_eq]
  rfl

theorem calls_goto (s : State) (c : ℕ) (pc : Pc) (c' : ℕ) :
    (s.goto c pc).calls c' = s.calls c' ∨ c' = c ∧ (s.goto c pc).calls c' = pc := by
  change update s.calls c pc c' = _ ∨ _ ∧ update s.calls c pc c' = _
  by_cases h : c' = c
  · exact .inr ⟨h, by rw [h, update_self]⟩
  · exact .inl (update_of_ne h _ _)

namespace Kept

/-- Nothing of the call changes. -/
theorem same (hs : Kept s c) (hw : t.waiters c = s.waiters c) (hp : t.pending c = s.pending c)
    (hk : t.routingKeys c = s.routingKeys c) (hpc : t.calls c = s.calls c)
    (hhistory : t.history = s.history) : Kept t c :=
  hs.moved hw hp hk hhistory (fun h ↦ hpc ▸ h) (fun h ↦ hpc ▸ h) fun h ↦ hpc ▸ h

/-- A call moves; it does not return nil, and does not come to wait. -/
theorem goto {c' : ℕ} (hs : Kept s c') (hended : pc' ≠ .ended none) (hidle : pc' ≠ .idle)
    (hregistered : pc'.registered = true → (s.calls c).registered = true) :
    Kept (s.goto c pc') c' := by
  rcases calls_goto s c pc' c' with heq | ⟨rfl, heq⟩
  · exact hs.same rfl rfl rfl heq rfl
  · refine hs.moved rfl rfl rfl rfl ?_ ?_ ?_ <;> rw [heq]
    · exact fun h ↦ absurd h hended
    · exact fun h ↦ absurd h hidle
    · exact hregistered

/-- A waiter is resolved once, with an outcome that has a cause. -/
theorem resolve {c' : ℕ} {err : Outcome} (hs : Kept s c')
    (herr : err = none → .confirmed c true ∈ s.history) :
    Kept ((s.resolve c err).log (.resolved c)) c' := by
  rw [resolve_eq]
  by_cases hc : c' = c
  · subst hc
    exact hs.resolved (update_self ..) (by simp [State.log, Standing])
      (fun _ h ↦ mem_cons_of_mem _ h) (fun h ↦ mem_cons_of_mem _ (herr h)) id id
  · refine .silent ?_ (Ne.symm hc)
    exact hs.same (update_of_ne hc ..) (update_of_ne hc ..) rfl rfl rfl

end Kept

/-- A move of a call ends none with success. -/
theorem Moves.kept (h : Moves s pc pc') :
    pc' ≠ .ended none ∧ pc' ≠ .idle ∧ (pc'.registered = true → pc.registered = true) := by
  cases h with
  | refused => exact ⟨nofun, nofun, fun _ ↦ rfl⟩
  | _ => exact ⟨nofun, nofun, nofun⟩

/-- The sweep resolves every waiter that is left. -/
theorem Kept.sweep {handle : Option ℕ} (hs : Kept s c) :
    Kept { (s.sweepWaiters (some .publisherClosed)).log .swept with
      manager := .idle
      closedHandles := handle.toList ++ s.closedHandles } c :=
  hs.resolved rfl rfl (fun _ h ↦ mem_cons_of_mem _ h) nofun id id

/-- A registration starts a new waiter. -/
theorem Kept.register {c' handle : ℕ} (hs : Kept s c') :
    Kept (((s.add c (s.routingKeys c)).log (.registered c)).goto c (.checking handle)) c' := by
  by_cases hc : c' = c
  · subst hc
    constructor <;> simp [State.goto, State.log, State.add, Answerable]
  · have hadd : Kept (s.add c (s.routingKeys c)) c' :=
      hs.same (update_of_ne hc ..) (update_of_ne hc ..) rfl rfl rfl
    have hlog : Kept ((s.add c (s.routingKeys c)).log (.registered c)) c' :=
      hadd.silent (Ne.symm hc)
    exact hlog.same rfl rfl rfl (update_of_ne hc ..) rfl

/-- A call returns what its waiter was resolved with. -/
theorem Kept.receive {c' : ℕ} {err : Outcome} (hs : Kept s c')
    (hch : (s.waiters c).ch = some err) :
    Kept ({ s with waiters := update s.waiters c { s.waiters c with ch := none } }.goto c
      (.ended err)) c' := by
  by_cases hc : c' = c
  · subst hc
    have hpositive := hs.positive
    constructor <;> simp_all [State.goto, Pc.registered, hs.once, hs.standing]
  · exact hs.same (update_of_ne hc ..) rfl rfl (update_of_ne hc ..) rfl

/-- A tombstone keeps the others' waiters. -/
theorem Kept.tombstone {c' : ℕ} (hs : Kept s c') (hpc : (s.calls c).registered = false) :
    Kept (s.tombstone c) c' := by
  rw [State.tombstone]
  split
  · by_cases hc : c' = c
    · subst hc
      exact ⟨by simp [hs.once], by simpa using hs.positive, hs.ended, hs.idle,
        by simpa using hs.standing, by simp [hpc]⟩
    · exact hs.same (update_of_ne hc ..) rfl rfl rfl rfl
  · exact hs

/-- Every step keeps the invariant, of every call. -/
theorem kept_step (hs : ∀ c, Kept s c) (h : (system super).step s l = some t) (c' : ℕ) :
    Kept t c' := by
  cases act_of_step h with
  | @begin c routingKey hpc =>
    have hkey : Kept { s with routingKeys := update s.routingKeys c routingKey } c' := by
      refine { hs c' with standing := fun h ↦ ?_ }
      have hne : c' ≠ c := by
        rintro rfl
        exact nomatch ((hs c').idle hpc).symm.trans h
      simpa only [update_of_ne hne] using (hs c').standing h
    exact hkey.goto nofun nofun nofun
  | move hpc hmoves =>
    obtain ⟨hended, hidle, hregistered⟩ := hmoves.kept
    exact (hs c').goto hended hidle (hpc ▸ hregistered)
  | register hpc => exact (hs c').register
  | @live c handle hpc _ =>
    have hsender : Kept (s.setSender c (.sending handle)) c' := (hs c').same rfl rfl rfl rfl rfl
    refine hsender.goto nofun nofun fun _ ↦ ?_
    change (s.calls c).registered = true
    rw [hpc]
    rfl
  | @refuse c handle hpc =>
    refine .goto ((hs c').resolve nofun) nofun nofun fun _ ↦ ?_
    rw [resolve_eq]
    change (s.calls c).registered = true
    rw [hpc]
    rfl
  | receive hpc hch => exact (hs c').receive hch
  | abandon hpc => exact ((hs c').tombstone (by rw [hpc]; rfl)).goto nofun nofun nofun
  | @fail c err =>
    have hresolve : Kept ((s.resolve c (some err)).log (.resolved c)) c' := (hs c').resolve nofun
    exact hresolve.same rfl rfl rfl rfl rfl
  | @confirm c ok cause err herr =>
    have hlog : Kept (s.log (.confirmed c ok)) c' := (hs c').silent trivial
    rw [← resolve_log]
    refine hlog.resolve fun h ↦ ?_
    rw [herr h]
    exact mem_cons_self
  | sweep hpc => exact (hs c').sweep
  | sent | shut _ | swap _ _ | closeHandle _ | bind _ | reopen _ =>
    exact (hs c').same rfl rfl rfl rfl rfl

/-- The invariant holds along every run. -/
theorem kept_of_reachable (hs : (system super).Reachable s) (c : ℕ) : Kept s c := by
  refine hs.invariant (P := fun s ↦ ∀ c, Kept s c) ?_ (fun _ _ _ _ _ hkept h ↦ kept_step hkept h) c
  rintro s rfl c
  exact ⟨⟨Nat.zero_le _, fun h ↦ absurd rfl h⟩, nofun, nofun, fun _ ↦ rfl, nofun, nofun⟩

/-- A call without an entry that waits has its result. -/
theorem Kept.ch_ne_none {handle : ℕ} (hs : Kept s c) (hpc : s.calls c = .waiting handle)
    (hp : s.pending c = false) : (s.waiters c).ch ≠ none := by
  rcases hs.answerable (by rw [hpc]; rfl) with hch | ⟨hp', -⟩
  · exact hch
  · exact nomatch hp.symm.trans hp'

/-! ### Handles -/

/-- The handle a call has loaded, until the end of its registration. -/
def Pc.loaded : Pc → Option ℕ
  | .validating handle | .registering handle | .checking handle => some handle
  | _ => none

/-- The publisher is reopened only when no call that loaded another handle is still registering. -/
def Orderly (s : State) : Label → Prop
  | .reopen => ∀ c handle, (s.calls c).loaded = some handle → s.bound = some handle
  | _ => True

/-- `closeBound` is running. -/
def Manager.shutting : Manager → Bool
  | .swapping | .closing _ | .sweeping _ => true
  | .idle | .reopening => false

/-- The handle that `closeBound` has swapped away. -/
def Manager.retiring : Manager → Option ℕ
  | .closing handle => some handle
  | .sweeping handle => handle
  | _ => none

/-- A handle that is closed or about to be. -/
def State.Retired (s : State) (handle : ℕ) : Prop :=
  handle ∈ s.closedHandles ∨ s.manager.retiring = some handle

/-- Handles are numbered, and one that is gone is not bound again. -/
structure Handled (s : State) : Prop where
  bound : ∀ handle, s.bound = some handle → handle < s.nextHandle
  retired : ∀ handle, s.Retired handle → handle < s.nextHandle ∧ s.bound ≠ some handle
  shutting : s.manager.shutting = true → s.closed = true
  /-- A call that is still registering on a handle that is gone will find the publisher closed. -/
  loaded : ∀ c handle, (s.calls c).loaded = some handle → s.Retired handle → s.closed = true
  waiting : ∀ c handle, s.calls c = .waiting handle → handle ∈ s.closedHandles →
    (s.waiters c).ch ≠ none

namespace Handled

/-- A call moves; it loads no handle but the bound one, and does not come to wait. -/
theorem goto (hs : Handled s)
    (hloaded : ∀ handle, pc'.loaded = some handle →
      (s.calls c).loaded = some handle ∨ s.bound = some handle)
    (hwaiting : ∀ handle, pc' = .waiting handle → handle ∈ s.closedHandles →
      (s.waiters c).ch ≠ none) : Handled (s.goto c pc') where
  bound := hs.bound
  retired := hs.retired
  shutting := hs.shutting
  loaded c' handle h hretired := by
    rcases calls_goto s c pc' c' with heq | ⟨rfl, heq⟩
    · exact hs.loaded c' handle (heq ▸ h) hretired
    · rcases hloaded handle (heq ▸ h) with hold | hbound
      · exact hs.loaded c' handle hold hretired
      · exact absurd hbound (hs.retired handle hretired).2
  waiting c' handle h hclosed := by
    rcases calls_goto s c pc' c' with heq | ⟨rfl, heq⟩
    · exact hs.waiting c' handle (heq ▸ h) hclosed
    · exact hwaiting handle (heq.symm.trans h) hclosed

/-- The waiters change, but no result of a waiting call is lost. -/
theorem of_waiters (hs : Handled s) (hbound : t.bound = s.bound) (hclosed : t.closed = s.closed)
    (hcalls : t.calls = s.calls) (hmanager : t.manager = s.manager)
    (hnext : t.nextHandle = s.nextHandle) (hhandles : t.closedHandles = s.closedHandles)
    (hwaiters : ∀ c handle, s.calls c = .waiting handle → (s.waiters c).ch ≠ none →
      (t.waiters c).ch ≠ none) : Handled t := by
  have hretired (handle : ℕ) : t.Retired handle ↔ s.Retired handle := by
    rw [State.Retired, State.Retired, hhandles, hmanager]
  refine ⟨?_, fun handle h ↦ ?_, ?_, fun c handle h hr ↦ ?_, fun c handle h hmem ↦ ?_⟩
  · rw [hbound, hnext]
    exact hs.bound
  · rw [hbound, hnext]
    exact hs.retired handle ((hretired handle).1 h)
  · rw [hmanager, hclosed]
    exact hs.shutting
  · rw [hclosed]
    exact hs.loaded c handle (hcalls ▸ h) ((hretired handle).1 hr)
  · rw [hcalls] at h
    rw [hhandles] at hmem
    exact hwaiters c handle h (hs.waiting c handle h hmem)

/-- `closeBound` sets the flag first. -/
theorem shut (hs : Handled s) (hpc : s.manager = .idle) :
    Handled { s with closed := true, manager := .swapping } where
  bound := hs.bound
  retired handle h := hs.retired handle (by rwa [State.Retired, hpc])
  shutting _ := rfl
  loaded _ _ _ _ := rfl
  waiting := hs.waiting

/-- A handle that is taken away is not bound. -/
theorem swap {manager : Manager} (hs : Handled s) (hpc : s.manager = .swapping)
    (hmanager : s.bound = none ∧ manager = .sweeping none ∨
      ∃ handle, s.bound = some handle ∧ manager = .closing handle) :
    Handled { s with bound := none, manager := manager } where
  bound _ h := nomatch h
  retired handle h := by
    refine ⟨?_, nofun⟩
    rcases h with hclosed | hretiring
    · exact (hs.retired handle (.inl hclosed)).1
    · rcases hmanager with ⟨-, rfl⟩ | ⟨handle', hbound, rfl⟩
      · contradiction
      · exact hs.bound handle (hbound.trans hretiring)
  shutting _ := hs.shutting (by rw [hpc]; rfl)
  loaded _ _ _ _ := hs.shutting (by rw [hpc]; rfl)
  waiting := hs.waiting

/-- A handle is closed after it was taken. -/
theorem closeHandle {handle : ℕ} (hs : Handled s) (hpc : s.manager = .closing handle) :
    Handled { s with manager := .sweeping (some handle) } where
  bound := hs.bound
  retired handle' h := hs.retired handle' (by rwa [State.Retired, hpc])
  shutting _ := hs.shutting (by rw [hpc]; rfl)
  loaded _ _ _ _ := hs.shutting (by rw [hpc]; rfl)
  waiting := hs.waiting

/-- The sweep leaves nobody waiting without a result. -/
theorem sweep {handle : Option ℕ} (hs : Handled s) (hkept : ∀ c, Kept s c)
    (hpc : s.manager = .sweeping handle) :
    Handled { (s.sweepWaiters (some .publisherClosed)).log .swept with
      manager := .idle
      closedHandles := handle.toList ++ s.closedHandles } where
  bound := hs.bound
  retired handle' h := by
    refine hs.retired handle' ?_
    rcases h with hclosed | hretiring
    · rcases mem_append.1 hclosed with hnew | hold
      · exact .inr (by rw [hpc]; exact mem_toList.1 hnew)
      · exact .inl hold
    · contradiction
  shutting h := nomatch h
  loaded _ _ _ _ := hs.shutting (by rw [hpc]; rfl)
  waiting c _ hpc' _ := (@Kept.sweep s c handle (hkept c)).ch_ne_none hpc' rfl

/-- A new handle is bound. -/
theorem bind (hs : Handled s) (hpc : s.manager = .idle) :
    Handled { s with
      bound := some s.nextHandle
      nextHandle := s.nextHandle + 1
      manager := .reopening } := by
  have hretired {handle : ℕ} (h : handle ∈ s.closedHandles ∨ none = some handle) :
      s.Retired handle := by rwa [State.Retired, hpc]
  refine ⟨fun handle h ↦ ?_, fun handle h ↦ ?_, nofun,
    fun c handle h hr ↦ hs.loaded c handle h (hretired hr), hs.waiting⟩
  · rw [← some_inj.1 h]
    exact Nat.lt_succ_self _
  · have hlt := (hs.retired handle (hretired h)).1
    exact ⟨Nat.lt_succ_of_lt hlt, fun h ↦ Nat.ne_of_gt hlt (some_inj.1 h)⟩

/-- The flag is cleared when nobody is registering on a handle that is gone. -/
theorem reopen (hs : Handled s) (hpc : s.manager = .reopening)
    (horderly : ∀ c handle, (s.calls c).loaded = some handle → s.bound = some handle) :
    Handled { s with closed := false, manager := .idle } := by
  have hretired {handle : ℕ} (h : handle ∈ s.closedHandles ∨ none = some handle) :
      s.Retired handle := by rwa [State.Retired, hpc]
  exact ⟨hs.bound, fun handle h ↦ hs.retired handle (hretired h), nofun,
    fun c handle h hr ↦ absurd (horderly c handle h) (hs.retired handle (hretired hr)).2,
    hs.waiting⟩

end Handled

/-- Resolving loses no result. -/
theorem resolve_ch {c' : ℕ} {err : Outcome} (h : (s.waiters c').ch ≠ none) :
    ((s.resolve c err).waiters c').ch ≠ none := by
  rw [resolve_eq]
  grind [update_apply, Waiter.resolve]

/-- A call loads only the handle that is bound. -/
theorem Moves.handled (h : Moves s pc pc') :
    (∀ handle, pc'.loaded = some handle → pc.loaded = some handle ∨ s.bound = some handle) ∧
      ∀ handle, pc' ≠ .waiting handle := by
  cases h with
  | loaded hbound => exact ⟨fun _ h ↦ .inr (hbound.trans h), nofun⟩
  | valid => exact ⟨fun _ h ↦ .inl h, nofun⟩
  | _ => exact ⟨nofun, nofun⟩

/-- Every orderly step keeps the numbering. -/
theorem Handled.step (hs : Handled s) (hkept : ∀ c, Kept s c) (horderly : Orderly s l)
    (h : (system super).step s l = some t) : Handled t := by
  have hkept' := kept_step hkept h
  have hresolved {c : ℕ} {err : Outcome} : Handled (s.resolve c err) := by
    rw [resolve_eq]
    exact hs.of_waiters rfl rfl rfl rfl rfl rfl fun c' _ _ hch ↦
      resolve_eq s c err ▸ resolve_ch hch
  cases act_of_step h with
  | @begin c routingKey hpc =>
    have hkey : Handled { s with routingKeys := update s.routingKeys c routingKey } :=
      { hs with }
    exact hkey.goto (fun _ h ↦ nomatch h) fun _ h ↦ nomatch h
  | move hpc hmoves =>
    exact hs.goto (hpc ▸ hmoves.handled.1) fun handle h ↦ absurd h (hmoves.handled.2 handle)
  | @register c handle hpc =>
    have hadd : Handled ((s.add c (s.routingKeys c)).log (.registered c)) := by
      refine hs.of_waiters rfl rfl rfl rfl rfl rfl fun c' handle' hpc' hch ↦ ?_
      have hne : c' ≠ c := by
        rintro rfl
        exact nomatch hpc.symm.trans hpc'
      change (update s.waiters c _ c').ch ≠ none
      rwa [update_of_ne hne]
    refine hadd.goto (fun handle' h ↦ .inl ?_) nofun
    change (s.calls c).loaded = some handle'
    rw [hpc]
    exact h
  | @live c handle hpc hopen =>
    have hsender : Handled (s.setSender c (.sending handle)) := { hs with }
    refine hsender.goto nofun fun handle' h hclosed ↦ ?_
    cases h
    -- The flag is set before the handle is taken away.
    have hshut := hs.loaded c handle (by rw [hpc]; rfl) (.inl hclosed)
    exact absurd (hopen.symm.trans hshut) false_ne_true
  | @refuse c handle hpc =>
    have hresolve : Handled (s.resolve c (some .publisherClosed)) := hresolved
    have hlog : Handled ((s.resolve c (some .publisherClosed)).log (.resolved c)) :=
      { hresolve with }
    refine hlog.goto nofun fun handle' _ _ ↦ ?_
    refine (hkept' c).ch_ne_none (update_self ..) ?_
    rw [resolve_eq]
    exact update_self ..
  | @receive c handle err hpc hch =>
    have hended : Handled (s.goto c (.ended err)) :=
      hs.goto (fun _ h ↦ nomatch h) fun _ h ↦ nomatch h
    refine hended.of_waiters rfl rfl rfl rfl rfl rfl fun c' handle' hpc' hch' ↦ ?_
    have hne : c' ≠ c := by
      rintro rfl
      exact nomatch (update_self ..).symm.trans hpc'
    change (update s.waiters c _ c').ch ≠ none
    rwa [update_of_ne hne]
  | @abandon c cause hpc =>
    have htomb : Handled (s.tombstone c) := by
      rw [State.tombstone]
      split
      · refine hs.of_waiters rfl rfl rfl rfl rfl rfl fun c' _ _ hch ↦ ?_
        grind [update_apply]
      · exact hs
    exact htomb.goto (fun _ h ↦ nomatch h) fun _ h ↦ nomatch h
  | sent => exact { hs with }
  | @fail c err | @confirm c _ _ err =>
    have hresolve : Handled (s.resolve c err) := hresolved
    exact { hresolve with }
  | shut hpc => exact hs.shut hpc
  | swap hpc hmanager => exact hs.swap hpc hmanager
  | closeHandle hpc => exact hs.closeHandle hpc
  | sweep hpc => exact hs.sweep hkept hpc
  | bind hpc => exact hs.bind hpc
  | reopen hpc => exact hs.reopen hpc horderly

/-- The numbering holds along every orderly run. -/
theorem handled_of_reach (hs : (system super).Reach Orderly s) : Handled s := by
  refine hs.invariant ?_ fun _ _ _ hr horderly hhandled h ↦
    hhandled.step (kept_of_reachable hr.reachable) horderly h
  rintro s rfl
  refine ⟨nofun, fun _ h ↦ ?_, nofun, nofun, nofun⟩
  rcases h with h | h <;> contradiction

/-! ### The result -/

/-- **Waiters.** In every run a waiter gets at most one result, `Publish` returns nil only on a
positive confirmation of its own message, and `routingKeyFor` answers the message's own routing key
from its registration until its send resolves or a close sweeps it. In every run in which the
publisher is reopened only when no call is still registering on an earlier handle, a call that waits
on a handle whose `closeBound` has completed has its result. -/
theorem waiters_settle (super : Bool) :
    (∀ s, (system super).Reachable s → ∀ c, (s.waiters c).results.length ≤ 1 ∧
      (s.calls c = .ended none → .confirmed c true ∈ s.history) ∧
      (Standing c s.history = true → s.routingKeyFor c = some (s.routingKeys c))) ∧
    ∀ s, (system super).Reach Orderly s → ∀ c handle, s.calls c = .waiting handle →
      handle ∈ s.closedHandles → (s.waiters c).ch ≠ none := by
  refine ⟨fun s hs c ↦ ?_, fun s hs ↦ (handled_of_reach hs).waiting⟩
  have hkept := kept_of_reachable hs c
  refine ⟨hkept.once.1, hkept.ended, fun hstanding ↦ ?_⟩
  obtain ⟨hpending, hkey⟩ := hkept.standing hstanding
  rw [State.routingKeyFor, if_pos hpending, hkey]

/-- Three calls on one handle: the first is confirmed, the context of the second expires and its
routing key is still found, and the close gives the third its result. -/
theorem waiters_settle_three_calls :
    ∃ s t, (system true).Reachable s ∧ (system true).Reach Orderly t ∧
      s.calls 0 = .ended none ∧ .confirmed 0 true ∈ s.history ∧
      s.calls 1 = .ended (some (.abandoned "context deadline exceeded")) ∧
      s.routingKeyFor 1 = some "b" ∧
      t.calls 2 = .waiting 0 ∧ 0 ∈ t.closedHandles ∧ (t.waiters 2).ch ≠ none := by
  obtain ⟨u, s, t, hbind, hreopen, hrun, hok, hexpired, hstanding, hkey, hclose, hwaiting,
      hclosed⟩ :
      ∃ u s t, (system true).run {} [.bind] = some u ∧ Orderly u .reopen ∧
        (system true).run u [.reopen,
          .begin 0 (some "a"), .opened 0, .load 0, .validate 0 none, .register 0, .check 0,
          .begin 1 (some "b"), .opened 1, .load 1, .validate 1 none, .register 1, .check 1,
          .begin 2 (some "c"), .opened 2, .load 2, .validate 2 none, .register 2, .check 2,
          .sent 0 none, .confirm 0 true none, .receive 0,
          .expire 1 "context deadline exceeded", .abandon 1] = some s ∧
        s.calls 0 = .ended none ∧
        s.calls 1 = .ended (some (.abandoned "context deadline exceeded")) ∧
        Standing 1 s.history = true ∧ s.routingKeys 1 = "b" ∧
        (system true).run s [.shut, .swap, .closeHandle, .sweep] = some t ∧
        t.calls 2 = .waiting 0 ∧ 0 ∈ t.closedHandles :=
    ⟨_, _, _, rfl, nofun, rfl, by decide, by decide, by decide, by decide, rfl,
      by decide, by decide⟩
  have hfree {ls : List Label} (h : ls.all (fun l ↦ !(l matches .reopen)) = true) :
      ∀ l ∈ ls, ∀ u, Orderly u l := by
    intro l hl u
    have := all_eq_true.1 h l hl
    cases l <;> first | exact trivial | contradiction
  have hu : (system true).Reach Orderly u := .run_cons (.init rfl) hbind trivial (hfree rfl)
  have hs := hu.run_cons hrun hreopen (hfree rfl)
  have ht := hs.run_cons hclose trivial (hfree rfl)
  obtain ⟨hresults, hwaits⟩ := waiters_settle true
  exact ⟨s, t, hs.reachable, ht, hok, (hresults s hs.reachable 0).2.1 hok, hexpired,
    hkey ▸ (hresults s hs.reachable 1).2.2 hstanding, hwaiting, hclosed,
    hwaits t ht 2 0 hwaiting hclosed⟩

/-- A call loads its handle; the publisher is closed and bound again; the call registers, finds the
publisher open, and waits on the closed handle, whose `Send` has returned nil. Neither the sweep nor
the second check of `closed` resolved it. -/
theorem waits_on_closed_handle :
    ∃ s, (system false).Reachable s ∧ s.calls 0 = .waiting 0 ∧ 0 ∈ s.closedHandles ∧
      (s.waiters 0).ch = none ∧ (s.waiters 0).done = false ∧ s.senders 0 = .finished ∧
      s.manager = .idle := by
  have hrun : (system false).run {} [.bind, .reopen, .begin 0 (some ""), .opened 0, .load 0,
      .shut, .swap, .closeHandle, .sweep, .bind, .reopen,
      .validate 0 none, .register 0, .check 0, .sent 0 none] = some _ := rfl
  exact ⟨_, StepSystem.reach_of_run (.init rfl) hrun, by decide, by decide, rfl, rfl, by decide,
    rfl⟩

/-! ### Resolutions -/

/-- An entry stands for a message that is not resolved. -/
theorem standing_of_pending (hs : (system super).Reachable s) (c : ℕ) (hc : s.pending c = true) :
    Standing c s.history = true := by
  refine hs.invariant (P := fun s ↦ ∀ c, s.pending c = true → Standing c s.history = true)
    ?_ ?_ c hc
  · rintro s rfl c hc
    exact nomatch hc
  · intro s l t _ _ hs h c'
    cases act_of_step h with
    | begin | move | live | receive | sent | shut | swap | closeHandle | bind | reopen =>
      exact hs c'
    | abandon =>
      rw [State.tombstone]
      split <;> exact hs c'
    | sweep => exact nofun
    | @register c =>
      by_cases hne : c = c'
      · exact fun _ ↦ by simp [State.goto, State.log, Standing, hne]
      · simpa [State.goto, State.log, State.add, Standing, hne, Ne.symm hne] using hs c'
    | @refuse c | @fail c | @confirm c =>
      rw [resolve_eq]
      by_cases hne : c = c'
      · simp [State.goto, State.log, State.setSender, hne]
      · simpa [State.goto, State.log, State.setSender, Standing, hne, Ne.symm hne] using hs c'

/-- **No resolution is lost.** In every run a call that waits, and whose send has resolved since it
was registered or was swept, has its result: the next `receive` returns it, and it is nil only on a
positive confirmation of the call's own message. -/
theorem resolved_call_returns (hs : (system super).Reachable s) (c handle : ℕ)
    (hc : s.calls c = .waiting handle) (hresolved : Standing c s.history = false) :
    ∃ err t, (system super).step s (.receive c) = some t ∧ t.calls c = .ended err ∧
      (err = none → .confirmed c true ∈ s.history) := by
  have hkept := kept_of_reachable hs c
  have hpending : s.pending c = false := by
    by_contra hp
    exact nomatch hresolved.symm.trans (standing_of_pending hs c (by simpa using hp))
  obtain ⟨err, hch⟩ := Option.ne_none_iff_exists'.1 (hkept.ch_ne_none hc hpending)
  have hstep : ∃ t, (system super).step s (.receive c) = some t ∧ t.calls c = .ended err := by
    show ∃ t, s.receive c = some t ∧ _
    rw [State.receive, hc, hch]
    exact ⟨_, rfl, update_self ..⟩
  obtain ⟨t, hstep, hended⟩ := hstep
  exact ⟨err, t, hstep, hended, fun h ↦ hkept.positive (h ▸ hch)⟩

theorem resolved_call_returns_confirmed : ∃ s t err, (system false).Reachable s ∧
    s.calls 0 = .waiting 0 ∧ (system false).step s (.receive 0) = some t ∧
    t.calls 0 = .ended err := by
  have hrun : (system false).run {} [.bind, .reopen, .begin 0 (some ""), .opened 0, .load 0,
      .validate 0 none, .register 0, .check 0, .sent 0 none, .confirm 0 true none] = some _ := rfl
  have hs := StepSystem.reach_of_run (.init rfl) hrun
  obtain ⟨err, t, hstep, hended, -⟩ := resolved_call_returns hs 0 0 rfl rfl
  exact ⟨_, t, err, hs, rfl, hstep, hended⟩

end Streams.Publisher
