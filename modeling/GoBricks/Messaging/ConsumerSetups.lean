import GoBricks.Messaging.Consumers

/-!
# Setups of consumers, along runs

A call that joins a flight of other declarations gets the answer of those
(`ensureConsumers_wrong_topology`). As long as calls that overlap carry the same declarations, a
rollback does not panic and no two `Close` calls overlap, a call succeeds only for declarations that
were set up, each client is closed once or in one entry, and nothing is left when a `Close` has
returned (`ensureConsumers_sound`).
-/

namespace Consumers

open List Function Option Bool State

/-! ### The invariant -/

/-- A stage in which the key has no entry. -/
def Stage.setting : Stage → Bool
  | .creating => true
  | .replaying _ => true
  | .declaring _ => true
  | .starting _ => true
  | _ => false

/-- A setup is one of a running flight. -/
theorem Stage.running_of_setting {stage : Stage} (h : stage.setting) : stage.running := by
  cases stage with
  | queued | logging | done ok => cases h
  | creating | replaying c | declaring c | starting c => rfl

theorem Stage.setting_of_client {stage : Stage} {c : ℕ} (h : stage.client = some c) :
    stage.setting := by
  cases stage with
  | queued | logging | done ok | creating => cases h
  | replaying c | declaring c | starting c => rfl

/-- A call that waits or has returned. -/
def CallPC.asked : CallPC → Bool
  | .fast => false
  | .ask => false
  | _ => true

/-- A `Close` has taken the entries out of the map. -/
def State.Drained (s : State) (k : ℕ) : Prop :=
  s.closers k ≠ none ∧ s.closers k ≠ some .begun

/-- Clients are closed after the drain. -/
theorem State.drained_of_closing {s : State} {k : ℕ} {cs : List ℕ}
    (h : s.closers k = some (.closing cs)) : s.Drained k := by
  rw [Drained, h]
  exact ⟨some_ne_none _, fun heq ↦ Closer.noConfusion (Option.some.inj heq)⟩

/-- The places of clients, the lock and who waits for whom. -/
structure Inv (s : State) : Prop where
  located : ∃ loc, s.Located loc
  /-- Only the setup that holds the lock is running. -/
  lock : ∀ key f, s.flights key = some f → (f.stage.running ↔ s.locked = some key)
  holder : ∀ key, s.locked = some key → s.flights key ≠ none
  hashes : ∀ key h, s.replayedHashs key = some h → (key, h) ∈ s.setups
  entries : ∀ key c, (key, c) ∈ s.consumers → s.replayedHashs key ≠ none
  absent : ∀ key f, s.flights key = some f → f.stage.setting → ∀ c, (key, c) ∉ s.consumers
  success : ∀ key f, s.flights key = some f → f.stage = .logging ∨ f.stage = .done true →
    (key, f.hash) ∈ s.setups
  /-- A call waits for a flight of its own declarations. -/
  waiters : ∀ key f, s.flights key = some f → ∀ i ∈ f.waiters,
    ∃ c, s.calls i = some c ∧ c.key = key ∧ c.hash = f.hash ∧ c.pc.asked
  returned : ∀ i c, s.calls i = some c → c.pc = .returned true → (c.key, c.hash) ∈ s.setups
  closed : ∀ k, s.closers k ≠ none → s.closed
  drained : ∀ k, s.Drained k → s.consumers = [] ∧ s.locked = none

namespace Inv

variable {s t : State} {key : String} {f g : Flight}

theorem init : Inv {} where
  located := by
    refine ⟨fun _ ↦ .closed, fun l c h ↦ ?_, fun c h ↦ absurd h (Nat.not_lt_zero c),
      fun c ↦ Nat.zero_le 1, fun c _ ↦ rfl, fun k cs h ↦ (nomatch h), nodup_nil⟩
    cases l with
    | setup key =>
      obtain ⟨f, hf, -⟩ := h
      cases hf
    | entry key => cases h
    | closer k =>
      obtain ⟨cs, hcs, -⟩ := h
      cases hcs
    | closed => exact absurd h.1 (Nat.not_lt_zero c)
  lock _ _ h := nomatch h
  holder _ h := nomatch h
  hashes _ _ h := nomatch h
  entries _ _ h := nomatch h
  absent _ _ h := nomatch h
  success _ _ h := nomatch h
  waiters _ _ h := nomatch h
  returned _ _ h := nomatch h
  closed _ h := absurd rfl h
  drained _ h := absurd rfl h.1

/-- A setup takes a step. -/
theorem flight (h : Inv s) (hf : s.flights key = some f)
    (hfree : s.locked = none ∨ s.locked = some key)
    (hflights : t.flights = (s.setFlight key (some g)).flights) (hhash : g.hash = f.hash)
    (hwaiters : g.waiters = f.waiters) (hlocked : t.locked = none ∨ t.locked = some key)
    (hrun : g.stage.running ↔ t.locked = some key) (hcalls : t.calls = s.calls)
    (hclosers : t.closers = s.closers) (hclosed : t.closed = s.closed)
    (hlocated : ∃ loc, t.Located loc) (hsetups : ∀ x ∈ s.setups, x ∈ t.setups)
    (hhashes : ∀ k h, t.replayedHashs k = some h → (k, h) ∈ t.setups)
    (hentries : ∀ k c, (k, c) ∈ t.consumers → t.replayedHashs k ≠ none)
    (habsent : g.stage.setting → ∀ c, (key, c) ∉ t.consumers)
    (hsuccess : g.stage = .logging ∨ g.stage = .done true → (key, f.hash) ∈ t.setups)
    (hdrained : (∃ k, s.Drained k) → t.consumers = [] ∧ t.locked = none) : Inv t := by
  have hself : t.flights key = some g := by
    rw [hflights, setFlight_self]
  -- The lock is free or this setup's, so that no other one runs.
  have hother : ∀ {k e}, k ≠ key → t.flights k = some e →
      s.flights k = some e ∧ e.stage.running = false := by
    intro k e hne hg
    rw [hflights, setFlight_of_ne s hne] at hg
    refine ⟨hg, eq_false_iff.mpr fun hrunning ↦ ?_⟩
    have hk := (h.lock k e hg).mp hrunning
    rcases hfree with hfree | hfree
    · exact nomatch hfree.symm.trans hk
    · exact hne (Option.some.inj (hk.symm.trans hfree))
  refine ⟨hlocated, fun k e hg ↦ ?_, fun k hk ↦ ?_, hhashes, hentries, fun k e hg hsetting ↦ ?_,
    fun k e hg hdone ↦ ?_, fun k e hg i hi ↦ ?_, fun i c hc hpc ↦ ?_, fun k hk ↦ ?_, fun k hk ↦ ?_⟩
  · by_cases hne : k = key
    · subst hne
      cases hself.symm.trans hg
      exact hrun
    · rw [(hother hne hg).2]
      refine iff_of_false false_ne_true fun hk ↦ ?_
      rcases hlocked with hlocked | hlocked
      · exact nomatch hlocked.symm.trans hk
      · exact hne (Option.some.inj (hk.symm.trans hlocked))
  · rcases hlocked with hlocked | hlocked
    · cases hlocked.symm.trans hk
    · cases hlocked.symm.trans hk
      exact hself ▸ some_ne_none g
  · by_cases hne : k = key
    · subst hne
      cases hself.symm.trans hg
      exact habsent hsetting
    · exact absurd (Stage.running_of_setting hsetting) (eq_false_iff.mp (hother hne hg).2)
  · by_cases hne : k = key
    · subst hne
      cases hself.symm.trans hg
      rw [hhash]
      exact hsuccess hdone
    · exact hsetups _ (h.success k e (hother hne hg).1 hdone)
  · rw [hcalls]
    by_cases hne : k = key
    · subst hne
      cases hself.symm.trans hg
      rw [hhash]
      exact h.waiters k f hf i (hwaiters ▸ hi)
    · exact h.waiters k e (hother hne hg).1 i hi
  · rw [hcalls] at hc
    exact hsetups _ (h.returned i c hc hpc)
  · rw [hclosers] at hk
    exact hclosed ▸ h.closed k hk
  · rw [State.Drained, hclosers] at hk
    exact hdrained ⟨k, hk⟩

/-- A setup returns, with the same entries. -/
theorem finish (h : Inv s) (hf : s.flights key = some f)
    (hfree : s.locked = none ∨ s.locked = some key) (ok : Bool)
    (hok : ok = true → (key, f.hash) ∈ s.setups) (hclosers : t.closers = s.closers)
    (hflights : t.flights = (s.finish key f ok).flights) (hlocked : t.locked = none)
    (hcalls : t.calls = s.calls) (hclosed : t.closed = s.closed)
    (hconsumers : t.consumers = s.consumers) (hreplayed : t.replayedHashs = s.replayedHashs)
    (hsetups : t.setups = s.setups) (hlocated : ∃ loc, t.Located loc) : Inv t := by
  refine h.flight hf hfree (g := { f with stage := .done ok }) hflights rfl rfl (.inl hlocked) ?_
    hcalls hclosers hclosed hlocated (fun x hx ↦ hsetups ▸ hx) ?_ ?_ nofun ?_ ?_
  · rw [hlocked]
    exact iff_of_false false_ne_true nofun
  · rw [hreplayed, hsetups]
    exact h.hashes
  · rw [hconsumers, hreplayed]
    exact h.entries
  · rintro (hlogging | hdone)
    · cases hlogging
    · cases hdone
      exact hsetups ▸ hok rfl
  · rintro ⟨k, hk⟩
    exact ⟨hconsumers ▸ (h.drained k hk).1, hlocked⟩

/-- Nothing was drained while a setup holds the lock. -/
theorem not_drained (h : Inv s) (hlocked : s.locked = some key) (k : ℕ) : ¬s.Drained k :=
  fun hk ↦ nomatch (h.drained k hk).2.symm.trans hlocked

/-- A setup that has no client leaves the clients where they are. -/
theorem located_of_client_none (h : Inv s) (hf : s.flights key = some f)
    (hclient : f.stage.client = none) {stage : Stage} (hstage : stage.client = none)
    (locked : Option String) :
    ∃ loc, { s.setFlight key (some { f with stage := stage }) with locked := locked }.Located
      loc := by
  obtain ⟨loc, hloc⟩ := h.located
  have hset : (s.setFlight key (some { f with stage := stage })).Located loc :=
    hloc.setFlight _ (by rw [hf, bind_some, bind_some, hclient, hstage])
  exact ⟨loc, hset.bound, hset.placed, hset.once, hset.fresh, hset.closing, hset.keys⟩

theorem lockSetup (h : Inv s) (hf : s.flights key = some f) (hstage : f.stage = .queued)
    (hlocked : s.locked = none) (panics : Bool) : Inv (s.lockSetup key f panics) := by
  have hclient : f.stage.client = none := by rw [hstage]; rfl
  rw [State.lockSetup]
  split
  · exact h.finish hf (.inl hlocked) false nofun rfl rfl rfl rfl rfl rfl rfl rfl
      (h.located_of_client_none hf hclient rfl _)
  · next hopen =>
    split
    · next existingHash hexisting =>
      refine h.finish hf (.inl hlocked) _ (fun heq ↦ ?_) rfl rfl rfl rfl rfl rfl rfl rfl
        (h.located_of_client_none hf hclient rfl _)
      rw [← eq_of_beq (and_eq_true_iff.mp heq).1]
      exact h.hashes key existingHash hexisting
    · next hnone =>
      have habsent : ∀ c, (key, c) ∉ s.consumers := fun c hc ↦ h.entries key c hc hnone
      have hlookup : s.consumers.lookup key = none := by
        rw [lookup_eq_none_iff]
        rintro ⟨k, c⟩ hp
        refine bne_iff_ne.mpr fun heq ↦ habsent c ?_
        rw [heq]
        exact hp
      rw [hlookup]
      refine h.flight hf (.inl hlocked) (g := { f with stage := .creating }) rfl rfl rfl (.inr rfl)
        (iff_of_true rfl rfl) rfl rfl rfl (h.located_of_client_none hf hclient rfl _)
        (fun x hx ↦ hx) h.hashes h.entries (fun _ ↦ habsent) ?_ ?_
      · rintro (h | h)
        · cases h
        · cases h
      · -- A `Close` that has drained the map has set the flag before.
        rintro ⟨k, hk⟩
        exact absurd (h.closed k hk.1) hopen

theorem createClient (h : Inv s) (hf : s.flights key = some f) (hstage : f.stage = .creating)
    (c : Creation) : Inv (s.createClient key f c) := by
  obtain ⟨loc, hloc⟩ := h.located
  have hlocked : s.locked = some key := (h.lock key f hf).mp (by rw [hstage]; rfl)
  have hclient : (s.flights key).bind (·.stage.client) = none := by
    rw [hf, bind_some, hstage]
    rfl
  cases c with
  | client =>
    refine h.flight hf (.inr hlocked) (g := { f with stage := .replaying s.created }) rfl rfl rfl
      (.inr hlocked) (iff_of_true rfl hlocked) rfl rfl rfl ?_ (fun x hx ↦ hx) h.hashes h.entries
      (fun _ ↦ h.absent key f hf (by rw [hstage]; rfl)) ?_ ?_
    · have hcreate := hloc.create hclient (some { f with stage := .replaying s.created })
        (.inl ⟨rfl, rfl, rfl⟩) s.locked
      rw [closeClient_zero] at hcreate
      exact ⟨_, hcreate⟩
    · rintro (h | h)
      · cases h
      · cases h
    · rintro ⟨k, hk⟩
      exact absurd hk (h.not_drained hlocked k)
  | none =>
    exact h.finish hf (.inr hlocked) false nofun rfl rfl rfl rfl rfl rfl rfl rfl
      (h.located_of_client_none hf (by rw [hstage]; rfl) rfl _)
  | abandoned =>
    refine h.finish hf (.inr hlocked) false nofun rfl rfl rfl rfl rfl rfl rfl rfl ?_
    exact ⟨_, hloc.create hclient (some { f with stage := .done false }) (.inr ⟨rfl, rfl, rfl⟩)
      none⟩

/-- A setup keeps its client for the next stage. -/
theorem nextStage (h : Inv s) (hf : s.flights key = some f) {c : ℕ}
    (hc : f.stage.client = some c) {stage : Stage} (hstage : stage.client = some c) :
    Inv (s.setFlight key (some { f with stage := stage })) := by
  obtain ⟨loc, hloc⟩ := h.located
  have hsetting := Stage.setting_of_client hc
  have hlocked := (h.lock key f hf).mp (Stage.running_of_setting hsetting)
  have hrunning := Stage.running_of_setting (Stage.setting_of_client hstage)
  refine h.flight hf (.inr hlocked) rfl rfl rfl (.inr hlocked) (iff_of_true hrunning hlocked)
    rfl rfl rfl ⟨loc, hloc.setFlight _ ?_⟩ (fun x hx ↦ hx) h.hashes h.entries
    (fun _ ↦ h.absent key f hf hsetting) ?_ ?_
  · rw [hf, bind_some, bind_some, hc, hstage]
  · rintro (rfl | rfl)
    · cases hstage
    · cases hstage
  · rintro ⟨k, hk⟩
    exact absurd hk (h.not_drained hlocked k)

/-- The last stage installs the client, under its key and with the hash. -/
theorem install (h : Inv s) (hf : s.flights key = some f) {c : ℕ}
    (hc : f.stage.client = some c) : Inv (s.install key f c) := by
  obtain ⟨loc, hloc⟩ := h.located
  have hsetting := Stage.setting_of_client hc
  have hlocked := (h.lock key f hf).mp (Stage.running_of_setting hsetting)
  have hhash (k : String) (hne : k ≠ key) :
      (s.install key f c).replayedHashs k = s.replayedHashs k := update_of_ne hne ..
  have hself : (s.install key f c).replayedHashs key = some f.hash := update_self ..
  refine h.flight hf (.inr hlocked) (g := { f with stage := .logging }) rfl rfl rfl (.inr hlocked)
    (iff_of_true rfl hlocked) rfl rfl rfl ⟨_, hloc.install hf hc (h.absent key f hf hsetting)⟩
    (fun x hx ↦ mem_cons_of_mem _ hx) (fun k hash hk ↦ ?_) (fun k c' hc' ↦ ?_) nofun
    (fun _ ↦ mem_cons_self) ?_
  · by_cases hne : k = key
    · subst hne
      cases hself.symm.trans hk
      exact mem_cons_self
    · exact mem_cons_of_mem _ (h.hashes k hash ((hhash k hne).symm.trans hk))
  · by_cases hne : k = key
    · subst hne
      exact hself ▸ some_ne_none f.hash
    · rw [hhash k hne]
      rcases mem_cons.mp hc' with heq | hmem
      · exact absurd (congrArg Prod.fst heq) hne
      · exact h.entries k c' (mem_of_mem_filter hmem)
  · rintro ⟨k, hk⟩
    exact absurd hk (h.not_drained hlocked k)

/-- A stage leads to the next one, or its client is closed. -/
theorem workStage (h : Inv s) (hf : s.flights key = some f) {c : ℕ}
    (hc : f.stage.client = some c) {o : Outcome} (ho : o ≠ .fails true) {next : State}
    (hnext : Inv next) : Inv (s.workStage key f c next o) := by
  obtain ⟨loc, hloc⟩ := h.located
  have hlocked := (h.lock key f hf).mp (Stage.running_of_setting (Stage.setting_of_client hc))
  have hclose : Inv ((s.finish key f false).closeClient c 1) :=
    h.finish hf (.inr hlocked) false nofun rfl rfl rfl rfl rfl rfl rfl rfl
      ⟨_, hloc.closeSetup hf hc false⟩
  cases o with
  | ok => exact hnext
  | fails rollbackPanics =>
    cases rollbackPanics with
    | true => exact absurd rfl ho
    | false => exact hclose
  | panics => exact hclose

/-- A setup works with its client. -/
theorem work (h : Inv s) (hf : s.flights key = some f) {o : Outcome} (ho : o ≠ .fails true)
    (hwork : s.work key f o = some t) : Inv t := by
  have hclient {stage : Stage} (hstage : f.stage = stage) : f.stage.client = stage.client := by
    rw [hstage]
  rw [State.work] at hwork
  split at hwork
  · next c hstage =>
    cases hwork
    exact h.workStage hf (hclient hstage) ho (h.nextStage hf (hclient hstage) rfl)
  · next c hstage =>
    cases hwork
    exact h.workStage hf (hclient hstage) ho (h.nextStage hf (hclient hstage) rfl)
  · next c hstage =>
    cases hwork
    exact h.workStage hf (hclient hstage) ho (h.install hf (hclient hstage))
  · cases hwork

theorem log (h : Inv s) (hf : s.flights key = some f) (hstage : f.stage = .logging)
    (ok : Bool) : Inv (s.finish key f ok) := by
  have hlocked : s.locked = some key := (h.lock key f hf).mp (by rw [hstage]; rfl)
  exact h.finish hf (.inr hlocked) ok (fun _ ↦ h.success key f hf (.inl hstage)) rfl rfl rfl rfl
    rfl rfl rfl rfl (h.located_of_client_none hf (by rw [hstage]; rfl) rfl _)

/-! ### Calls -/

theorem located_of_places {loc : ℕ → Loc} (hloc : s.Located loc) (hflights : t.flights = s.flights)
    (hconsumers : t.consumers = s.consumers) (hclosers : t.closers = s.closers)
    (hcreated : t.created = s.created) (hcloses : t.closes = s.closes) : t.Located loc := by
  refine hloc.stay (fun l c ↦ ?_) hcreated hcloses (hclosers ▸ hloc.closing)
    (hconsumers ▸ hloc.keys)
  cases l with
  | setup key' => rw [State.Place, State.Place, hflights]
  | entry key' => rw [State.Place, State.Place, hconsumers]
  | closer k => rw [State.Place, State.Place, hclosers]
  | closed => rw [State.Place, State.Place, hcreated, hcloses]

/-- A call goes on by itself. -/
theorem setCall (h : Inv s) {i : ℕ} {c : Call}
    (hasked : ∀ c', s.calls i = some c' → c'.pc.asked →
      c.key = c'.key ∧ c.hash = c'.hash ∧ c.pc.asked)
    (hreturned : c.pc = .returned true → (c.key, c.hash) ∈ s.setups) : Inv (s.setCall i c) := by
  obtain ⟨loc, hloc⟩ := h.located
  refine ⟨⟨loc, located_of_places hloc rfl rfl rfl rfl rfl⟩, h.lock, h.holder, h.hashes, h.entries,
    h.absent, h.success, fun key f hf j hj ↦ ?_, fun j c' hc' hpc ↦ ?_, h.closed, h.drained⟩
  · obtain ⟨c', hc', hkey, hhash, hpc⟩ := h.waiters key f hf j hj
    by_cases hne : j = i
    · subst hne
      obtain ⟨hkey', hhash', hpc'⟩ := hasked c' hc' hpc
      exact ⟨c, setCall_self .., hkey'.trans hkey, hhash'.trans hhash, hpc'⟩
    · exact ⟨c', (setCall_of_ne s hne c).trans hc', hkey, hhash, hpc⟩
  · by_cases hne : j = i
    · subst hne
      cases (setCall_self s j c).symm.trans hc'
      exact hreturned hpc
    · rw [setCall_of_ne s hne] at hc'
      exact h.returned j c' hc' hpc

/-- A call joins a flight of its own declarations, or leads a new one. -/
theorem ask (h : Inv s) {i : ℕ} {c : Call} (hc : s.calls i = some c) (hpc : c.pc = .ask)
    (hown : ∀ f ∈ s.flights c.key, f.hash = c.hash) (hhash : g.hash = c.hash)
    (hg : g.stage = .queued ∧ g.waiters = [i] ∧ s.flights c.key = none ∨
      ∃ f, s.flights c.key = some f ∧ g.stage = f.stage ∧ g.waiters = i :: f.waiters) :
    Inv ((s.setFlight c.key (some g)).setCall i { c with pc := .wait }) := by
  obtain ⟨loc, hloc⟩ := h.located
  have hclient : (some g).bind (·.stage.client) = (s.flights c.key).bind (·.stage.client) := by
    rcases hg with ⟨hstage, -, hnone⟩ | ⟨f, hf, hstage, -⟩
    · rw [hnone, bind_some, hstage]
      rfl
    · rw [hf, bind_some, bind_some, hstage]
  have hlock : g.stage.running ↔ s.locked = some c.key := by
    rcases hg with ⟨hstage, -, hnone⟩ | ⟨f, hf, hstage, -⟩
    · rw [hstage]
      exact iff_of_false false_ne_true fun hk ↦ h.holder _ hk hnone
    · rw [hstage]
      exact h.lock _ f hf
  -- The other flights are as they were.
  have hother : ∀ {k e}, k ≠ c.key → (s.setFlight c.key (some g)).flights k = some e →
      s.flights k = some e := fun hne he ↦ (setFlight_of_ne s hne _).symm.trans he
  have hnot : ∀ {j c'}, s.calls j = some c' → c'.pc.asked → j ≠ i := by
    rintro j c' hc' hasked rfl
    cases hc.symm.trans hc'
    rw [hpc] at hasked
    cases hasked
  have hset : (s.setFlight c.key (some g)).Located loc := hloc.setFlight _ hclient
  have hlocated := located_of_places hset
    (t := (s.setFlight c.key (some g)).setCall i { c with pc := .wait }) rfl rfl rfl rfl rfl
  refine ⟨⟨loc, hlocated⟩, fun k e he ↦ ?_, fun k hk ↦ ?_, h.hashes, h.entries,
    fun k e he hsetting ↦ ?_, fun k e he hdone ↦ ?_, fun k e he j hj ↦ ?_, fun j c' hc' hret ↦ ?_,
    h.closed, h.drained⟩
  · by_cases hne : k = c.key
    · subst hne
      cases (setFlight_self s c.key _).symm.trans he
      exact hlock
    · exact h.lock k e (hother hne he)
  · by_cases hne : k = c.key
    · subst hne
      rw [State.setCall, setFlight_self]
      exact some_ne_none g
    · rw [State.setCall, setFlight_of_ne s hne]
      exact h.holder k hk
  · by_cases hne : k = c.key
    · subst hne
      cases (setFlight_self s c.key _).symm.trans he
      rcases hg with ⟨hstage, -, -⟩ | ⟨f, hf, hstage, -⟩
      · rw [hstage] at hsetting
        cases hsetting
      · exact h.absent _ f hf (hstage ▸ hsetting)
    · exact h.absent k e (hother hne he) hsetting
  · by_cases hne : k = c.key
    · subst hne
      cases (setFlight_self s c.key _).symm.trans he
      rcases hg with ⟨hstage, -, -⟩ | ⟨f, hf, hstage, -⟩
      · rw [hstage] at hdone
        rcases hdone with hdone | hdone
        · cases hdone
        · cases hdone
      · rw [hhash, ← hown f hf]
        exact h.success _ f hf (hstage ▸ hdone)
    · exact h.success k e (hother hne he) hdone
  · have hold : ∀ f, s.flights k = some f → f.hash = e.hash → j ∈ f.waiters →
        ∃ c', ((s.setFlight c.key (some g)).setCall i { c with pc := .wait }).calls j = some c' ∧
          c'.key = k ∧ c'.hash = e.hash ∧ c'.pc.asked := by
      intro f hf hfe hjf
      obtain ⟨c', hc', hkey, hhash', hasked⟩ := h.waiters k f hf j hjf
      exact ⟨c', (setCall_of_ne _ (hnot hc' hasked) _).trans hc', hkey, hhash'.trans hfe,
        hasked⟩
    by_cases hne : k = c.key
    · subst hne
      cases (setFlight_self s c.key _).symm.trans he
      have hself := setCall_self (s.setFlight c.key (some g)) i { c with pc := .wait }
      rcases hg with ⟨-, hwaiters, -⟩ | ⟨f, hf, -, hwaiters⟩
      · rw [hwaiters, mem_singleton] at hj
        subst hj
        exact ⟨_, hself, rfl, hhash.symm, rfl⟩
      · rw [hwaiters, mem_cons] at hj
        rcases hj with rfl | hj
        · exact ⟨_, hself, rfl, hhash.symm, rfl⟩
        · exact hold f hf ((hown f hf).trans hhash.symm) hj
    · exact hold e (hother hne he) rfl hj
  · by_cases hne : j = i
    · subst hne
      cases (setCall_self ..).symm.trans hc'
      cases hret
    · exact h.returned j c' ((setCall_of_ne _ hne _).symm.trans hc') hret

theorem answer_fields (ok : Bool) (c : Call) : (State.answer ok c).key = c.key ∧
    (State.answer ok c).hash = c.hash ∧ (c.pc.asked → (State.answer ok c).pc.asked) ∧
    ((State.answer ok c).pc = .returned true → c.pc = .returned true ∨ ok = true) := by
  rw [State.answer]
  split
  · refine ⟨rfl, rfl, fun _ ↦ rfl, fun hret ↦ .inr ?_⟩
    cases hret
    rfl
  · exact ⟨rfl, rfl, id, .inl⟩

/-- The flight answers its callers. -/
theorem deliver (h : Inv s) (hf : s.flights key = some f) {ok : Bool}
    (hstage : f.stage = .done ok) :
    Inv { s.setFlight key none with
      calls := fun i ↦
        if i ∈ f.waiters then (s.calls i).map (State.answer ok) else s.calls i } := by
  obtain ⟨loc, hloc⟩ := h.located
  have hother : ∀ {k e}, (s.setFlight key none).flights k = some e →
      k ≠ key ∧ s.flights k = some e := by
    intro k e he
    have hne : k ≠ key := by
      rintro rfl
      cases (setFlight_self s k none).symm.trans he
    exact ⟨hne, (setFlight_of_ne s hne none).symm.trans he⟩
  have hclient : none = (s.flights key).bind (·.stage.client) := by
    rw [hf, bind_some, hstage]
    rfl
  refine ⟨⟨loc, located_of_places (hloc.setFlight none hclient) rfl rfl rfl rfl rfl⟩,
    fun k e he ↦ h.lock k e (hother he).2, fun k hk ↦ ?_, h.hashes, h.entries,
    fun k e he ↦ h.absent k e (hother he).2, fun k e he ↦ h.success k e (hother he).2,
    fun k e he j hj ↦ ?_, fun j c hc hret ↦ ?_, h.closed, h.drained⟩
  · have hne : k ≠ key := by
      rintro rfl
      have hrunning := (h.lock k f hf).mpr hk
      rw [hstage] at hrunning
      cases hrunning
    rw [setFlight_of_ne s hne]
    exact h.holder k hk
  · obtain ⟨c, hc, hkey, hhash, hasked⟩ := h.waiters k e (hother he).2 j hj
    dsimp only
    split
    · obtain ⟨hkey', hhash', hasked', -⟩ := answer_fields ok c
      rw [hc]
      exact ⟨_, rfl, hkey'.trans hkey, hhash'.trans hhash, hasked' hasked⟩
    · exact ⟨c, hc, hkey, hhash, hasked⟩
  · dsimp only at hc
    split at hc
    · next hj =>
      obtain ⟨c', hc', rfl⟩ := map_eq_some_iff.mp hc
      obtain ⟨hkey, hhash, -, hok⟩ := answer_fields ok c'
      rw [hkey, hhash]
      rcases hok hret with hret' | rfl
      · exact h.returned j c' hc' hret'
      · obtain ⟨c'', hc'', hkey', hhash', -⟩ := h.waiters key f hf j hj
        cases hc'.symm.trans hc''
        rw [hkey', hhash']
        exact h.success key f hf (.inr hstage)
    · exact h.returned j c hc hret

/-! ### Close -/

/-- A `Close` takes a step. -/
theorem closer (h : Inv s) {k : ℕ} {o : Closer} (hlocated : ∃ loc, t.Located loc)
    (hclosers : t.closers = (s.setCloser k o).closers) (hflights : t.flights = s.flights)
    (hlocked : t.locked = s.locked) (hcalls : t.calls = s.calls) (hsetups : t.setups = s.setups)
    (hclosed : t.closed)
    (hreplayed : t.consumers = s.consumers ∧ t.replayedHashs = s.replayedHashs ∨
      t.consumers = [] ∧ t.replayedHashs = fun _ ↦ none)
    (hdrained : o ≠ .begun → t.consumers = [] ∧ t.locked = none) : Inv t := by
  have hsub : ∀ x ∈ t.consumers, x ∈ s.consumers := by
    rcases hreplayed with ⟨hconsumers, -⟩ | ⟨hconsumers, -⟩
    · exact fun x hx ↦ hconsumers ▸ hx
    · rw [hconsumers]
      exact fun x hx ↦ (nomatch hx)
  refine ⟨hlocated, ?_, ?_, fun key' hash hhash ↦ ?_, fun key' c hc ↦ ?_,
    fun key' e he hsetting c hc ↦ ?_, ?_, ?_, ?_, fun _ _ ↦ hclosed, fun k' hk' ↦ ?_⟩
  · rw [hflights, hlocked]
    exact h.lock
  · rw [hflights, hlocked]
    exact h.holder
  · rw [hsetups]
    rcases hreplayed with ⟨-, hreplayed⟩ | ⟨-, hreplayed⟩
    · exact h.hashes key' hash (hreplayed ▸ hhash)
    · rw [hreplayed] at hhash
      cases hhash
  · rcases hreplayed with ⟨hconsumers, hreplayed⟩ | ⟨hconsumers, -⟩
    · rw [hreplayed]
      exact h.entries key' c (hconsumers ▸ hc)
    · rw [hconsumers] at hc
      cases hc
  · exact h.absent key' e (hflights ▸ he) hsetting c (hsub _ hc)
  · rw [hflights, hsetups]
    exact h.success
  · rw [hflights, hcalls]
    exact h.waiters
  · rw [hcalls, hsetups]
    exact h.returned
  · by_cases hne : k' = k
    · subst hne
      refine hdrained fun ho ↦ hk'.2 ?_
      rw [hclosers, setCloser_self, ho]
    · rw [State.Drained, hclosers, setCloser_of_ne s hne] at hk'
      obtain ⟨hnil, hfree⟩ := h.drained k' hk'
      refine ⟨eq_nil_iff_forall_not_mem.mpr fun x hx ↦ ?_, hlocked.trans hfree⟩
      have := hsub x hx
      rw [hnil] at this
      cases this

end Inv

/-! ### Runs -/

/-- Every orderly step keeps the invariant. -/
theorem Inv.step {s t : State} {l : Label} (h : Inv s) (hl : s.Orderly l)
    (hstep : s.step l = some t) : Inv t := by
  obtain ⟨loc, hloc⟩ := h.located
  cases l with
  | call i key hash =>
    rw [State.step] at hstep
    split at hstep
    · next hnone =>
      cases hstep
      refine h.setCall (fun c' hc' ↦ nomatch hnone.symm.trans hc') fun hret ↦ ?_
      split at hret
      · cases hret
      · cases hret
    · cases hstep
  | fast i locked =>
    obtain ⟨c, hc, hstep⟩ := bind_eq_some_iff.mp hstep
    split at hstep
    · next hguard =>
      cases hstep
      refine h.setCall (fun c' hc' hasked ↦ ?_) fun hret ↦ ?_
      · cases hc.symm.trans hc'
        rw [hguard.1] at hasked
        cases hasked
      · split at hret
        · next hreplayed =>
          exact h.hashes _ _ (eq_of_beq (and_eq_true_iff.mp hreplayed).2)
        · cases hret
    · cases hstep
  | ask i =>
    obtain ⟨c, hc, hstep⟩ := bind_eq_some_iff.mp hstep
    split at hstep
    · next hpc =>
      cases hstep
      have hown := hl.1 c hc
      cases hf : s.flights c.key with
      | none => exact h.ask hc hpc hown rfl (.inl ⟨rfl, rfl, hf⟩)
      | some f => exact h.ask hc hpc hown (hown f hf) (.inr ⟨f, hf, rfl, rfl⟩)
    · cases hstep
  | giveUp i =>
    obtain ⟨c, hc, hstep⟩ := bind_eq_some_iff.mp hstep
    split at hstep
    · cases hstep
      refine h.setCall (fun c' hc' _ ↦ ?_) nofun
      cases hc.symm.trans hc'
      exact ⟨rfl, rfl, rfl⟩
    · cases hstep
  | lock key panics =>
    obtain ⟨f, hf, hstep⟩ := bind_eq_some_iff.mp hstep
    split at hstep
    · next hguard =>
      cases hstep
      exact h.lockSetup hf hguard.1 hguard.2 panics
    · cases hstep
  | create key c =>
    obtain ⟨f, hf, hstep⟩ := bind_eq_some_iff.mp hstep
    split at hstep
    · next hstage =>
      cases hstep
      exact h.createClient hf hstage c
    · cases hstep
  | work key o =>
    obtain ⟨f, hf, hstep⟩ := bind_eq_some_iff.mp hstep
    exact h.work hf hl.1 hstep
  | log key panics =>
    obtain ⟨f, hf, hstep⟩ := bind_eq_some_iff.mp hstep
    split at hstep
    · next hstage =>
      cases hstep
      exact h.log hf hstage _
    · cases hstep
  | deliver key =>
    obtain ⟨f, hf, hstep⟩ := bind_eq_some_iff.mp hstep
    split at hstep
    · next ok hstage =>
      cases hstep
      exact h.deliver hf hstage
    · cases hstep
  | closeBegin k =>
    rw [State.step] at hstep
    split at hstep
    · next hnone =>
      cases hstep
      have hlocated := hloc.setCloser (t := { s.setCloser k .begun with closed := true })
        (fun c cs heq ↦ Closer.noConfusion heq) (fun c cs hk ↦ nomatch hnone.symm.trans hk)
        rfl rfl rfl rfl rfl
      exact h.closer ⟨loc, hlocated⟩ rfl rfl rfl rfl rfl rfl (.inl ⟨rfl, rfl⟩)
        (fun hne ↦ absurd rfl hne)
    · cases hstep
  | drain k =>
    rw [State.step] at hstep
    split at hstep
    · next hguard =>
      cases hstep
      have hclosed : s.closed := h.closed k (by rw [hguard.1]; exact some_ne_none _)
      exact h.closer ⟨_, hloc.drain hguard.1⟩ rfl rfl rfl rfl rfl hclosed (.inr ⟨rfl, rfl⟩)
        (fun _ ↦ ⟨rfl, hguard.2⟩)
    · cases hstep
  | closeNext k =>
    rw [State.step] at hstep
    split at hstep
    · next c cs hk =>
      cases hstep
      have hclosed : s.closed := h.closed k (by rw [hk]; exact some_ne_none _)
      exact h.closer ⟨_, hloc.closeNext hk⟩ rfl rfl rfl rfl rfl hclosed (.inl ⟨rfl, rfl⟩)
        (fun _ ↦ h.drained k (drained_of_closing hk))
    · cases hstep
  | closeReturn k =>
    rw [State.step] at hstep
    split at hstep
    · next hk =>
      cases hstep
      have hclosed : s.closed := h.closed k (by rw [hk]; exact some_ne_none _)
      have hlocated := hloc.setCloser (t := s.setCloser k .returned)
        (fun c cs heq ↦ Closer.noConfusion heq) (fun c cs hk' ↦ nomatch hk.symm.trans hk')
        rfl rfl rfl rfl rfl
      exact h.closer ⟨loc, hlocated⟩ rfl rfl rfl rfl rfl hclosed (.inl ⟨rfl, rfl⟩)
        (fun _ ↦ h.drained k (drained_of_closing hk))
    · cases hstep

/-- The invariant holds along every orderly run. -/
theorem Inv.of_reach {s : State} (h : system.Reach State.Orderly s) : Inv s := by
  refine StepSystem.Reach.invariant (P := Inv) ?_ ?_ h
  · rintro s rfl
    exact Inv.init
  · intro s l t _ hl hs hstep
    exact hs.step hl hstep

/-! ### What holds in every state -/

/-- A setup or a `Close` that is under way still has the client. -/
def State.Held (s : State) (c : ℕ) : Prop :=
  (∃ key f, s.flights key = some f ∧ f.stage.client = some c) ∨
    ∃ k cs, s.closers k = some (.closing cs) ∧ c ∈ cs

/-- A client is closed once, or it is the client of one entry. -/
def State.Kept (s : State) (c : ℕ) : Prop :=
  s.closes c = 1 ∧ (∀ key, (key, c) ∉ s.consumers) ∨ s.closes c = 0 ∧ ∃! key, (key, c) ∈ s.consumers

section

variable {s t : State} {loc : ℕ → Loc}

/-- A client that nobody holds is kept or closed. -/
theorem State.Located.kept (h : s.Located loc) {c : ℕ} (hc : c < s.created) (hheld : ¬s.Held c) :
    s.Kept c := by
  have hplace := h.placed c hc
  cases hloc : loc c with
  | setup key =>
    rw [hloc] at hplace
    exact absurd (.inl ⟨key, hplace⟩) hheld
  | closer k =>
    rw [hloc] at hplace
    exact absurd (.inr ⟨k, hplace⟩) hheld
  | entry key =>
    rw [hloc] at hplace
    refine .inr ⟨h.closes_eq_zero hplace (fun heq ↦ Loc.noConfusion heq), key, hplace,
      fun key' hkey ↦ ?_⟩
    have hplace' : s.Place (.entry key') c := hkey
    cases (h.place_iff hplace).mp hplace'
    rfl
  | closed =>
    rw [hloc] at hplace
    refine .inl ⟨?_, fun key hkey ↦ ?_⟩
    · have := h.once c
      have := hplace.2
      omega
    · have hplace' : s.Place (.entry key) c := hkey
      cases (h.place_iff hplace).mp hplace'

/-- No setup is under way when nobody holds the lock. -/
theorem Inv.client_eq_none (h : Inv s) (hlocked : s.locked = none) {key : String} {f : Flight}
    (hf : s.flights key = some f) : f.stage.client = none := by
  rw [eq_none_iff_forall_ne_some]
  intro c hc
  have hrunning := Stage.running_of_setting (Stage.setting_of_client hc)
  cases hlocked.symm.trans ((h.lock key f hf).mp hrunning)

/-- The checks complete no setup and leave every `Close` alone. -/
theorem State.lockSetup_frame (s : State) (key : String) (f : Flight) (panics : Bool) :
    (s.lockSetup key f panics).setups = s.setups ∧
      (s.lockSetup key f panics).closers = s.closers := by
  rw [State.lockSetup]
  split
  · exact ⟨rfl, rfl⟩
  · split
    · exact ⟨rfl, rfl⟩
    · split <;> exact ⟨rfl, rfl⟩

/-- Only a setup that holds the lock completes. -/
theorem Inv.setups_eq (h : Inv s) (hlocked : s.locked = none) {l : Label}
    (hstep : s.step l = some t) : t.setups = s.setups := by
  cases l with
  | call i key hash =>
    rw [State.step, ite_none_right_eq_some] at hstep
    exact (Option.some.inj hstep.2) ▸ rfl
  | fast i locked | ask i | giveUp i =>
    obtain ⟨c, -, hstep⟩ := bind_eq_some_iff.mp hstep
    rw [ite_none_right_eq_some] at hstep
    exact (Option.some.inj hstep.2) ▸ rfl
  | lock key panics =>
    obtain ⟨f, -, hstep⟩ := bind_eq_some_iff.mp hstep
    rw [ite_none_right_eq_some] at hstep
    exact (Option.some.inj hstep.2) ▸ (s.lockSetup_frame key f panics).1
  | create key c =>
    obtain ⟨f, -, hstep⟩ := bind_eq_some_iff.mp hstep
    rw [ite_none_right_eq_some] at hstep
    rw [← Option.some.inj hstep.2]
    cases c with
    | client | none | abandoned => rfl
  | work key o =>
    obtain ⟨f, hf, hstep⟩ := bind_eq_some_iff.mp hstep
    have hclient := h.client_eq_none hlocked hf
    cases hstage : f.stage with
    | replaying c | declaring c | starting c =>
      rw [hstage] at hclient
      cases hclient
    | _ =>
      rw [State.work, hstage] at hstep
      cases hstep
  | log key panics =>
    obtain ⟨f, -, hstep⟩ := bind_eq_some_iff.mp hstep
    rw [ite_none_right_eq_some] at hstep
    exact (Option.some.inj hstep.2) ▸ rfl
  | deliver key =>
    obtain ⟨f, -, hstep⟩ := bind_eq_some_iff.mp hstep
    split at hstep
    · exact (Option.some.inj hstep) ▸ rfl
    · cases hstep
  | closeBegin k | drain k =>
    rw [State.step, ite_none_right_eq_some] at hstep
    exact (Option.some.inj hstep.2) ▸ rfl
  | closeNext k =>
    rw [State.step] at hstep
    split at hstep
    · exact (Option.some.inj hstep) ▸ rfl
    · cases hstep
  | closeReturn k =>
    rw [State.step, ite_none_right_eq_some] at hstep
    exact (Option.some.inj hstep.2) ▸ rfl

/-! ### `Close` calls one after another -/

theorem State.closers_work {key : String} {f : Flight} {o : Outcome}
    (h : s.work key f o = some t) : t.closers = s.closers := by
  rw [State.work] at h
  split at h <;> cases h <;> cases o <;> rfl

/-- What a step does to a `Close`. -/
inductive CloserStep (s : State) (k : ℕ) : Closer → Prop
  | drain : s.closers k = some .begun → CloserStep s k (.closing (s.consumers.map Prod.snd))
  | next {c : ℕ} {cs : List ℕ} : s.closers k = some (.closing (c :: cs)) →
    CloserStep s k (.closing cs)
  | done : s.closers k = some (.closing []) → CloserStep s k .returned

/-- A step begins a `Close`, takes one on, or leaves all of them alone. -/
theorem closers_of_step {l : Label} (hstep : s.step l = some t) :
    t.closers = s.closers ∨
      (∃ k, l.closes = true ∧ t.closers = (s.setCloser k .begun).closers) ∨
      ∃ k o, CloserStep s k o ∧ t.closers = (s.setCloser k o).closers := by
  cases l with
  | call i key hash =>
    rw [State.step, ite_none_right_eq_some] at hstep
    exact .inl ((Option.some.inj hstep.2) ▸ rfl)
  | fast i locked | ask i | giveUp i =>
    obtain ⟨c, -, hstep⟩ := bind_eq_some_iff.mp hstep
    rw [ite_none_right_eq_some] at hstep
    exact .inl ((Option.some.inj hstep.2) ▸ rfl)
  | lock key panics =>
    obtain ⟨f, -, hstep⟩ := bind_eq_some_iff.mp hstep
    rw [ite_none_right_eq_some] at hstep
    exact .inl ((Option.some.inj hstep.2) ▸ (s.lockSetup_frame key f panics).2)
  | create key c =>
    obtain ⟨f, -, hstep⟩ := bind_eq_some_iff.mp hstep
    rw [ite_none_right_eq_some] at hstep
    rw [← Option.some.inj hstep.2]
    cases c with
    | client | none | abandoned => exact .inl rfl
  | work key o =>
    obtain ⟨f, -, hstep⟩ := bind_eq_some_iff.mp hstep
    exact .inl (State.closers_work hstep)
  | log key panics =>
    obtain ⟨f, -, hstep⟩ := bind_eq_some_iff.mp hstep
    rw [ite_none_right_eq_some] at hstep
    exact .inl ((Option.some.inj hstep.2) ▸ rfl)
  | deliver key =>
    obtain ⟨f, -, hstep⟩ := bind_eq_some_iff.mp hstep
    split at hstep
    · exact .inl ((Option.some.inj hstep) ▸ rfl)
    · cases hstep
  | closeBegin k =>
    rw [State.step, ite_none_right_eq_some] at hstep
    exact .inr (.inl ⟨k, rfl, (Option.some.inj hstep.2) ▸ rfl⟩)
  | drain k =>
    rw [State.step, ite_none_right_eq_some] at hstep
    exact .inr (.inr ⟨k, _, .drain hstep.1.1, (Option.some.inj hstep.2) ▸ rfl⟩)
  | closeNext k =>
    rw [State.step] at hstep
    split at hstep
    · next c cs hk => exact .inr (.inr ⟨k, _, .next hk, (Option.some.inj hstep) ▸ rfl⟩)
    · cases hstep
  | closeReturn k =>
    rw [State.step, ite_none_right_eq_some] at hstep
    exact .inr (.inr ⟨k, _, .done hstep.1, (Option.some.inj hstep.2) ▸ rfl⟩)

/-- One `Close` at most is under way, and after one has returned none has a client to close. -/
structure Alone (s : State) : Prop where
  unique : ∀ k k', s.UnderWay k → s.UnderWay k' → k = k'
  emptied : ∀ k k' cs, s.closers k = some .returned → s.closers k' = some (.closing cs) → cs = []

theorem State.underWay_of_closing {k : ℕ} {cs : List ℕ} (h : s.closers k = some (.closing cs)) :
    s.UnderWay k := by
  rw [UnderWay, h]
  exact ⟨some_ne_none _, fun heq ↦ Closer.noConfusion (Option.some.inj heq)⟩

theorem CloserStep.underWay {k : ℕ} {o : Closer} (h : CloserStep s k o) : s.UnderWay k := by
  cases h with
  | drain hk =>
    rw [State.UnderWay, hk]
    exact ⟨some_ne_none _, fun heq ↦ Closer.noConfusion (Option.some.inj heq)⟩
  | next hk | done hk => exact State.underWay_of_closing hk

/-- Every orderly step keeps a closer alone. -/
theorem Alone.step {l : Label} (h : Alone s) (hinv : Inv s) (hl : s.Orderly l)
    (hstep : s.step l = some t) : Alone t := by
  rcases closers_of_step hstep with hclosers | ⟨k, hbegin, hclosers⟩ | ⟨k, o, hk, hclosers⟩
  · exact ⟨by simpa only [State.UnderWay, hclosers] using h.unique,
      by simpa only [hclosers] using h.emptied⟩
  · have hself : t.closers k = some .begun := hclosers ▸ s.setCloser_self k .begun
    have hother {k' : ℕ} (hne : k' ≠ k) : t.closers k' = s.closers k' :=
      hclosers ▸ s.setCloser_of_ne hne .begun
    have honly {k' : ℕ} (hk' : t.UnderWay k') : k' = k := by
      by_contra hne
      rw [State.UnderWay, hother hne] at hk'
      exact hl.2 hbegin k' hk'
    refine ⟨fun k₁ k₂ h₁ h₂ ↦ (honly h₁).trans (honly h₂).symm, fun k₁ k₂ cs h₁ h₂ ↦ ?_⟩
    cases honly (State.underWay_of_closing h₂)
    cases hself.symm.trans h₂
  · have hself : t.closers k = some o := hclosers ▸ s.setCloser_self k o
    have hother {k' : ℕ} (hne : k' ≠ k) : t.closers k' = s.closers k' :=
      hclosers ▸ s.setCloser_of_ne hne o
    have hold {k' : ℕ} (hk' : t.UnderWay k') : s.UnderWay k' := by
      by_cases hne : k' = k
      · exact hne ▸ hk.underWay
      · rwa [State.UnderWay, hother hne] at hk'
    refine ⟨fun k₁ k₂ h₁ h₂ ↦ h.unique k₁ k₂ (hold h₁) (hold h₂), fun k₁ k₂ cs h₁ h₂ ↦ ?_⟩
    -- Whoever is closing is the `Close` that moves, since no other one is under way.
    obtain rfl : k₂ = k := h.unique k₂ k (hold (State.underWay_of_closing h₂)) hk.underWay
    cases hself.symm.trans h₂
    have hne : k₁ ≠ k₂ := by
      rintro rfl
      cases h₁.symm.trans h₂
    rw [hother hne] at h₁
    cases hk with
    | drain hk =>
      have hdrained : s.Drained k₁ := by
        rw [State.Drained, h₁]
        exact ⟨some_ne_none _, fun heq ↦ Closer.noConfusion (Option.some.inj heq)⟩
      rw [(hinv.drained k₁ hdrained).1, List.map_nil]
    | next hk => cases h.emptied k₁ k₂ _ h₁ hk

/-- A closer is alone, along every orderly run. -/
theorem Alone.of_reach (h : system.Reach State.Orderly s) : Alone s := by
  refine StepSystem.Reach.invariant (P := Alone) ?_ ?_ h
  · rintro s rfl
    exact ⟨fun k _ hk ↦ absurd rfl hk.1, fun k _ _ hk ↦ by cases hk⟩
  · intro s l t hr hl hs hstep
    exact hs.step (Inv.of_reach hr) hl hstep

/-- **In an orderly run**, in which calls that overlap carry the same declarations, no rollback
panics and no `Close` begins while another one is under way: a call has succeeded only if its
declarations were set up; each client that no setup and no `Close` holds is closed once or in one
entry; and when a `Close` has returned, no step installs an entry, the map is empty, and every
client that was created is closed once. -/
theorem ensureConsumers_sound (h : system.Reach State.Orderly s) :
    (∀ i c, s.calls i = some c → c.pc = .returned true → (c.key, c.hash) ∈ s.setups) ∧
      (∀ c < s.created, ¬s.Held c → s.Kept c) ∧
      ∀ k, s.closers k = some .returned →
        (∀ l t, system.step s l = some t → t.setups = s.setups) ∧ s.consumers = [] ∧
          ∀ c < s.created, s.closes c = 1 := by
  have hinv := Inv.of_reach h
  obtain ⟨loc, hloc⟩ := hinv.located
  refine ⟨hinv.returned, fun c hc hheld ↦ hloc.kept hc hheld, fun k hk ↦ ?_⟩
  have hdrained : s.Drained k := by
    rw [State.Drained, hk]
    exact ⟨some_ne_none _, fun heq ↦ Closer.noConfusion (Option.some.inj heq)⟩
  obtain ⟨hnil, hlocked⟩ := hinv.drained k hdrained
  refine ⟨fun l t hstep ↦ hinv.setups_eq hlocked hstep, hnil, fun c hc ↦ ?_⟩
  have hheld : ¬s.Held c := by
    rintro (⟨key, f, hf, hclient⟩ | ⟨k', cs, hcs, hmem⟩)
    · cases (hinv.client_eq_none hlocked hf).symm.trans hclient
    · rw [(Alone.of_reach h).emptied k k' cs hk hcs] at hmem
      cases hmem
  rcases hloc.kept hc hheld with ⟨hclosed, -⟩ | ⟨-, key, hkey, -⟩
  · exact hclosed
  · rw [hnil] at hkey
    cases hkey

end

/-- Two calls for a key overlap, with different declarations; the first leads, and both succeed. -/
def overlap : List Label :=
  [.call 0 "acme" 1, .call 1 "acme" 2, .fast 0 true, .fast 1 true, .ask 0, .ask 1,
    .lock "acme" false, .create "acme" .client, .work "acme" .ok, .work "acme" .ok,
    .work "acme" .ok, .log "acme" false, .deliver "acme"]

theorem ensureConsumers_wrong_topology : ∃ s, system.run {} overlap = some s ∧
    s.calls 1 = some ⟨"acme", 2, .returned true⟩ ∧ s.setups = [("acme", 1)] := by
  have hrun : (system.run {} overlap).any fun s ↦
      s.calls 1 = some ⟨"acme", 2, .returned true⟩ ∧ s.setups = [("acme", 1)] := by
    decide +kernel
  obtain ⟨s, hs, h⟩ := (any_eq_true _ _).mp hrun
  exact ⟨s, hs, of_decide_eq_true h⟩

/-- Two calls with the same declarations, a failed setup of another key, and a `Close`. -/
def orderly : List Label :=
  [.call 0 "acme" 1, .call 1 "acme" 1, .call 2 "blue" 7, .fast 0 true, .fast 1 true, .fast 2 false,
    .ask 0, .ask 1, .ask 2, .lock "acme" false, .create "acme" .client, .work "acme" .ok,
    .work "acme" .ok, .work "acme" .ok, .log "acme" false, .deliver "acme", .lock "blue" false,
    .create "blue" .client, .work "blue" (.fails false), .deliver "blue", .closeBegin 0, .drain 0,
    .closeNext 0, .closeReturn 0]

theorem ensureConsumers_sound_orderly : ∃ s, system.Reach State.Orderly s ∧
    s.calls 1 = some ⟨"acme", 1, .returned true⟩ ∧ ("acme", 1) ∈ s.setups ∧ s.created = 2 ∧
    s.closes 0 = 1 ∧ s.closes 1 = 1 := by
  let C (s : State) (l : Label) : Prop := s.Matched l ∧ (l.closes = true → s.closed = false)
  have hrun : ((system.restrict C).run {} orderly).any fun s ↦
      s.calls 1 = some ⟨"acme", 1, .returned true⟩ ∧ s.created = 2 ∧
        s.closers 0 = some .returned := by
    decide +kernel
  obtain ⟨s, hs, h⟩ := (any_eq_true _ _).mp hrun
  obtain ⟨hcall, hcreated, hcloser⟩ := of_decide_eq_true h
  have hreach : (system.restrict C).Reachable s := StepSystem.reach_of_run (.init rfl) hs
  -- The first `Close` begins where `closed` is not set, and none is under way there.
  have hreach : system.Reach State.Orderly s := by
    refine (StepSystem.Reach.of_restrict hreach).mono fun u l hu hC ↦ ⟨hC.1, fun hl k hk ↦ ?_⟩
    cases (hC.2 hl).symm.trans ((Inv.of_reach hu).closed k hk.1)
  obtain ⟨hreturned, -, hclose⟩ := ensureConsumers_sound hreach
  have hclosed := (hclose 0 hcloser).2.2
  exact ⟨s, hreach, hcall, hreturned 1 _ hcall rfl, hcreated, hclosed 0 (by omega),
    hclosed 1 (by omega)⟩

end Consumers
