import GoBricks.Outbox.Settlement

/-!
# What one turn counts, and when a lane drops

`Turned` says what a turn does to the ledger. This module adds what it does to the **counters**, and
what had to happen for a lane to drop or for the cycle to be cut short. A turn of the loop on a row
(`Stepped`)

* is cut short, by the context, by the leader probe, or by an aborted `Ship`, and counts nothing;
* or counts the row once, on its own lane, and goes on;
* or ships the row on a lane that reports itself down, counts the row, and hands the rest of the
  batch to the outage path.
-/

namespace Outbox

/-! ### Counting -/

/-- How a row is counted: by the outcome of an attempt or a mark, or as held back. -/
inductive Tally
  | outcome (o : PublishOutcome)
  | parked
  deriving DecidableEq

namespace RelayBatchResult

/-- What is counted for a row. -/
def tally (res : RelayBatchResult) (lane : String) : Tally → RelayBatchResult
  | .outcome o => res.apply lane o
  | .parked => res.markParked lane

/-- Two results agree on what was counted. -/
structure SameCounts (res res' : RelayBatchResult) : Prop where
  byLane : res.byLane = res'.byLane
  unrecorded : res.unrecorded = res'.unrecorded

theorem SameCounts.refl (res : RelayBatchResult) : SameCounts res res :=
  ⟨rfl, rfl⟩

theorem SameCounts.trans {a b c : RelayBatchResult} (h : SameCounts a b) (h' : SameCounts b c) :
    SameCounts a c :=
  ⟨h.byLane.trans h'.byLane, h.unrecorded.trans h'.unrecorded⟩

theorem SameCounts.tally {a b : RelayBatchResult} (h : SameCounts a b) (lane : String) (o : Tally) :
    SameCounts (a.tally lane o) (b.tally lane o) := by
  obtain ⟨hlane, hun⟩ := h
  cases o with
  | parked => exact ⟨by simp only [RelayBatchResult.tally, markParked, count, hlane], hun⟩
  | outcome o =>
    cases o with
    | publishedUnrecorded => exact ⟨hlane, congrArg (· + 1) hun⟩
    | published | failed | deadLettered =>
      exact ⟨by simp only [RelayBatchResult.tally, apply, count, hlane], hun⟩

end RelayBatchResult

open RelayBatchResult

namespace Event

/-- The row an event is about. -/
def row : Event → Option String
  | .fetched _ => none
  | .shipped id _ => some id
  | .outaged id => some id
  | .judgedPoison id => some id
  | .deadLettered id => some id

/-- An event of the loop's turn on a row. -/
def OfTurn (id : String) : Event → Prop
  | .shipped i _ | .judgedPoison i | .deadLettered i => i = id
  | .fetched _ | .outaged _ => False

/-- An event of a turn is about its row. -/
theorem OfTurn.row {id : String} {e : Event} (h : e.OfTurn id) : e.row = some id := by
  cases e with
  | fetched | outaged => exact h.elim
  | shipped | judgedPoison | deadLettered => exact congrArg some h

end Event

namespace Relay

variable {α : Type*} (R : Relay α)

/-! ### Held back, shipped, dropped -/

/-- A row waits for the next cycle: its key is parked, or its scope is down. -/
def HeldBack (parked down : List String) (r : Record) : Prop :=
  (R.plan r).key ∈ parked ∨ (R.plan r).scope ∈ down

/-- Membership in two lists. -/
instance (parked down : List String) (r : Record) : Decidable (R.HeldBack parked down r) :=
  inferInstanceAs (Decidable (_ ∨ _))

/-- The turn makes an attempt on the row. -/
structure Ships (c : RelayCycle) (t : Turn α) (record : Record) : Prop where
  outaged : c.outaged = []
  ctx : t.ctxErr = false
  probe : t.probeErr = none
  free : ¬R.HeldBack c.parked c.down record
  poison : (R.plan record).poison = ""

/-- What a turn brings is known when it is taken. -/
instance (c : RelayCycle) (t : Turn α) (record : Record) : Decidable (R.Ships c t record) :=
  decidable_of_iff
    (c.outaged = [] ∧ t.ctxErr = false ∧ t.probeErr = none ∧ ¬R.HeldBack c.parked c.down record ∧
      (R.plan record).poison = "")
    ⟨fun ⟨ho, hc, hp, hf, hq⟩ ↦ ⟨ho, hc, hp, hf, hq⟩, fun ⟨ho, hc, hp, hf, hq⟩ ↦ ⟨ho, hc, hp, hf,
    hq⟩⟩

/-- What the row's lane answers to an attempt on it. -/
def verdict (t : Turn α) (record : Record) : Option VerdictKind :=
  (R.shippers (laneOrDefault record.lane)).map fun sh ↦ (sh.ship t.door (R.plan record)).kind

/-- What cuts a turn of the loop short. -/
def Cut (c : RelayCycle) (t : Turn α) (record : Record) : Prop :=
  t.ctxErr = true ∨ t.probeErr ≠ none ∨ R.Ships c t record ∧ R.verdict t record = some .aborted

/-- What a turn brings is known when it is taken. -/
instance (c : RelayCycle) (t : Turn α) (record : Record) : Decidable (R.Cut c t record) :=
  inferInstanceAs (Decidable (_ ∨ _ ∨ _ ∧ _))

end Relay

variable {α : Type*} {R : Relay α}

/-- What a turn of the loop on `record` does to a cycle without outage marks to make. -/
inductive Stepped (R : Relay α) (c : RelayCycle) (t : Turn α) (record : Record)
    (rest : List Record) : RelayCycle → Prop
  | cut (res : RelayBatchResult) (hcut : R.Cut c t record) (hres : SameCounts res c.res) :
    Stepped R c t record rest { c with rows := [], res := res }
  | counted (o : Tally) (parked down : List String) (res : RelayBatchResult)
    (hparked : c.parked ⊆ parked) (hdown : c.down ⊆ down)
    (hres : SameCounts res (c.res.tally (laneOrDefault record.lane) o)) :
    Stepped R c t record rest { c with rows := rest, parked := parked, down := down, res := res }
  | dropped (res : RelayBatchResult) (hships : R.Ships c t record)
    (hverdict : R.verdict t record = some .brokerDown)
    (hres : SameCounts res (c.res.tally (laneOrDefault record.lane) (.outcome .failed))) :
    Stepped R c t record rest
      { c with
        rows := []
        outaged := rest
        parked := (R.plan record).key :: c.parked
        res := res }

/-! ### The functions of a turn -/

section

variable (w : DbWrite) (record : Record) (lane : String) (p : Pass) (key msg : String)

/-- A row that failed parks its key. -/
theorem fail_cycle : (p.fail w record lane key msg).cycle =
    { p.cycle with parked := key :: p.cycle.parked, res := p.cycle.res.apply lane .failed } := by
  rw [Pass.fail, Pass.markRecordFailed]
  cases w.takesEffect <;> rfl

theorem fail_history : (p.fail w record lane key msg).history = p.history := by
  rw [Pass.fail, Pass.markRecordFailed]
  cases w.takesEffect <;> rfl

/-- Dead-lettering counts the row once, and may park its key. -/
theorem deadLetter_cycle : ∃ o parked, p.cycle.parked ⊆ parked ∧
    (R.deadLetter p w record lane key msg).cycle =
      { p.cycle with parked := parked, res := p.cycle.res.apply lane o } := by
  have hcons := List.subset_cons_self key p.cycle.parked
  rw [Relay.deadLetter, Relay.deadLetterPoison]
  by_cases hmax : R.maxRetries ≤ record.retryCount + 1
  · rw [if_pos hmax]
    cases w with
    | done => exact ⟨.deadLettered, _, List.Subset.refl _, rfl⟩
    | refused | unconfirmed => exact ⟨.failed, _, hcons, rfl⟩
  · rw [if_neg hmax]
    refine ⟨.failed, _, hcons, ?_⟩
    exact fail_cycle w record lane (p.log (.judgedPoison record.id)) key msg

/-- A dead letter notes events of its row only. -/
theorem deadLetter_history : ∃ new, (∀ e ∈ new, e.OfTurn record.id) ∧
    (R.deadLetter p w record lane key msg).history = new ++ p.history := by
  rw [Relay.deadLetter, Relay.deadLetterPoison]
  by_cases hmax : R.maxRetries ≤ record.retryCount + 1
  · rw [if_pos hmax]
    cases w with
    | refused => exact ⟨[.judgedPoison record.id], by simp [Event.OfTurn], rfl⟩
    | done | unconfirmed =>
      exact ⟨[.deadLettered record.id, .judgedPoison record.id], by simp [Event.OfTurn], rfl⟩
  · rw [if_neg hmax]
    refine ⟨[.judgedPoison record.id], by simp [Event.OfTurn], ?_⟩
    exact fail_history w record lane (p.log (.judgedPoison record.id)) key msg

end

theorem recordPublished_cycle (p : Pass) (w : DbWrite) (now : ℤ) (record : Record) :
    (p.recordPublished w now record).1.cycle = p.cycle := by
  rw [Pass.recordPublished]
  cases w.takesEffect <;> rfl

theorem recordPublished_history (p : Pass) (w : DbWrite) (now : ℤ) (record : Record) :
    (p.recordPublished w now record).1.history = p.history := by
  rw [Pass.recordPublished]
  cases w.takesEffect <;> rfl

section

variable {c : RelayCycle} {record : Record} {rest : List Record} {t : Turn α} {sh : Shipper α}
  {p : Pass}

/-- A row that was shipped is counted, unless the attempt was aborted. -/
theorem ship_stepped (hships : R.Ships c t record)
    (hsh : R.shippers (laneOrDefault record.lane) = some sh)
    (hrecord : (R.plan record).record = record) (hcycle : p.cycle = { c with rows := rest }) :
    Stepped R c t record rest
      (R.ship p t sh (R.plan record) (laneOrDefault record.lane) rest).cycle := by
  have hverdict : R.verdict t record = some (sh.ship t.door (R.plan record)).kind := by
    rw [Relay.verdict, hsh]
    rfl
  rcases hv : sh.ship t.door (R.plan record) with ⟨kind, err, waited⟩
  rw [hv] at hverdict
  have hcons := List.subset_cons_self (R.plan record).key c.parked
  have hself := List.Subset.refl c.down
  rw [Relay.ship, hrecord, hv]
  have hlog : (p.log (.shipped record.id kind)).cycle = { c with rows := rest } := hcycle
  generalize p.log (.shipped record.id kind) = q at hlog
  cases kind with
  | delivered =>
    generalize hq : q.recordPublished t.mark t.now record = q'
    have hq' : q'.1.cycle = { c with rows := rest } := by
      rw [← hq, recordPublished_cycle, hlog]
    show Stepped R c t record rest (q'.1.apply (laneOrDefault record.lane) q'.2).cycle
    rw [Pass.apply, hq']
    exact .counted (.outcome q'.2) _ _ _ (List.Subset.refl _) hself (.refl _)
  | retry =>
    rw [fail_cycle, hlog]
    exact .counted (.outcome .failed) _ _ _ hcons hself (.refl _)
  | poison =>
    obtain ⟨o, parked, hparked, heq⟩ := deadLetter_cycle (R := R) t.mark record
      (laneOrDefault record.lane) q (R.plan record).key (Verdict.errText ⟨.poison, err, waited⟩)
    rw [hlog] at hparked
    rw [heq, hlog]
    exact .counted (.outcome o) _ _ _ hparked hself (.refl _)
  | aborted =>
    rw [Pass.stop, hlog]
    exact .cut _ (.inr (.inr ⟨hships, hverdict⟩)) (.refl _)
  | brokerDown =>
    dsimp only [Pass.stop]
    rw [fail_cycle, hlog]
    exact .dropped _ hships hverdict ⟨rfl, rfl⟩
  | scopeDown =>
    dsimp only
    rw [fail_cycle, hlog]
    exact .counted (.outcome .failed) _ _ _ hcons (List.subset_cons_self _ _) ⟨rfl, rfl⟩

/-- The events of an attempt are about its row. -/
theorem ship_history (lane : String) (hrecord : (R.plan record).record = record) :
    ∃ new, (∀ e ∈ new, e.OfTurn record.id) ∧
      .shipped record.id (sh.ship t.door (R.plan record)).kind ∈ new ∧
      (R.ship p t sh (R.plan record) lane rest).history = new ++ p.history := by
  rcases hv : sh.ship t.door (R.plan record) with ⟨kind, err, waited⟩
  rw [Relay.ship, hrecord, hv]
  have hmem := List.mem_singleton_self (Event.shipped record.id kind)
  have hrow : ∀ e ∈ [Event.shipped record.id kind], e.OfTurn record.id := by simp [Event.OfTurn]
  have hlog : (p.log (.shipped record.id kind)).history = [.shipped record.id kind] ++ p.history :=
    rfl
  generalize p.log (.shipped record.id kind) = q at hlog
  cases kind with
  | delivered =>
    exact ⟨_, hrow, hmem, (recordPublished_history q t.mark t.now record).trans hlog⟩
  | retry | brokerDown | scopeDown =>
    exact ⟨_, hrow, hmem, (fail_history t.mark record lane q (R.plan record).key _).trans hlog⟩
  | poison =>
    obtain ⟨new, hnew, heq⟩ := deadLetter_history (R := R) t.mark record lane q (R.plan record).key
      (Verdict.errText ⟨.poison, err, waited⟩)
    refine ⟨new ++ [.shipped record.id .poison], List.forall_mem_append.2 ⟨hnew, hrow⟩,
      List.mem_append_right new hmem, ?_⟩
    rw [List.append_assoc, ← hlog]
    exact heq
  | aborted => exact ⟨_, hrow, hmem, hlog⟩

end

/-! ### The turns -/

/-- One turn of the loop counts its row, unless it is cut short. -/
theorem runRelayLoop_stepped (p : Pass) (t : Turn α) (record : Record) (rest : List Record)
    (hout : p.cycle.outaged = []) :
    Stepped R p.cycle t record rest (R.runRelayLoop p t record rest).cycle := by
  unfold Relay.runRelayLoop
  split
  next hctx => exact .cut _ (.inl hctx) (.refl _)
  next hctx =>
  split
  next err hprobe =>
    refine .cut _ (.inr (.inl ?_)) ⟨rfl, rfl⟩
    rw [hprobe]
    exact Option.some_ne_none err
  next hprobe =>
  dsimp only
  split
  · exact .counted .parked _ _ _ (List.Subset.refl _) (List.Subset.refl _) (.refl _)
  next hscope =>
  split
  · exact .counted .parked _ _ _ (List.Subset.refl _) (List.Subset.refl _) (.refl _)
  next hkey =>
  split
  · obtain ⟨o, parked, hparked, heq⟩ := deadLetter_cycle (R := R) t.mark record
      (laneOrDefault record.lane) { p with cycle := { p.cycle with rows := rest } }
      (R.plan record).key (R.plan record).poison
    rw [heq]
    exact .counted (.outcome o) _ _ _ hparked (List.Subset.refl _) (.refl _)
  next hpoison =>
  rw [not_not] at hpoison
  have hships : R.Ships p.cycle t record :=
    ⟨hout, Bool.eq_false_iff.2 hctx, hprobe, fun hheld ↦ hheld.elim hkey hscope, hpoison⟩
  split
  next hnone => exact absurd hpoison (plan_of_none hnone).2
  next sh hsh =>
    have hlane : R.shippers (laneOrDefault record.lane) ≠ none := by simp [hsh]
    exact ship_stepped hships hsh (plan_record record hlane) rfl

/-- The events of a turn of the loop are about its row. -/
theorem runRelayLoop_history (p : Pass) (t : Turn α) (record : Record) (rest : List Record) :
    ∃ new, (∀ e ∈ new, e.OfTurn record.id) ∧
      (R.runRelayLoop p t record rest).history = new ++ p.history := by
  unfold Relay.runRelayLoop
  split
  · exact ⟨[], by simp, rfl⟩
  split
  · exact ⟨[], by simp, rfl⟩
  dsimp only
  split
  · exact ⟨[], by simp, rfl⟩
  split
  · exact ⟨[], by simp, rfl⟩
  split
  · exact deadLetter_history ..
  split
  · exact ⟨[], by simp, rfl⟩
  next sh hsh =>
    have hlane : R.shippers (laneOrDefault record.lane) ≠ none := by simp [hsh]
    obtain ⟨new, hnew, -, heq⟩ := ship_history _ (plan_record record hlane)
    exact ⟨new, hnew, heq⟩

/-- An attempt is recorded with its verdict. -/
theorem runRelayLoop_shipped (p : Pass) {t : Turn α} {record : Record} (rest : List Record)
    {kind : VerdictKind} (hships : R.Ships p.cycle t record)
    (hverdict : R.verdict t record = some kind) :
    ∃ new, (∀ e ∈ new, e.OfTurn record.id) ∧ .shipped record.id kind ∈ new ∧
      (R.runRelayLoop p t record rest).history = new ++ p.history := by
  obtain ⟨sh, hsh, rfl⟩ := Option.map_eq_some_iff.1 hverdict
  have hlane : R.shippers (laneOrDefault record.lane) ≠ none := by simp [hsh]
  have hscope : (R.plan record).scope ∉ p.cycle.down := fun h ↦ hships.free (.inr h)
  have hkey : (R.plan record).key ∉ p.cycle.parked := fun h ↦ hships.free (.inl h)
  unfold Relay.runRelayLoop
  rw [if_neg (by simp [hships.ctx]), hships.probe]
  rw [if_neg hscope, if_neg hkey, if_neg (not_not.2 hships.poison), hsh]
  exact ship_history _ (plan_record record hlane)

/-- A turn on a row that is held back writes nothing. -/
theorem runRelayLoop_of_heldBack (p : Pass) (t : Turn α) {record : Record} (rest : List Record)
    (hheld : R.HeldBack p.cycle.parked p.cycle.down record) :
    (R.runRelayLoop p t record rest).ledger = p.ledger ∧
      (R.runRelayLoop p t record rest).history = p.history := by
  unfold Relay.runRelayLoop
  split
  · exact ⟨rfl, rfl⟩
  split
  · exact ⟨rfl, rfl⟩
  dsimp only
  split
  · exact ⟨rfl, rfl⟩
  next hscope =>
    rw [if_pos (hheld.resolve_right hscope)]
    exact ⟨rfl, rfl⟩

/-- One turn of `markOutage` counts its row as failed, or is cut short and gives up its rows. -/
theorem markOutage_cases (p : Pass) (t : Turn α) (record : Record) (rest : List Record) :
    ((t.ctxErr = true ∨ t.probeErr ≠ none) ∧
      (Relay.markOutage p t record rest).ledger = p.ledger ∧
      (Relay.markOutage p t record rest).history = p.history ∧
      ∃ res, SameCounts res p.cycle.res ∧
        (Relay.markOutage p t record rest).cycle = { p.cycle with outaged := [], res := res }) ∨
    ((Relay.markOutage p t record rest).history = .outaged record.id :: p.history ∧
      (Relay.markOutage p t record rest).cycle =
        { p.cycle with
          outaged := rest
          res := p.cycle.res.tally (laneOrDefault record.lane) (.outcome .failed) }) := by
  unfold Relay.markOutage
  split
  next hctx => exact .inl ⟨.inl hctx, rfl, rfl, _, .refl _, rfl⟩
  split
  next err hprobe =>
    refine .inl ⟨.inr ?_, rfl, rfl, _, ?_, rfl⟩
    · rw [hprobe]
      exact Option.some_ne_none err
    · exact ⟨rfl, rfl⟩
  · refine .inr ?_
    dsimp only [Pass.markRecordFailed]
    cases t.mark.takesEffect <;> exact ⟨rfl, rfl⟩

end Outbox
