import GoBricks.Outbox.Relay

/-!
# What one turn of a cycle can do

The inversion the later modules work from. A turn adds some events to the history, changes the
ledger by at most one `Mark*` statement on the row it works on (`Marked`), and moves the cycle in
one of seven ways (`Moved`):

* it stops;
* the row is held back by its scope or its key, and nothing else happens;
* the row is delivered, or dead-lettered, and the cycle goes on;
* the row stays pending and its key is parked, possibly with its scope;
* the lane dropped, and the remainder goes to the outage path.

`runRelayLoop_turned` and `markOutage_turned` say so once; nothing later looks inside the relay's
functions.
-/

namespace Outbox

namespace Event

/-- The events that neither begin a cycle nor report a delivery. -/
def inert : Event → Bool
  | .fetched _ => false
  | .shipped _ .delivered => false
  | _ => true

end Event

variable {α : Type*} {R : Relay α}

/-- What a turn on `record` that recorded `new` does to the ledger. A status changes only together
with a delivery or with a judgement of poison at the ceiling. -/
inductive Marked (R : Relay α) (record : Record) (new : List Event) (l : Ledger) : Ledger → Prop
  | none : Marked R record new l l
  | failed (msg : String) : Marked R record new l (l.markFailed record.id msg)
  | published (now : ℤ) (h : .shipped record.id .delivered ∈ new) :
    Marked R record new l (l.markPublished record.id now)
  | deadLettered (msg : String) (h : .judgedPoison record.id ∈ new)
    (hmax : R.maxRetries ≤ record.retryCount + 1) :
    Marked R record new l (l.markDeadLettered record.id msg)

/-- What a turn of the loop on `record` does to the cycle, and the events it records. -/
inductive Moved (R : Relay α) (c : RelayCycle) (record : Record) (rest : List Record) :
    List Event → RelayCycle → Prop
  | stopped (new : List Event) (res : RelayBatchResult) (hnew : ∀ e ∈ new, e.inert = true) :
    Moved R c record rest new { c with rows := [], res := res }
  | held (res : RelayBatchResult)
    (h : (R.plan record).scope ∈ c.down ∨ (R.plan record).key ∈ c.parked) :
    Moved R c record rest [] { c with rows := rest, res := res }
  | delivered (res : RelayBatchResult) (hscope : (R.plan record).scope ∉ c.down)
    (hkey : (R.plan record).key ∉ c.parked) (hpoison : (R.plan record).poison = "")
    (hlane : R.shippers (laneOrDefault record.lane) ≠ none) :
    Moved R c record rest [.shipped record.id .delivered] { c with rows := rest, res := res }
  | deadLettered (new : List Event) (res : RelayBatchResult) (hnew : ∀ e ∈ new, e.inert = true)
    (hmem : .deadLettered record.id ∈ new) :
    Moved R c record rest new { c with rows := rest, res := res }
  | parked (new : List Event) (res : RelayBatchResult) (hnew : ∀ e ∈ new, e.inert = true) :
    Moved R c record rest new
      { c with rows := rest, parked := (R.plan record).key :: c.parked, res := res }
  | scopeDown (res : RelayBatchResult) (hpoison : (R.plan record).poison = "") :
    Moved R c record rest [.shipped record.id .scopeDown]
      { c with
        rows := rest
        parked := (R.plan record).key :: c.parked
        down := (R.plan record).scope :: c.down
        res := res }
  | brokerDown (res : RelayBatchResult) :
    Moved R c record rest [.shipped record.id .brokerDown]
      { c with
        rows := []
        outaged := rest
        parked := (R.plan record).key :: c.parked
        res := res }

/-- A turn as a whole: `new` is what it recorded. -/
structure Turned (R : Relay α) (p : Pass) (record : Record) (rest : List Record) (new : List Event)
    (q : Pass) : Prop where
  history : q.history = new ++ p.history
  marked : Marked R record new p.ledger q.ledger
  moved : Moved R p.cycle record rest new q.cycle

/-- A turn that records a delivery is on a row that nothing holds back. -/
theorem Moved.inert_or_delivered {c c' : RelayCycle} {record : Record} {rest : List Record}
    {new : List Event} (h : Moved R c record rest new c') :
    (∀ e ∈ new, e.inert = true) ∨ new = [.shipped record.id .delivered] ∧
      (R.plan record).scope ∉ c.down ∧ (R.plan record).key ∉ c.parked ∧
      (R.plan record).poison = "" ∧ R.shippers (laneOrDefault record.lane) ≠ none := by
  cases h with
  | stopped _ _ hnew => exact .inl hnew
  | held _ _ => exact .inl (by simp)
  | delivered _ hscope hkey hpoison hlane => exact .inr ⟨rfl, hscope, hkey, hpoison, hlane⟩
  | deadLettered _ _ hnew _ | parked _ _ hnew => exact .inl hnew
  | scopeDown _ _ | brokerDown _ => exact .inl (by simp [Event.inert])

/-! ### The functions of a turn

Each is called on the pass in which the loop has already moved past the row and, after a `Ship`, has
recorded the verdict. The statements are about the pass `⟨l, past, c⟩` the turn began with. -/

section

variable {l : Ledger} {past : List Event} {c : RelayCycle} {record : Record}
  {rest : List Record} (w : DbWrite) (lane : String)

/-- Failing a row is at most one `MarkFailed`, and its key is parked. -/
theorem fail_eq (record : Record) (p : Pass) (key msg : String) (new : List Event) :
    ∃ l', Marked R record new p.ledger l' ∧ p.fail w record lane key msg =
      ⟨l', p.history, { p.cycle with
        parked := key :: p.cycle.parked
        res := p.cycle.res.apply lane .failed }⟩ := by
  rw [Pass.fail, Pass.markRecordFailed]
  cases w.takesEffect with
  | true => exact ⟨_, .failed _, rfl⟩
  | false => exact ⟨_, .none, rfl⟩

/-- Dead-lettering is terminal when the mark reports success; in every other case the row may still
be pending and its key is parked. -/
theorem deadLetter_turned (old : List Event) (hold : ∀ e ∈ old, e.inert = true)
    (reason : String) :
    ∃ new, Turned R ⟨l, past, c⟩ record rest new
      (R.deadLetter ⟨l, old ++ past, { c with rows := rest }⟩ w record lane (R.plan record).key
        reason) := by
  have hjudged : ∀ e ∈ Event.judgedPoison record.id :: old, e.inert = true :=
    List.forall_mem_cons.2 ⟨rfl, hold⟩
  have hdead : ∀ e ∈ Event.deadLettered record.id :: .judgedPoison record.id :: old,
      e.inert = true :=
    List.forall_mem_cons.2 ⟨rfl, hjudged⟩
  have hmem : Event.judgedPoison record.id ∈
      Event.deadLettered record.id :: .judgedPoison record.id :: old := by simp
  rw [Relay.deadLetter, Relay.deadLetterPoison]
  by_cases hmax : R.maxRetries ≤ record.retryCount + 1
  · rw [if_pos hmax]
    cases w with
    | done => exact ⟨_, rfl, .deadLettered _ hmem hmax, .deadLettered _ _ hdead (by simp)⟩
    | refused => exact ⟨_, rfl, .none, .parked _ _ hjudged⟩
    | unconfirmed => exact ⟨_, rfl, .deadLettered _ hmem hmax, .parked _ _ hdead⟩
  · rw [if_neg hmax]
    obtain ⟨l', hmark, hfail⟩ := fail_eq (R := R) w lane record
      (Pass.log ⟨l, old ++ past, { c with rows := rest }⟩ (.judgedPoison record.id))
      (R.plan record).key reason (.judgedPoison record.id :: old)
    refine ⟨.judgedPoison record.id :: old, ?_⟩
    change Turned R _ record rest _ (Pass.fail _ w record lane (R.plan record).key reason)
    rw [hfail]
    exact ⟨rfl, hmark, .parked _ _ hjudged⟩

/-- A `Ship` and its verdict. -/
theorem ship_turned (t : Turn α) (sh : Shipper α) (hscope : (R.plan record).scope ∉ c.down)
    (hkey : (R.plan record).key ∉ c.parked) (hpoison : (R.plan record).poison = "")
    (hlane : R.shippers (laneOrDefault record.lane) ≠ none)
    (hrecord : (R.plan record).record = record) :
    ∃ new, Turned R ⟨l, past, c⟩ record rest new
      (R.ship ⟨l, past, { c with rows := rest }⟩ t sh (R.plan record) lane rest) := by
  rcases hv : sh.ship t.door (R.plan record) with ⟨kind, err, waited⟩
  have hfail := fun new ↦ fail_eq (R := R) t.mark lane record
    (Pass.log ⟨l, past, { c with rows := rest }⟩ (.shipped record.id kind)) (R.plan record).key
    (Verdict.errText ⟨kind, err, waited⟩) new
  rw [Relay.ship, hrecord, hv]
  cases kind with
  | delivered =>
    refine ⟨[.shipped record.id .delivered], ?_⟩
    rcases t.mark with - | - | -
    · exact ⟨rfl, .published _ (by simp), .delivered _ hscope hkey hpoison hlane⟩
    · exact ⟨rfl, .none, .delivered _ hscope hkey hpoison hlane⟩
    · exact ⟨rfl, .published _ (by simp), .delivered _ hscope hkey hpoison hlane⟩
  | retry =>
    obtain ⟨l', hmark, heq⟩ := hfail [.shipped record.id .retry]
    refine ⟨[.shipped record.id .retry], ?_⟩
    rw [heq]
    exact ⟨rfl, hmark, .parked _ _ (by simp [Event.inert])⟩
  | poison =>
    exact deadLetter_turned t.mark lane [.shipped record.id .poison] (by simp [Event.inert]) _
  | aborted =>
    exact ⟨[.shipped record.id .aborted], rfl, .none, .stopped _ _ (by simp [Event.inert])⟩
  | brokerDown =>
    obtain ⟨l', hmark, heq⟩ := hfail [.shipped record.id .brokerDown]
    refine ⟨[.shipped record.id .brokerDown], ?_⟩
    simp only [heq]
    exact ⟨rfl, hmark, .brokerDown _⟩
  | scopeDown =>
    obtain ⟨l', hmark, heq⟩ := hfail [.shipped record.id .scopeDown]
    refine ⟨[.shipped record.id .scopeDown], ?_⟩
    simp only [heq]
    exact ⟨rfl, hmark, .scopeDown _ hpoison⟩

end

/-! ### Plans -/

theorem amqpPlan_key (record : Record) (headers : Headers) :
    ∃ scope, (amqpPlan record headers).key = "amqp:" ++ scope := by
  change ∃ scope, (if (takeFrameworkStamps headers).1 ≠ "" then
    "amqp:" ++ "tenant:" ++ (takeFrameworkStamps headers).1
    else "amqp:" ++ record.exchange ++ ":" ++ record.routingKey) = "amqp:" ++ scope
  split
  · exact ⟨_, String.append_assoc⟩
  · exact ⟨record.exchange ++ (":" ++ record.routingKey), by simp only [String.append_assoc]⟩

/-- A row of a stream is ordered by its partition. -/
theorem streamPlan_key (lookup : String → Bool) (record : Record) (headers : Headers) :
    (streamPlan lookup record headers).key =
      "stream:" ++ (record.stream ++ (":" ++ record.partitionKey)) := by
  change "stream:" ++ record.stream ++ ":" ++ record.partitionKey = _
  simp only [String.append_assoc]

/-- An error of the headers has a text. -/
theorem decodeHeaders_error_ne {data : List UInt8} {err : String}
    (h : R.decodeHeaders data = .error err) : err ≠ "" := by
  unfold Relay.decodeHeaders at h
  split at h
  · contradiction
  · rcases hu : R.unmarshal data with e | headers
    · rw [hu] at h
      obtain rfl : "outbox relay: invalid headers JSON: " ++ e = err := by
        simpa [Except.mapError] using h
      simp
    · rw [hu] at h
      contradiction

/-- A row of an unknown lane is poison, under a key of its own. -/
theorem plan_of_none {record : Record} (h : R.shippers (laneOrDefault record.lane) = none) :
    (R.plan record).key = "unknown:" ++ record.id ∧ (R.plan record).poison ≠ "" := by
  unfold Relay.plan
  rw [h]
  rcases hd : R.decodeHeaders record.headers with err | headers
  · exact ⟨rfl, decodeHeaders_error_ne hd⟩
  · exact ⟨rfl, by simp⟩

/-- A row of a registered lane is planned by that lane, on whatever headers could be read. -/
theorem plan_of_some {record : Record} {sh : Shipper α}
    (h : R.shippers (laneOrDefault record.lane) = some sh) :
    ∃ headers, (R.plan record).key = (sh.plan record headers).key ∧
      (R.plan record).record = (sh.plan record headers).record := by
  unfold Relay.plan
  rw [h]
  rcases R.decodeHeaders record.headers with err | headers
  · exact ⟨∅, rfl, rfl⟩
  · exact ⟨_, rfl, rfl⟩

/-- There are two shippers. -/
theorem shippers_cases {lane : String} {sh : Shipper α} (h : R.shippers lane = some sh) :
    (lane = laneAMQP ∧ sh.plan = amqpPlan) ∨
      (lane = laneStream ∧ sh.plan = streamPlan R.lookup) := by
  unfold Relay.shippers at h
  split at h
  · next hl => exact .inl ⟨hl, by rw [← Option.some_inj.1 h]⟩
  · split at h
    · next hl => exact .inr ⟨hl, by rw [← Option.some_inj.1 h]⟩
    · contradiction

theorem plan_record (record : Record)
    (hlane : R.shippers (laneOrDefault record.lane) ≠ none) : (R.plan record).record = record := by
  obtain ⟨sh, hsh⟩ := Option.ne_none_iff_exists'.1 hlane
  obtain ⟨headers, -, hrecord⟩ := plan_of_some hsh
  rw [hrecord]
  rcases shippers_cases hsh with ⟨-, h⟩ | ⟨-, h⟩ <;> rw [h] <;> rfl

/-- Ordering keys are namespaced by their lane, and the namespaces differ in their first letter. -/
theorem plan_key_cases (record : Record) :
    (R.shippers (laneOrDefault record.lane) = none ∧
      (R.plan record).key.toList.head? = some 'u') ∨
    (laneOrDefault record.lane = laneAMQP ∧ (R.plan record).key.toList.head? = some 'a') ∨
    (laneOrDefault record.lane = laneStream ∧ (R.plan record).key.toList.head? = some 's') := by
  rcases hsh : R.shippers (laneOrDefault record.lane) with - | sh
  · exact .inl ⟨rfl, by rw [(plan_of_none hsh).1, String.toList_append]; rfl⟩
  · obtain ⟨headers, hkey, -⟩ := plan_of_some hsh
    rcases shippers_cases hsh with ⟨hl, h⟩ | ⟨hl, h⟩
    · obtain ⟨scope, hscope⟩ := amqpPlan_key record headers
      exact .inr (.inl ⟨hl, by rw [hkey, h, hscope, String.toList_append]; rfl⟩)
    · exact .inr (.inr ⟨hl, by rw [hkey, h, streamPlan_key, String.toList_append]; rfl⟩)

/-- Rows that share the key of a row some lane can carry are rows of that lane. -/
theorem lane_eq_of_key_eq {a b : Record} (hb : R.shippers (laneOrDefault b.lane) ≠ none)
    (h : (R.plan a).key = (R.plan b).key) : laneOrDefault a.lane = laneOrDefault b.lane := by
  have ha := plan_key_cases (R := R) a
  rw [h] at ha
  rcases plan_key_cases (R := R) b with ⟨hnone, -⟩ | ⟨hb', hkey⟩ | ⟨hb', hkey⟩
  · exact absurd hnone hb
  · simp_all
  · simp_all

/-! ### The turns -/

/-- One turn of the loop. -/
theorem runRelayLoop_turned (p : Pass) (t : Turn α) (record : Record) (rest : List Record) :
    ∃ new, Turned R p record rest new (R.runRelayLoop p t record rest) := by
  unfold Relay.runRelayLoop
  split
  · exact ⟨[], rfl, .none, .stopped _ _ (by simp)⟩
  split
  · exact ⟨[], rfl, .none, .stopped _ _ (by simp)⟩
  dsimp only
  split
  · next hscope => exact ⟨[], rfl, .none, .held _ (.inl hscope)⟩
  split
  · next hkey => exact ⟨[], rfl, .none, .held _ (.inr hkey)⟩
  split
  · exact deadLetter_turned t.mark _ [] (by simp) _
  next hscope hkey hpoison =>
  rw [not_not] at hpoison
  split
  · exact ⟨[], rfl, .none, .stopped _ _ (by simp)⟩
  next sh hsh =>
  have hlane : R.shippers (laneOrDefault record.lane) ≠ none := by simp [hsh]
  exact ship_turned _ t sh hscope hkey hpoison hlane (plan_record record hlane)

/-- One turn of `markOutage`: it never delivers, and the loop's own part of the cycle is not
touched. -/
theorem markOutage_turned (p : Pass) (t : Turn α) (record : Record) (rest : List Record) :
    ∃ new left res, (left = [] ∨ left = rest) ∧ (∀ e ∈ new, e.inert = true) ∧
      (Relay.markOutage p t record rest).history = new ++ p.history ∧
      Marked R record new p.ledger (Relay.markOutage p t record rest).ledger ∧
      (Relay.markOutage p t record rest).cycle = { p.cycle with outaged := left, res := res } := by
  unfold Relay.markOutage
  split
  · exact ⟨[], [], _, .inl rfl, by simp, rfl, .none, rfl⟩
  split
  · exact ⟨[], [], _, .inl rfl, by simp, rfl, .none, rfl⟩
  · refine ⟨[.outaged record.id], rest, p.cycle.res.apply (laneOrDefault record.lane) .failed,
      .inr rfl, by simp [Event.inert], ?_⟩
    dsimp only [Pass.markRecordFailed]
    cases t.mark.takesEffect with
    | true => exact ⟨rfl, .failed _, rfl⟩
    | false => exact ⟨rfl, .none, rfl⟩

/-- A cycle begins only when none is running. -/
theorem lead_eq_some {s s' : State} {unready : String → Bool} :
    R.step s (.lead unready) = some s' ↔ s.cycle = none ∧ R.lead s unready = s' := by
  rcases hc : s.cycle with - | c <;> simp [Relay.step, hc]

end Outbox
