import GoBricks.Outbox.Walk

/-!
# Rows that wait, and lanes that fail alone

Two promises about the rows a cycle does *not* attempt. A row that is **held back**, because its key
is parked or its scope is down, is left as it was for the rest of the cycle. And a row is charged
for an outage, its `retry_count` advanced without an attempt, only when **its own lane** is out.

Both are kept by the loop and by the split before it, and both are broken at one place: a `Ship`
that reports its lane down ends the loop and hands the whole remainder of the batch to `markOutage`,
the rows that are held back and the rows of other lanes included (`heldBack_marked_after_drop`,
`outaged_by_other_lane`). `AtDrop` is a condition on what is behind a row at that moment; with it
the promises hold in every run (`heldBack_untouched`, `outaged_on_own_lane`).
-/

namespace Outbox

open List Option

namespace Relay

variable {α : Type*} (R : Relay α)

/-- What is behind a row whose lane drops: a condition on the steps of a run. -/
def AtDrop (P : RelayCycle → Record → Record → Prop) (s : State) : Label α → Prop
  | .turn t => ∀ c ∈ s.cycle, ∀ record ∈ c.rows.head?, R.Ships c t record →
      R.verdict t record = some .brokerDown → ∀ r ∈ c.rows.tail, P c record r
  | .insert _ | .deletePublished _ | .lead _ | .release => True

/-- Only a turn has a condition, on the head of the batch. -/
instance (P : RelayCycle → Record → Record → Prop) [∀ c record r, Decidable (P c record r)]
    (s : State) : ∀ l : Label α, Decidable (R.AtDrop P s l)
  | .turn t => inferInstanceAs (Decidable (∀ c ∈ s.cycle, ∀ record ∈ c.rows.head?,
      R.Ships c t record → R.verdict t record = some .brokerDown → ∀ r ∈ c.rows.tail, P c record r))
  | .insert _ | .deletePublished _ | .lead _ | .release => .isTrue trivial

/-- No row behind a row whose lane drops is held back, or shares the key that is parked now. -/
def DropsNoneHeld : State → Label α → Prop :=
  R.AtDrop fun c record r ↦ ¬R.HeldBack ((R.plan record).key :: c.parked) c.down r

/-- A case of `AtDrop`. -/
instance (s : State) (l : Label α) : Decidable (R.DropsNoneHeld s l) :=
  inferInstanceAs (Decidable (R.AtDrop _ s l))

/-- All rows behind a row whose lane drops are rows of that lane. -/
def DropsOwnLane : State → Label α → Prop :=
  R.AtDrop fun _ record r ↦ laneOrDefault r.lane = laneOrDefault record.lane

/-- A case of `AtDrop`. -/
instance (s : State) (l : Label α) : Decidable (R.DropsOwnLane s l) :=
  inferInstanceAs (Decidable (R.AtDrop _ s l))

/-- The system from a state on. -/
def since (s : State) : StepSystem State (Label α) where
  init := (· = s)
  step := R.step

end Relay

/-- The steps within one cycle: its turns, and what others do between them. -/
def Label.within {α : Type*} : Label α → Bool
  | .insert _ | .deletePublished _ | .turn _ => true
  | .lead _ | .release => false

variable {α : Type*} {R : Relay α}

/-- More lanes down hold back more. -/
theorem Relay.HeldBack.mono {parked parked' down down' : List String} {r : Record}
    (h : R.HeldBack parked down r) (hparked : parked ⊆ parked') (hdown : down ⊆ down') :
    R.HeldBack parked' down' r :=
  h.imp (@hparked _) (@hdown _)

variable {s : State} {t : Turn α} {c : RelayCycle}

/-- The condition, at a turn of the loop. -/
theorem Relay.AtDrop.turn {P : RelayCycle → Record → Record → Prop} (h : R.AtDrop P s (.turn t))
    (hc : s.cycle = some c) {record : Record} {rest : List Record}
    (hrows : c.rows = record :: rest) (hships : R.Ships c t record)
    (hverdict : R.verdict t record = some .brokerDown) : ∀ r ∈ rest, P c record r := by
  have := h c hc record (by rw [hrows]; rfl) hships hverdict
  rwa [hrows] at this

/-! ### The remainder of a batch -/

/-- No row that `markOutage` has to mark is held back. -/
def NoneHeld (R : Relay α) (c : RelayCycle) : Prop :=
  ∀ r ∈ c.outaged, ¬R.HeldBack c.parked c.down r

/-- A turn keeps the invariant. -/
theorem NoneHeld.turn (h : NoneHeld R c) (hc : s.cycle = some c)
    (hcond : R.DropsNoneHeld s (.turn t)) :
    NoneHeld R (R.turn ⟨s.ledger, s.history, c⟩ t).cycle := by
  unfold Relay.turn
  split
  next x xs hout =>
    rcases markOutage_cases ⟨s.ledger, s.history, c⟩ t x xs with
      ⟨-, -, -, res, -, heq⟩ | ⟨-, heq⟩
    · rw [heq]
      exact fun r hr ↦ absurd hr not_mem_nil
    · rw [heq]
      intro r hr
      exact h r (hout ▸ mem_cons_of_mem x hr)
  next x xs hout hrows =>
    have hnil : ∀ r ∈ c.outaged, False := by
      intro r hr
      rw [show c.outaged = [] from hout] at hr
      exact not_mem_nil hr
    generalize hcycle : (R.runRelayLoop ⟨s.ledger, s.history, c⟩ t x xs).cycle = c'
    have hstepped : Stepped R c t x xs c' :=
      hcycle ▸ runRelayLoop_stepped ⟨s.ledger, s.history, c⟩ t x xs hout
    cases hstepped with
    | cut | counted => exact fun r hr ↦ (hnil r hr).elim
    | dropped res hships hverdict => exact hcond.turn hc hrows hships hverdict
  · exact h

/-- The invariant holds along every run with the condition. -/
theorem noneHeld_of_reach {I : Ledger → Prop} (hs : (R.system I).Reach R.DropsNoneHeld s) :
    ∀ c, s.cycle = some c → NoneHeld R c := by
  refine hs.invariant (P := fun s ↦ ∀ c, s.cycle = some c → NoneHeld R c) ?_ ?_
  · rintro s ⟨-, hcycle, -⟩ c hc
    cases hcycle.symm.trans hc
  · intro s l t _ hcond h hstep c hc
    cases l with
    | insert r =>
      obtain ⟨-, heq⟩ := ite_none_left_eq_some.1 hstep
      cases heq
      exact h c hc
    | deletePublished before =>
      cases hstep
      exact h c hc
    | lead unready =>
      obtain ⟨hnone, rfl⟩ := lead_eq_some.1 hstep
      unfold Relay.lead at hc
      dsimp only at hc
      split at hc
      · exact h c hc
      · cases hc
        rintro r - (hkey | hscope)
        · exact not_mem_nil hkey
        · exact not_mem_nil hscope
    | turn t =>
      obtain ⟨c₀, hc₀, rfl⟩ := map_eq_some_iff.1 hstep
      cases hc
      exact (h c₀ hc₀).turn hc₀ hcond
    | release =>
      obtain ⟨c₀, -, rfl⟩ := map_eq_some_iff.1 hstep
      cases hc

/-! ### A row that is held back -/

/-- Where a row `r` that is held back is, and `q` is what the ledger has of it. -/
structure Spared (R : Relay α) (q r : Record) (p : Pass) : Prop where
  held : R.HeldBack p.cycle.parked p.cycle.down r
  outaged : ∀ x ∈ p.cycle.outaged, x.id ≠ r.id
  rows : ∀ x ∈ p.cycle.rows, x.id = r.id → x = r
  ledger : q ∈ p.ledger

namespace Spared

variable {q r : Record} {p : Pass}

/-- A turn of the loop that leaves the row in the ledger. -/
theorem stepped (h : Spared R q r p) {p' : Pass} {x : Record} {xs : List Record}
    (hout : p.cycle.outaged = []) (hrows : p.cycle.rows = x :: xs)
    (hstepped : Stepped R p.cycle t x xs p'.cycle)
    (hcond : R.Ships p.cycle t x → R.verdict t x = some .brokerDown →
      ∀ y ∈ xs, ¬R.HeldBack ((R.plan x).key :: p.cycle.parked) p.cycle.down y)
    (hq : q ∈ p'.ledger) : Spared R q r p' := by
  have htail : ∀ y ∈ xs, y.id = r.id → y = r :=
    fun y hy ↦ h.rows y (hrows ▸ mem_cons_of_mem x hy)
  have hnil : ∀ y ∈ p.cycle.outaged, y.id ≠ r.id := by simp [hout]
  obtain ⟨l, history, c⟩ := p'
  cases hstepped with
  | cut => exact ⟨h.held, hnil, by simp, hq⟩
  | counted o parked down res hparked hdown =>
    exact ⟨h.held.mono hparked hdown, hnil, htail, hq⟩
  | dropped res hships hverdict =>
    have hheld := h.held.mono (subset_cons_self (R.plan x).key _) (List.Subset.refl _)
    refine ⟨hheld, fun y hy hid ↦ ?_, by simp, hq⟩
    have hfree := hcond hships hverdict y hy
    rw [htail y hy hid] at hfree
    exact hfree hheld

/-- A turn leaves the row alone. -/
theorem turn (h : Spared R q r ⟨s.ledger, s.history, c⟩) (hid : q.id = r.id)
    (hc : s.cycle = some c) (hcond : R.DropsNoneHeld s (.turn t)) :
    Spared R q r (R.turn ⟨s.ledger, s.history, c⟩ t) ∧
      ∃ new, (∀ e ∈ new, e.row ≠ some r.id) ∧
        (R.turn ⟨s.ledger, s.history, c⟩ t).history = new ++ s.history := by
  unfold Relay.turn
  split
  next x xs hout =>
    have hx : x.id ≠ r.id := h.outaged x (hout ▸ mem_cons_self ..)
    obtain ⟨_, _, _, _, _, _, hmark, _⟩ :=
      markOutage_turned (R := R) ⟨s.ledger, s.history, c⟩ t x xs
    have hq := hmark.mem_of_ne h.ledger (hid.trans_ne hx.symm)
    rcases markOutage_cases ⟨s.ledger, s.history, c⟩ t x xs with
      ⟨-, -, hhistory, res, -, heq⟩ | ⟨hhistory, heq⟩
    · refine ⟨⟨?_, ?_, ?_, hq⟩, [], by simp, hhistory⟩ <;> rw [heq]
      · exact h.held
      · simp
      · exact h.rows
    · refine ⟨⟨?_, ?_, ?_, hq⟩, [.outaged x.id], by simpa [Event.row] using hx, hhistory⟩ <;>
        rw [heq]
      · exact h.held
      · exact fun y hy ↦ h.outaged y (hout ▸ mem_cons_of_mem x hy)
      · exact h.rows
  next x xs hout hrows =>
    have hspared := h.stepped hout hrows
      (runRelayLoop_stepped ⟨s.ledger, s.history, c⟩ t x xs hout) (hcond.turn hc hrows)
    by_cases hx : x.id = r.id
    · -- it is the row itself, and the loop passes over it
      have hheld : R.HeldBack c.parked c.down x := by
        rw [h.rows x (hrows ▸ mem_cons_self ..) hx]
        exact h.held
      obtain ⟨hledger, hhistory⟩ :=
        runRelayLoop_of_heldBack ⟨s.ledger, s.history, c⟩ t xs hheld
      refine ⟨hspared ?_, [], by simp, hhistory⟩
      rw [hledger]
      exact h.ledger
    · obtain ⟨_, _, hmark, _⟩ := runRelayLoop_turned (R := R) ⟨s.ledger, s.history, c⟩ t x xs
      obtain ⟨new, hnew, hhistory⟩ :=
        runRelayLoop_history (R := R) ⟨s.ledger, s.history, c⟩ t x xs
      refine ⟨hspared (hmark.mem_of_ne h.ledger (hid.trans_ne (Ne.symm hx))), new,
        fun e he ↦ ?_, hhistory⟩
      rw [(hnew e he).row]
      exact fun heq ↦ hx (some_inj.1 heq)
  · exact ⟨h, [], by simp, rfl⟩

end Spared

/-- A row that is held back stays as it is while the cycle lasts. -/
theorem spared_of_reach {q r : Record} {s' : State} (hid : q.id = r.id)
    (hpending : q.status = .pending) (hc : s.cycle = some c)
    (h : Spared R q r ⟨s.ledger, s.history, c⟩)
    (hs' : (R.since s).Reach (fun u l ↦ l.within = true ∧ R.DropsNoneHeld u l) s') :
    (∃ c', s'.cycle = some c' ∧ Spared R q r ⟨s'.ledger, s'.history, c'⟩) ∧
      ∃ new, (∀ e ∈ new, e.row ≠ some r.id) ∧ s'.history = new ++ s.history := by
  refine hs'.invariant (P := fun u ↦ (∃ c', u.cycle = some c' ∧
    Spared R q r ⟨u.ledger, u.history, c'⟩) ∧
      ∃ new, (∀ e ∈ new, e.row ≠ some r.id) ∧ u.history = new ++ s.history) ?_ ?_
  · rintro u rfl
    exact ⟨⟨c, hc, h⟩, [], by simp, rfl⟩
  · rintro u l v - ⟨hwithin, hcond⟩ ⟨⟨c', hc', hspared⟩, new, hnew, hhistory⟩ hstep
    cases l with
    | lead | release => cases hwithin
    | insert x =>
      obtain ⟨-, heq⟩ := ite_none_left_eq_some.1 hstep
      cases heq
      exact ⟨⟨c', hc', { hspared with ledger := mem_append_left _ hspared.ledger }⟩, new, hnew,
        hhistory⟩
    | deletePublished before =>
      cases hstep
      have hkeep : q ∈ u.ledger.deletePublished before :=
        mem_filter.2 ⟨hspared.ledger, by simp [Ledger.expired, hpending]⟩
      exact ⟨⟨c', hc', { hspared with ledger := hkeep }⟩, new, hnew, hhistory⟩
    | turn t =>
      obtain ⟨c₀, hc₀, rfl⟩ := map_eq_some_iff.1 hstep
      cases hc'.symm.trans hc₀
      obtain ⟨hturn, new', hnew', hhistory'⟩ := hspared.turn hid hc' hcond
      refine ⟨⟨_, rfl, hturn⟩, new' ++ new, forall_mem_append.2 ⟨hnew', hnew⟩, ?_⟩
      rw [append_assoc, ← hhistory]
      exact hhistory'

/-! ### Runs -/

/-- A pending row of the AMQP lane. -/
def amqpRow (id exchange routingKey : String) (seq : ℤ) : Record :=
  { streamRow id "" "" seq with lane := "amqp", exchange := exchange, routingKey := routingKey }

/-- The broker refuses the message. -/
def nacked : Door :=
  { carrying with published := some { text := "nack" } }

/-- The AMQP client cannot be had. -/
def unreachable : Door :=
  { carrying with client := .error { text := "dial" } }

/-- **Held back means untouched.** A run begins on a ledger of pending rows with distinct ids, and
whenever a lane drops no row behind the one it dropped on is held back or has its key. Then a row of
a batch whose key is parked or whose scope is down sees, for the rest of its cycle, no attempt, no
mark and no judgement, and the ledger keeps it as it is. -/
theorem heldBack_untouched {s s' : State} {c : RelayCycle} {r : Record}
    (hs : (R.system Ledger.Fresh).Reach R.DropsNoneHeld s) (hc : s.cycle = some c)
    (hr : r ∈ c.todo) (hheld : R.HeldBack c.parked c.down r)
    (hs' : (R.since s).Reach (fun u l ↦ l.within = true ∧ R.DropsNoneHeld u l) s') :
    (∃ new, (∀ e ∈ new, e.row ≠ some r.id) ∧ s'.history = new ++ s.history) ∧
      (∃ q ∈ s.ledger, q.id = r.id) ∧ ∀ q ∈ s.ledger, q.id = r.id → q ∈ s'.ledger := by
  have hkept := reachable_kept hs.reachable
  have hwork := hkept.working c hc
  obtain ⟨q, hq, hid, hpending, -⟩ := hwork.pending r hr
  have hrows : r ∈ c.rows :=
    (mem_append.1 hr).resolve_left fun hout ↦ noneHeld_of_reach hs c hc r hout hheld
  have hnodup := hwork.nodup
  rw [RelayCycle.todo, map_append] at hnodup
  have hspared : Spared R q r ⟨s.ledger, s.history, c⟩ := by
    refine ⟨hheld, fun x hx heq ↦ ?_, fun x hx heq ↦ ?_, hq⟩
    · exact (disjoint_of_nodup_append hnodup) (mem_map_of_mem hx)
        (heq ▸ mem_map_of_mem hrows)
    · exact inj_on_of_nodup_map hnodup.of_append_right hx hrows heq
  obtain ⟨⟨c', -, hfinal⟩, hnew⟩ := spared_of_reach hid hpending hc hspared hs'
  refine ⟨hnew, ⟨q, hq, hid⟩, fun q' hq' hid' ↦ ?_⟩
  rw [Ledger.eq_of_id_eq hkept.nodup hq' hq (hid'.trans hid.symm)]
  exact hfinal.ledger

/-- The stall of a stream holds back its second row, while a row of the other lane, with nothing
behind it, meets a dropped connection. -/
theorem heldBack_untouched_after_stall :
    ∃ (s s' : State) (c : RelayCycle),
      (twoStreams.system Ledger.Fresh).Reach twoStreams.DropsNoneHeld s ∧ s.cycle = some c ∧
      streamRow "2" "a" "y" 2 ∈ c.todo ∧
      twoStreams.HeldBack c.parked c.down (streamRow "2" "a" "y" 2) ∧
      (twoStreams.since s).Reach (fun u l ↦ l.within = true ∧ twoStreams.DropsNoneHeld u l) s' ∧
      .shipped "3" .brokerDown ∈ s'.history ∧ streamRow "2" "a" "y" 2 ∈ s'.ledger := by
  obtain ⟨s, hrun, hc, hledger, s', hrun', hshipped⟩ : ∃ s : State,
      ((twoStreams.system Ledger.Fresh).restrict twoStreams.DropsNoneHeld).run
        { ledger := [streamRow "1" "a" "x" 1, streamRow "2" "a" "y" 2, amqpRow "3" "e" "k" 3] }
        [.lead fun _ ↦ false, .turn { door := stalled }] = some s ∧
      (∃ c, s.cycle = some c ∧ streamRow "2" "a" "y" 2 ∈ c.todo ∧
        twoStreams.HeldBack c.parked c.down (streamRow "2" "a" "y" 2)) ∧
      streamRow "2" "a" "y" 2 ∈ s.ledger ∧ ∃ s',
      ((twoStreams.since s).restrict
        fun u l ↦ l.within = true ∧ twoStreams.DropsNoneHeld u l).run s
        [.turn { door := carrying }, .turn { door := unreachable }] = some s' ∧
      .shipped "3" .brokerDown ∈ s'.history :=
    ⟨_, rfl, ⟨_, rfl, by decide, by decide⟩, by decide, _, rfl, by decide⟩
  obtain ⟨c, hc, hr, hheld⟩ := hc
  have hs : (twoStreams.system Ledger.Fresh).Reach twoStreams.DropsNoneHeld s :=
    .of_restrict (StepSystem.reach_of_run (.init ⟨⟨by decide, by decide⟩, rfl, rfl⟩) hrun)
  have hs' : (twoStreams.since s).Reach
      (fun u l ↦ l.within = true ∧ twoStreams.DropsNoneHeld u l) s' :=
    .of_restrict (StepSystem.reach_of_run (.init rfl) hrun')
  exact ⟨s, s', c, hs, hc, hr, hheld, hs', hshipped,
    (heldBack_untouched hs hc hr hheld hs').2.2 _ hledger rfl⟩

/-- Row `1` fails and parks its key. Then the connection drops on row `2`, and row `3`, which has
the key of row `1` and is held back, is marked as an outage: its `retry_count` and its error change.
-/
theorem heldBack_marked_after_drop :
    ∃ (s s' : State) (c : RelayCycle),
      (twoStreams.system Ledger.Fresh).Reachable s ∧ s.cycle = some c ∧
      amqpRow "3" "e" "k" 3 ∈ c.todo ∧
      twoStreams.HeldBack c.parked c.down (amqpRow "3" "e" "k" 3) ∧
      (twoStreams.since s).Reach (fun _ l ↦ l.within = true) s' ∧
      amqpRow "3" "e" "k" 3 ∈ s.ledger ∧ amqpRow "3" "e" "k" 3 ∉ s'.ledger ∧
      { amqpRow "3" "e" "k" 3 with retryCount := 1, error := "messaging unavailable" } ∈ s'.ledger ∧
      .outaged "3" ∈ s'.history ∧ .outaged "3" ∉ s.history := by
  have hrun : (twoStreams.system Ledger.Fresh).run
      { ledger := [amqpRow "1" "e" "k" 1, amqpRow "2" "e" "l" 2, amqpRow "3" "e" "k" 3] }
      [.lead fun _ ↦ false, .turn { door := nacked }] = some _ := rfl
  exact ⟨_, _, _, StepSystem.reach_of_run (.init ⟨⟨by decide, by decide⟩, rfl, rfl⟩) hrun, rfl,
    by decide, by decide, .of_restrict (StepSystem.reach_of_run (.init rfl)
      (show StepSystem.run _ _ [.turn { door := unreachable }, .turn { door := carrying }] =
        some _ from rfl)), by decide, by decide, by decide, by decide, by decide⟩

/-! ### The lane of a row that is charged -/

/-- The events of the latest cycle. -/
def sinceFetched (history : List Event) : List Event :=
  history.takeWhile fun
    | .fetched _ => false
    | _ => true

theorem sinceFetched_append {new history : List Event} (hnew : ∀ e ∈ new, e.row ≠ none) :
    sinceFetched (new ++ history) = new ++ sinceFetched history := by
  induction new with
  | nil => rfl
  | cons e new ih =>
    obtain ⟨he, htail⟩ := forall_mem_cons.1 hnew
    cases e with
    | fetched => exact absurd rfl he
    | shipped | outaged | judgedPoison | deadLettered => exact congrArg _ (ih htail)

/-- The rows that are set aside before the loop. -/
theorem lane_of_mem_outaged {records : List Record} {down : List String} {r : Record}
    (h : r ∈ (splitOnDownLanes records down).2) : laneOrDefault r.lane ∈ down := by
  rw [splitOnDownLanes, partition_eq_filter_filter] at h
  simpa using (mem_filter.1 h).2

/-- Only lanes this build knows are asked whether they are ready. -/
theorem shippers_of_mem_preflight {unready : String → Bool} {lane : String}
    (h : lane ∈ preflight unready) : R.shippers lane ≠ none := by
  have hlane : lane ∈ laneOrder := (mem_filter.1 h).1
  unfold Relay.shippers
  split
  · exact some_ne_none _
  next hamqp =>
    rw [if_pos ((mem_cons.1 hlane).resolve_left hamqp |> mem_singleton.1)]
    exact some_ne_none _

/-- The lane of a row is one this build knows, and it reported itself unusable in this cycle. -/
def LaneOut (R : Relay α) (history : List Event) (c : RelayCycle) (lane : String) : Prop :=
  R.shippers lane ≠ none ∧ (lane ∈ c.downLanes ∨
    ∃ q ∈ c.records, laneOrDefault q.lane = lane ∧ .shipped q.id .brokerDown ∈ sinceFetched history)

/-- The rows that were marked, or will be, are rows of lanes that are out. -/
structure Isolated (R : Relay α) (history : List Event) (c : RelayCycle) : Prop where
  nodup : (c.records.map Record.id).Nodup
  todo : ∀ r ∈ c.todo, r ∈ c.records
  outaged : ∀ r ∈ c.outaged, LaneOut R history c (laneOrDefault r.lane)
  marked : ∀ id, .outaged id ∈ sinceFetched history →
    ∃ r ∈ c.records, r.id = id ∧ LaneOut R history c (laneOrDefault r.lane)

theorem LaneOut.append {history : List Event} {lane : String} (h : LaneOut R history c lane)
    {new : List Event} (hnew : ∀ e ∈ new, e.row ≠ none) : LaneOut R (new ++ history) c lane := by
  refine ⟨h.1, h.2.imp_right fun ⟨q, hq, hlane, hmem⟩ ↦ ⟨q, hq, hlane, ?_⟩⟩
  rw [sinceFetched_append hnew]
  exact mem_append_right new hmem

namespace Isolated

variable {history new : List Event} {c c' : RelayCycle}

/-- A turn that marks no outage. -/
theorem of_attempt (h : Isolated R history c) (hnew : ∀ e ∈ new, ∃ id, e.OfTurn id)
    (hrecords : c'.records = c.records) (hdown : c'.downLanes = c.downLanes)
    (htodo : ∀ r ∈ c'.todo, r ∈ c.todo)
    (houtaged : ∀ r ∈ c'.outaged, LaneOut R (new ++ history) c' (laneOrDefault r.lane)) :
    Isolated R (new ++ history) c' := by
  have hrow : ∀ e ∈ new, e.row ≠ none := by
    intro e he
    obtain ⟨id, hid⟩ := hnew e he
    rw [hid.row]
    exact some_ne_none id
  have hsame {lane : String} (hl : LaneOut R history c lane) :
      LaneOut R (new ++ history) c' lane := by
    have := hl.append hrow
    rwa [LaneOut, ← hrecords, ← hdown] at this
  refine ⟨hrecords ▸ h.nodup, fun r hr ↦ hrecords ▸ h.todo r (htodo r hr), houtaged,
    fun id hid ↦ ?_⟩
  rw [sinceFetched_append hrow] at hid
  rcases mem_append.1 hid with hid | hid
  · obtain ⟨_, hattempt⟩ := hnew _ hid
    exact hattempt.elim
  · obtain ⟨r, hr, hrid, hl⟩ := h.marked id hid
    exact ⟨r, hrecords ▸ hr, hrid, hsame hl⟩

/-- A turn of the loop. -/
theorem loop (h : Isolated R s.history c) (hc : s.cycle = some c)
    (hcond : R.DropsOwnLane s (.turn t)) {x : Record} {xs : List Record} (hout : c.outaged = [])
    (hrows : c.rows = x :: xs) :
    Isolated R (R.runRelayLoop ⟨s.ledger, s.history, c⟩ t x xs).history
      (R.runRelayLoop ⟨s.ledger, s.history, c⟩ t x xs).cycle := by
  obtain ⟨new, hnew, hhistory⟩ := runRelayLoop_history (R := R) ⟨s.ledger, s.history, c⟩ t x xs
  have hstepped := runRelayLoop_stepped (R := R) ⟨s.ledger, s.history, c⟩ t x xs hout
  have hshipped (hships : R.Ships c t x) (hverdict : R.verdict t x = some .brokerDown) :=
    runRelayLoop_shipped ⟨s.ledger, s.history, c⟩ xs hships hverdict
  generalize (R.runRelayLoop ⟨s.ledger, s.history, c⟩ t x xs).cycle = c' at hstepped
  have hx : x ∈ c.records := h.todo x (mem_append_right _ (hrows ▸ mem_cons_self ..))
  have hnone : ∀ r ∈ c.outaged, LaneOut R (new ++ s.history) c (laneOrDefault r.lane) := by
    simp [hout]
  rw [hhistory]
  cases hstepped with
  | cut =>
    refine h.of_attempt (fun e he ↦ ⟨_, hnew e he⟩) rfl rfl (fun r hr ↦ ?_) hnone
    simp [RelayCycle.todo, hout] at hr
  | counted =>
    refine h.of_attempt (fun e he ↦ ⟨_, hnew e he⟩) rfl rfl (fun r hr ↦ ?_) hnone
    have hr : r ∈ xs := by simpa [RelayCycle.todo, hout] using hr
    exact mem_append_right _ (hrows ▸ mem_cons_of_mem x hr)
  | dropped res hships hverdict =>
    obtain ⟨new', hnew', hmem, hhistory'⟩ := hshipped hships hverdict
    obtain rfl : new = new' := append_cancel_right (hhistory.symm.trans hhistory')
    refine h.of_attempt (fun e he ↦ ⟨_, hnew e he⟩) rfl rfl (fun r hr ↦ ?_) fun r hr ↦ ?_
    · have hr : r ∈ xs := by simpa [RelayCycle.todo] using hr
      exact mem_append_right _ (hrows ▸ mem_cons_of_mem x hr)
    · -- the lane that dropped is the lane of every row behind
      have hlane := hcond.turn hc hrows hships hverdict r hr
      refine ⟨fun hnone ↦ ?_, .inr ⟨x, hx, hlane.symm, ?_⟩⟩
      · rw [Relay.verdict, ← hlane, hnone] at hverdict
        cases hverdict
      · rw [sinceFetched_append fun e he ↦ by rw [(hnew e he).row]; exact some_ne_none _]
        exact mem_append_left _ hmem

/-- A turn of `markOutage`. -/
theorem mark (h : Isolated R history c) {l : Ledger} {x : Record} {xs : List Record}
    (hout : c.outaged = x :: xs) :
    Isolated R (Relay.markOutage ⟨l, history, c⟩ t x xs).history
      (Relay.markOutage ⟨l, history, c⟩ t x xs).cycle := by
  rcases markOutage_cases ⟨l, history, c⟩ t x xs with
    ⟨-, -, hhistory, res, -, heq⟩ | ⟨hhistory, heq⟩
  · rw [hhistory, heq]
    refine ⟨h.nodup, fun r hr ↦ h.todo r ?_, by simp, h.marked⟩
    exact mem_append_right _ (by simpa [RelayCycle.todo] using hr)
  · have hnew : ∀ e ∈ [Event.outaged x.id], e.row ≠ none := by simp [Event.row]
    have hx := h.outaged x (hout ▸ mem_cons_self ..)
    rw [hhistory, heq]
    refine ⟨h.nodup, fun r hr ↦ h.todo r ?_, fun r hr ↦ ?_, fun id hid ↦ ?_⟩
    · rw [RelayCycle.todo, hout]
      exact mem_cons_of_mem x hr
    · exact (h.outaged r (hout ▸ mem_cons_of_mem x hr)).append hnew
    · rw [show Event.outaged x.id :: history = [.outaged x.id] ++ history from rfl,
        sinceFetched_append hnew] at hid
      rcases mem_append.1 hid with hid | hid
      · obtain rfl : id = x.id := by simpa using hid
        have hmem : x ∈ c.todo := mem_append_left _ (hout ▸ mem_cons_self ..)
        exact ⟨x, h.todo x hmem, rfl, hx.append hnew⟩
      · obtain ⟨r, hr, hrid, hl⟩ := h.marked id hid
        exact ⟨r, hr, hrid, hl.append hnew⟩

/-- A turn keeps the lanes apart. -/
theorem turn (h : Isolated R s.history c) (hc : s.cycle = some c)
    (hcond : R.DropsOwnLane s (.turn t)) :
    Isolated R (R.turn ⟨s.ledger, s.history, c⟩ t).history
      (R.turn ⟨s.ledger, s.history, c⟩ t).cycle := by
  unfold Relay.turn
  split
  next x xs hout => exact h.mark hout
  next x xs hout hrows => exact h.loop hc hcond hout hrows
  · exact h

/-- A cycle begins with the rows of the lanes that are not ready. -/
theorem lead (hnodup : (s.ledger.map Record.id).Nodup) (unready : String → Bool)
    (hc : (R.lead s unready).cycle = some c) (hnone : s.cycle = none) :
    Isolated R (R.lead s unready).history c := by
  unfold Relay.lead at hc ⊢
  dsimp only at hc ⊢
  split at hc
  · cases hnone.symm.trans hc
  next hrecords =>
    rw [if_neg hrecords]
    cases hc
    have hwork := working_of_fetched hnodup R.batchSize (preflight unready)
    have hperm := splitOnDownLanes_perm (s.ledger.fetchPending R.batchSize) (preflight unready)
    refine ⟨(hperm.map _).nodup_iff.1 hwork.nodup, fun r hr ↦ hperm.mem_iff.1 hr, fun r hr ↦ ?_,
      fun id hid ↦ by cases hid⟩
    have hdown := lane_of_mem_outaged hr
    exact ⟨shippers_of_mem_preflight hdown, .inl hdown⟩

end Isolated

/-- **Lanes fail alone.** A run begins on a ledger of pending rows with distinct ids, and whenever a
lane drops all rows behind the one it dropped on are rows of that lane. Then a row of a batch is
marked by the outage path only if its own lane, one that this build knows, was not ready before the
loop, or a `Ship` on it reported it down, in the same cycle. -/
theorem outaged_on_own_lane {s : State} {c : RelayCycle} {r : Record}
    (hs : (R.system Ledger.Fresh).Reach R.DropsOwnLane s) (hc : s.cycle = some c)
    (hr : r ∈ c.records) (hmark : .outaged r.id ∈ sinceFetched s.history) :
    R.shippers (laneOrDefault r.lane) ≠ none ∧ (laneOrDefault r.lane ∈ c.downLanes ∨
      ∃ q ∈ c.records, laneOrDefault q.lane = laneOrDefault r.lane ∧
        .shipped q.id .brokerDown ∈ sinceFetched s.history) := by
  have hinv : ∀ c, s.cycle = some c → Isolated R s.history c := by
    refine hs.invariant (P := fun s ↦ ∀ c, s.cycle = some c → Isolated R s.history c) ?_ ?_
    · rintro s ⟨-, hcycle, -⟩ c hc
      cases hcycle.symm.trans hc
    · intro s l t hreach hcond h hstep c hc
      cases l with
      | insert r =>
        obtain ⟨-, heq⟩ := ite_none_left_eq_some.1 hstep
        cases heq
        exact h c hc
      | deletePublished before =>
        cases hstep
        exact h c hc
      | lead unready =>
        obtain ⟨hnone, rfl⟩ := lead_eq_some.1 hstep
        exact .lead (reachable_kept hreach.reachable).nodup unready hc hnone
      | turn t =>
        obtain ⟨c₀, hc₀, rfl⟩ := map_eq_some_iff.1 hstep
        cases hc
        exact (h c₀ hc₀).turn hc₀ hcond
      | release =>
        obtain ⟨c₀, -, rfl⟩ := map_eq_some_iff.1 hstep
        cases hc
  have hisolated := hinv c hc
  obtain ⟨x, hx, hid, hlane⟩ := hisolated.marked r.id hmark
  obtain rfl := inj_on_of_nodup_map hisolated.nodup hx hr hid
  exact hlane

/-- The rows of the AMQP lane behind a dropped connection are marked, the stream row ahead is not.
-/
theorem outaged_on_own_lane_after_drop :
    ∃ (s : State) (c : RelayCycle),
      (twoStreams.system Ledger.Fresh).Reach twoStreams.DropsOwnLane s ∧ s.cycle = some c ∧
      amqpRow "3" "e" "k" 3 ∈ c.records ∧ .outaged "3" ∈ sinceFetched s.history ∧
      ("amqp" ∈ c.downLanes ∨ ∃ q ∈ c.records, laneOrDefault q.lane = "amqp" ∧
        .shipped q.id .brokerDown ∈ sinceFetched s.history) := by
  have hrun : ((twoStreams.system Ledger.Fresh).restrict twoStreams.DropsOwnLane).run
      { ledger := [streamRow "1" "a" "x" 1, amqpRow "2" "e" "l" 2, amqpRow "3" "e" "k" 3] }
      [.lead fun _ ↦ false, .turn { door := carrying }, .turn { door := unreachable },
        .turn { door := carrying }] = some _ := rfl
  have hs : (twoStreams.system Ledger.Fresh).Reach twoStreams.DropsOwnLane _ :=
    .of_restrict (StepSystem.reach_of_run (.init ⟨⟨by decide, by decide⟩, rfl, rfl⟩) hrun)
  exact ⟨_, _, hs, rfl, by decide, by decide,
    (outaged_on_own_lane (r := amqpRow "3" "e" "k" 3) hs rfl (by decide) (by decide)).2⟩

/-- The AMQP connection drops on row `1`. Row `2` of the stream lane, whose stream is carrying
messages, and row `3` of a lane nobody knows are marked as outages. -/
theorem outaged_by_other_lane :
    ∃ (s : State) (c : RelayCycle), (twoStreams.system Ledger.Fresh).Reachable s ∧
      s.cycle = some c ∧ c.downLanes = [] ∧
      ∀ r ∈ [streamRow "2" "a" "x" 2, { streamRow "3" "" "" 3 with lane := "fax" }],
        r ∈ c.records ∧ .outaged r.id ∈ sinceFetched s.history ∧
        ¬∃ q ∈ c.records, laneOrDefault q.lane = laneOrDefault r.lane ∧
          .shipped q.id .brokerDown ∈ sinceFetched s.history := by
  have hrun : (twoStreams.system Ledger.Fresh).run
      { ledger := [amqpRow "1" "e" "k" 1, streamRow "2" "a" "x" 2,
        { streamRow "3" "" "" 3 with lane := "fax" }] }
      [.lead fun _ ↦ false, .turn { door := unreachable }, .turn { door := carrying },
        .turn { door := carrying }] = some _ := rfl
  exact ⟨_, _, StepSystem.reach_of_run (.init ⟨⟨by decide, by decide⟩, rfl, rfl⟩) hrun, rfl,
    by decide, by decide⟩

end Outbox
