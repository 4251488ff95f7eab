import GoBricks.Outbox.HoldBack

/-!
# The counts of a cycle add up

The exported counters and the alerts on them are sums of one cycle's counts over all lanes, the
unknown ones included. A cycle counts a row at six places: before the loop and after a drop
(`markOutage`), when it holds the row back by scope or by key, when its plan is poison, and by the
verdict of a `Ship`.

`ofTally` is the result of counting a list of rows, each once. A cycle's counters are at any time
those of the rows it is done with (`Tallied`), so a cycle that is not cut short ends with the count
of its batch, and any other with at most that.
-/

namespace Outbox

namespace LaneCounts

/-- The sum of two counts. -/
def add (a b : LaneCounts) : LaneCounts where
  published := a.published + b.published
  failed := a.failed + b.failed
  deadlettered := a.deadlettered + b.deadlettered
  parked := a.parked + b.parked

/-- The rows of a lane's share. -/
def sum (c : LaneCounts) : ℕ :=
  c.published + c.failed + c.deadlettered + c.parked

theorem sum_add (a b : LaneCounts) : (a.add b).sum = a.sum + b.sum := by
  simp only [add, sum]
  omega

end LaneCounts

namespace RelayBatchResult

variable (res : RelayBatchResult)

/-- Sums every lane's share. -/
def totals : LaneCounts :=
  res.byLane.entries.foldl (fun t e ↦ t.add e.2) {}

/-- All rows that were counted. -/
def total : ℕ :=
  res.totals.published + res.unrecorded + res.totals.failed + res.totals.deadlettered +
    res.totals.parked

theorem total_eq : res.total = res.totals.sum + res.unrecorded := by
  simp only [total, LaneCounts.sum]
  omega

/-- The rows of a list of shares. -/
def shares : List (Sigma fun _ : String ↦ LaneCounts) → ℕ
  | [] => 0
  | e :: entries => e.2.sum + shares entries

/-- The totals are summed lane by lane. -/
theorem sum_foldl (entries : List (Sigma fun _ : String ↦ LaneCounts)) (t : LaneCounts) :
    (entries.foldl (fun t e ↦ t.add e.2) t).sum = t.sum + shares entries := by
  induction entries generalizing t with
  | nil => rfl
  | cons e entries ih =>
    rw [List.foldl_cons, ih, LaneCounts.sum_add, shares]
    omega

theorem sum_totals : res.totals.sum = shares res.byLane.entries := by
  rw [totals, sum_foldl]
  exact Nat.zero_add _

/-- A lane's share and the others. -/
theorem shares_kerase (lane : String) (entries : List (Sigma fun _ : String ↦ LaneCounts)) :
    shares entries =
      ((entries.dlookup lane).getD {}).sum + shares (entries.kerase lane) := by
  induction entries with
  | nil => rfl
  | cons e entries ih =>
    obtain ⟨lane', counts⟩ := e
    by_cases h : lane = lane'
    · subst h
      have herase : List.kerase lane (⟨lane, counts⟩ :: entries) = entries := by
        simp [List.kerase]
      rw [List.dlookup_cons_eq, herase]
      rfl
    · rw [List.dlookup_cons_ne _ _ h, List.kerase_cons_ne h, shares, shares, ih]
      omega

/-- Counting one row of a lane. -/
theorem sum_totals_count {lane : String} {bump : LaneCounts → LaneCounts}
    (hbump : ∀ c, (bump c).sum = c.sum + 1) :
    (res.count lane bump).totals.sum = res.totals.sum + 1 := by
  have hold := shares_kerase lane res.byLane.entries
  have hnew : shares (res.count lane bump).byLane.entries =
      (bump ((res.byLane.entries.dlookup lane).getD {})).sum +
        shares (res.byLane.entries.kerase lane) := rfl
  rw [hbump] at hnew
  rw [sum_totals, sum_totals, hold, hnew]
  omega

theorem total_tally (lane : String) (o : Tally) : (res.tally lane o).total = res.total + 1 := by
  have hcount {bump : LaneCounts → LaneCounts} (hbump : ∀ c, (bump c).sum = c.sum + 1) :
      (res.count lane bump).total = res.total + 1 := by
    rw [total_eq, total_eq, sum_totals_count res hbump]
    show _ + 1 + res.unrecorded = _
    omega
  cases o with
  | parked => exact hcount fun c ↦ by simp only [LaneCounts.sum]; omega
  | outcome o =>
    cases o with
    | publishedUnrecorded =>
      rw [total_eq, total_eq]
      exact (Nat.add_assoc ..).symm
    | published | failed | deadLettered => exact hcount fun c ↦ by simp only [LaneCounts.sum]; omega

theorem SameCounts.total_eq {a b : RelayBatchResult} (h : SameCounts a b) : a.total = b.total := by
  rw [RelayBatchResult.total_eq, RelayBatchResult.total_eq, sum_totals, sum_totals, h.byLane,
    h.unrecorded]

/-- The result of counting rows, each once and on its own lane; the latest comes first. -/
def ofTally : List (Record × Tally) → RelayBatchResult
  | [] => {}
  | (r, o) :: done => (ofTally done).tally (laneOrDefault r.lane) o

/-- The total is the number of rows. -/
theorem total_ofTally (done : List (Record × Tally)) : (ofTally done).total = done.length := by
  induction done with
  | nil => rfl
  | cons e done ih =>
    rw [ofTally, total_tally, ih, List.length_cons]

end RelayBatchResult

open RelayBatchResult

variable {α : Type*} {R : Relay α}

/-! ### One turn -/

/-- What a turn does to the rows there are to do and to the counters. -/
theorem turn_tallied (p : Pass) (t : Turn α) :
    (R.turn p t).cycle.records = p.cycle.records ∧
    (R.turn p t = p ∨
    ∃ record rest, p.cycle.todo = record :: rest ∧
      ((R.Cut p.cycle t record ∧ (R.turn p t).cycle.todo.Sublist rest ∧
        SameCounts (R.turn p t).cycle.res p.cycle.res) ∨
      ((R.turn p t).cycle.todo = rest ∧ ∃ o,
        SameCounts (R.turn p t).cycle.res (p.cycle.res.tally (laneOrDefault record.lane) o)))) := by
  unfold Relay.turn
  split
  next x xs hout =>
    have htodo : p.cycle.todo = x :: (xs ++ p.cycle.rows) := by
      rw [RelayCycle.todo, hout]
      rfl
    rcases markOutage_cases p t x xs with ⟨hcut, -, -, res, hres, heq⟩ | ⟨-, heq⟩
    · rw [heq]
      refine ⟨rfl, .inr ⟨x, _, htodo, .inl ⟨hcut.imp_right .inl, ?_, hres⟩⟩⟩
      exact List.sublist_append_right xs p.cycle.rows
    · rw [heq]
      exact ⟨rfl, .inr ⟨x, _, htodo, .inr ⟨rfl, .outcome .failed, .refl _⟩⟩⟩
  next x xs hout hrows =>
    have htodo : p.cycle.todo = x :: xs := by
      rw [RelayCycle.todo, hout, hrows]
      rfl
    have hstepped := runRelayLoop_stepped (R := R) p t x xs hout
    generalize R.runRelayLoop p t x xs = p' at hstepped
    generalize hc : p'.cycle = c' at hstepped
    cases hstepped with
    | cut res hcut hres =>
      refine ⟨rfl, .inr ⟨x, xs, htodo, .inl ⟨hcut, ?_, hres⟩⟩⟩
      simp [RelayCycle.todo, hout]
    | counted o parked down res _ _ hres =>
      exact ⟨rfl, .inr ⟨x, xs, htodo, .inr ⟨by simp [RelayCycle.todo, hout], o, hres⟩⟩⟩
    | dropped res _ _ hres =>
      exact ⟨rfl, .inr ⟨x, xs, htodo, .inr ⟨by simp [RelayCycle.todo], _, hres⟩⟩⟩
  · exact ⟨rfl, .inl rfl⟩

/-! ### Whole cycles -/

namespace Relay

variable (R)

/-- No turn is cut short: not by the context, not by the leader probe, not by an aborted `Ship`. -/
def Uncut (s : State) : Label α → Prop
  | .turn t => ∀ c ∈ s.cycle, ∀ record ∈ c.todo.head?, ¬R.Cut c t record
  | .insert _ | .deletePublished _ | .lead _ | .release => True

/-- Only a turn has a condition, on the head of what is left. -/
instance (s : State) : ∀ l : Label α, Decidable (R.Uncut s l)
  | .turn t =>
    inferInstanceAs (Decidable (∀ c ∈ s.cycle, ∀ record ∈ c.todo.head?, ¬R.Cut c t record))
  | .insert _ | .deletePublished _ | .lead _ | .release => .isTrue trivial

end Relay

/-- The counters of a cycle on a batch are those of the rows it is done with: with the rows there
are to do, these are the batch as far as `Rel` says. -/
def Tallied (Rel : List Record → List Record → Prop) (batch : List Record) (c : RelayCycle) :
    Prop :=
  ∃ done, SameCounts c.res (ofTally done) ∧ Rel (done.map Prod.fst ++ c.todo) batch

/-- A row that is counted moves from the rows to do to those that are done. -/
theorem move_perm (done todo : List Record) (record : Record) :
    (record :: done ++ todo).Perm (done ++ record :: todo) :=
  List.perm_middle.symm

section

variable {s : State} {c : RelayCycle} {batch : List Record} {t : Turn α}

/-- A turn that is not cut short leaves every row accounted for. -/
theorem Tallied.turn_uncut (h : Tallied List.Perm batch c) (hc : s.cycle = some c)
    (hcond : R.Uncut s (.turn t)) :
    Tallied List.Perm batch (R.turn ⟨s.ledger, s.history, c⟩ t).cycle := by
  obtain ⟨done, hcounts, hperm⟩ := h
  rcases (turn_tallied (R := R) ⟨s.ledger, s.history, c⟩ t).2 with
    heq | ⟨record, rest, htodo, ⟨hcut, -⟩ | ⟨hrest, o, hres⟩⟩
  · rw [heq]
    exact ⟨done, hcounts, hperm⟩
  · exact absurd hcut (hcond c hc record (by rw [htodo]; rfl))
  · refine ⟨(record, o) :: done, hres.trans (hcounts.tally _ o), ?_⟩
    rw [hrest]
    rw [htodo] at hperm
    exact (move_perm _ rest record).trans hperm

/-- Any turn leaves every row counted at most once. -/
theorem Tallied.turn (h : Tallied List.Subperm batch c) :
    Tallied List.Subperm batch (R.turn ⟨s.ledger, s.history, c⟩ t).cycle := by
  obtain ⟨done, hcounts, hsub⟩ := h
  rcases (turn_tallied (R := R) ⟨s.ledger, s.history, c⟩ t).2 with
    heq | ⟨record, rest, htodo, ⟨-, hrest, hres⟩ | ⟨hrest, o, hres⟩⟩
  · rw [heq]
    exact ⟨done, hcounts, hsub⟩
  · refine ⟨done, hres.trans hcounts, List.Subperm.trans (List.Sublist.subperm ?_) hsub⟩
    rw [htodo]
    exact (hrest.cons record).append_left _
  · refine ⟨(record, o) :: done, hres.trans (hcounts.tally _ o), ?_⟩
    rw [hrest]
    rw [htodo] at hsub
    exact (move_perm _ rest record).subperm.trans hsub

/-- What a turn keeps, a cycle keeps to its end. -/
theorem tallied_of_reach {Rel : List Record → List Record → Prop} {C : State → Label α → Prop}
    {s' : State} (h : ∀ c, s.cycle = some c → Tallied Rel batch c)
    (hturn : ∀ u c t, u.cycle = some c → C u (.turn t) → Tallied Rel batch c →
      Tallied Rel batch (R.turn ⟨u.ledger, u.history, c⟩ t).cycle)
    (hs' : (R.since s).Reach (fun u l ↦ l.within = true ∧ C u l) s') :
    ∀ c, s'.cycle = some c → Tallied Rel batch c := by
  refine hs'.invariant (P := fun u ↦ ∀ c, u.cycle = some c → Tallied Rel batch c) ?_ ?_
  · rintro u rfl
    exact h
  · rintro u l v - ⟨hwithin, hcond⟩ hinv hstep c hc
    cases l with
    | lead | release => cases hwithin
    | insert x =>
      obtain ⟨-, heq⟩ := Option.ite_none_left_eq_some.1 hstep
      cases heq
      exact hinv c hc
    | deletePublished before =>
      cases hstep
      exact hinv c hc
    | turn t =>
      obtain ⟨c₀, hc₀, rfl⟩ := Option.map_eq_some_iff.1 hstep
      cases hc
      exact hturn u c₀ t hc₀ hcond (hinv c₀ hc₀)

/-- A cycle begins with its batch to do and nothing counted. -/
theorem tallied_lead {unready : String → Bool} {s₁ : State}
    (hlead : R.step s (.lead unready) = some s₁) (hc : s₁.cycle = some c) :
    Tallied List.Perm (s.ledger.fetchPending R.batchSize) c := by
  obtain ⟨hnone, rfl⟩ := lead_eq_some.1 hlead
  unfold Relay.lead at hc
  dsimp only at hc
  split at hc
  · cases hnone.symm.trans hc
  · cases hc
    exact ⟨[], .refl _, splitOnDownLanes_perm _ _⟩

end

/-- **The counts add up.** A relay leads and fetches a batch; other transactions may insert rows and
delete published ones at any time. If no turn of its cycle is cut short, then when nothing is left
to do the counts over all lanes are the number of rows fetched, and the counters are those of the
rows of the batch, each counted once. In any case they are those of rows of the batch, each counted
at most once, and at most that number. -/
theorem counts_conserved {s s₁ : State} {unready : String → Bool}
    (hlead : R.step s (.lead unready) = some s₁) :
    (∀ s' c, (R.since s₁).Reach (fun u l ↦ l.within = true ∧ R.Uncut u l) s' → s'.cycle = some c →
      c.todo = [] → c.res.total = (s.ledger.fetchPending R.batchSize).length ∧
        ∃ done, SameCounts c.res (ofTally done) ∧
          (done.map Prod.fst).Perm (s.ledger.fetchPending R.batchSize)) ∧
    ∀ s' c, (R.since s₁).Reach (fun _ l ↦ l.within = true) s' → s'.cycle = some c →
      c.res.total ≤ (s.ledger.fetchPending R.batchSize).length ∧
        ∃ done, SameCounts c.res (ofTally done) ∧
          (done.map Prod.fst).Subperm (s.ledger.fetchPending R.batchSize) := by
  refine ⟨fun s' c hs' hc htodo ↦ ?_, fun s' c hs' hc ↦ ?_⟩
  · obtain ⟨done, hcounts, hperm⟩ := tallied_of_reach (fun c hc ↦ tallied_lead hlead hc)
      (fun u c t hc hcond h ↦ h.turn_uncut hc hcond) hs' c hc
    rw [htodo, List.append_nil] at hperm
    refine ⟨?_, done, hcounts, hperm⟩
    rw [hcounts.total_eq, total_ofTally, ← hperm.length_eq, List.length_map]
  · have hany : (R.since s₁).Reach (fun u l ↦ l.within = true ∧ True) s' := by
      simpa using hs'
    obtain ⟨done, hcounts, hsub⟩ := tallied_of_reach (C := fun _ _ ↦ True)
      (fun c hc ↦ (tallied_lead hlead hc).imp fun _ h ↦ ⟨h.1, h.2.subperm⟩)
      (fun u c t _ _ h ↦ h.turn) hany c hc
    have hdone := (List.sublist_append_left (done.map Prod.fst) c.todo).subperm.trans hsub
    refine ⟨?_, done, hcounts, hdone⟩
    rw [hcounts.total_eq, total_ofTally]
    have hlen := hdone.length_le
    rwa [List.length_map] at hlen

/-- A dead letter on a lane nobody knows, a delivery, a stall that holds a row back, and a row of a
lane that was not ready: five rows, five counts. -/
theorem counts_conserved_five_rows :
    ∃ (s s₁ s' : State) (c : RelayCycle),
      twoStreams.step s (.lead fun lane ↦ lane = "amqp") = some s₁ ∧
      (twoStreams.since s₁).Reach (fun u l ↦ l.within = true ∧ twoStreams.Uncut u l) s' ∧
      s'.cycle = some c ∧ c.todo = [] ∧ c.res.total = 5 ∧
      c.res.totals = { published := 1, failed := 2, deadlettered := 1, parked := 1 } := by
  let s : State :=
    { ledger := [{ streamRow "1" "" "" 1 with lane := "fax", retryCount := 4 },
        streamRow "2" "a:b" "x" 2, streamRow "3" "a" "x" 3, amqpRow "4" "e" "k" 4,
        streamRow "5" "a" "y" 5] }
  obtain ⟨s₁, hlead, s', hrun, c, hc, htodo, htotals⟩ : ∃ s₁,
      twoStreams.step s (.lead fun lane ↦ lane = "amqp") = some s₁ ∧ ∃ s',
      ((twoStreams.since s₁).restrict fun u l ↦ l.within = true ∧ twoStreams.Uncut u l).run s₁
        [.turn { door := carrying }, .turn { door := carrying }, .turn { door := carrying },
          .turn { door := stalled }, .turn { door := carrying }] = some s' ∧
      ∃ c, s'.cycle = some c ∧ c.todo = [] ∧
        c.res.totals = { published := 1, failed := 2, deadlettered := 1, parked := 1 } :=
    ⟨_, rfl, _, rfl, _, rfl, by decide, by decide⟩
  have hs' : (twoStreams.since s₁).Reach
      (fun u l ↦ l.within = true ∧ twoStreams.Uncut u l) s' :=
    .of_restrict (StepSystem.reach_of_run (.init rfl) hrun)
  exact ⟨s, s₁, s', c, hlead, hs', hc, htodo, ((counts_conserved hlead).1 s' c hs' hc htodo).1,
    htotals⟩

end Outbox
