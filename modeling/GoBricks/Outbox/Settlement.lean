import GoBricks.Outbox.Order

/-!
# No event is lost

The ledger against the history. A row is published only after its lane's `Ship` reported a delivery,
and failed only after a cycle judged it poison with its `retry_count` at the ceiling; everything
else leaves its status alone, so it stays pending and is fetched again.

The marks are `UPDATE … WHERE id = …` with no guard on the status and the ceiling is compared with
the `retry_count` the cycle *fetched*. What makes both harmless is that a row still to be worked on
in a cycle is **pending and at least as often retried as the cycle thinks** (`Working`): rows leave
the table only as published, and a cycle meets each row once.
-/

namespace Outbox

open List Option

/-- What a row's status says has happened. -/
def InCondition {α : Type*} (R : Relay α) (history : List Event) (r : Record) (st : Status) :
    Prop :=
  r.status = st ∧
    match st with
    | .pending => True
    | .published => .shipped r.id .delivered ∈ history
    | .failed => .judgedPoison r.id ∈ history ∧ R.maxRetries ≤ r.retryCount

namespace Event

/-- A verdict about connectivity, or an outage mark. -/
def connectivity : Event → Bool
  | .shipped _ .retry => true
  | .shipped _ .brokerDown => true
  | .shipped _ .scopeDown => true
  | .shipped _ .aborted => true
  | .outaged _ => true
  | _ => false

end Event

/-- A ledger no relay has worked on: ids are unique and every row is pending. -/
def Ledger.Fresh (l : Ledger) : Prop :=
  (l.map Record.id).Nodup ∧ ∀ r ∈ l, r.status = .pending

/-- The rows a cycle has yet to work on are still pending, and have been retried at least as often
as when they were fetched. -/
structure Working (l : Ledger) (todo : List Record) : Prop where
  nodup : (todo.map Record.id).Nodup
  pending : ∀ x ∈ todo, ∃ r ∈ l, r.id = x.id ∧ r.status = .pending ∧ x.retryCount ≤ r.retryCount

/-- The rows a cycle has yet to work on. -/
def RelayCycle.todo (c : RelayCycle) : List Record :=
  c.outaged ++ c.rows

/-- The invariant. -/
structure Kept {α : Type*} (R : Relay α) (s : State) : Prop where
  nodup : (s.ledger.map Record.id).Nodup
  accounted : ∀ r ∈ s.ledger, InCondition R s.history r r.status
  working : ∀ c, s.cycle = some c → Working s.ledger c.todo

variable {α : Type*} {R : Relay α} {l l' : Ledger} {history new : List Event} {record : Record}

/-! ### Conditions -/

namespace InCondition

variable {r r' : Record} {st : Status}

/-- What a row's condition rests on stays. -/
theorem append (h : InCondition R history r st) (new : List Event) :
    InCondition R (new ++ history) r st := by
  refine ⟨h.1, ?_⟩
  cases st with
  | pending => trivial
  | published => exact mem_append_right new h.2
  | failed => exact ⟨mem_append_right new h.2.1, h.2.2⟩

/-- More retries change nothing about a row's condition. -/
theorem retried (h : InCondition R history r st) (hid : r'.id = r.id) (hst : r'.status = r.status)
    (hcount : r.retryCount ≤ r'.retryCount) : InCondition R history r' st := by
  refine ⟨hst.trans h.1, ?_⟩
  cases st with
  | pending => trivial
  | published => exact hid ▸ h.2
  | failed => exact ⟨hid ▸ h.2.1, le_trans h.2.2 hcount⟩

end InCondition

/-! ### Updates by id -/

variable {r : Record}

namespace Ledger

/-- An update changes the rows of one id. -/
theorem mem_update {id : String} {f : Record → Record} :
    r ∈ l.update id f ↔ (∃ x ∈ l, x.id = id ∧ r = f x) ∨ (r ∈ l ∧ r.id ≠ id) := by
  rw [update, List.mem_map]
  constructor
  · rintro ⟨x, hx, rfl⟩
    split
    · next h => exact .inl ⟨x, hx, h, rfl⟩
    · next h => exact .inr ⟨hx, h⟩
  · rintro (⟨x, hx, h, rfl⟩ | ⟨hr, h⟩)
    · exact ⟨x, hx, if_pos h⟩
    · exact ⟨r, hr, if_neg h⟩

/-- A column an update leaves alone reads the same afterwards. -/
theorem map_update {β : Type*} (g : Record → β) {id : String} {f : Record → Record}
    (h : ∀ r, g (f r) = g r) : (l.update id f).map g = l.map g := by
  rw [update, List.map_map]
  refine List.map_congr_left fun r _ ↦ ?_
  rw [Function.comp_apply]
  split
  · exact h r
  · rfl

theorem eq_of_id_eq (hl : (l.map Record.id).Nodup) {a b : Record} (ha : a ∈ l) (hb : b ∈ l)
    (h : a.id = b.id) : a = b :=
  inj_on_of_nodup_map hl ha hb h

end Ledger

/-! ### One mark -/

namespace Marked

/-- No mark touches an id. -/
theorem map_id (h : Marked R record new l l') : l'.map Record.id = l.map Record.id := by
  cases h with
  | none => rfl
  | failed msg | published now _ | deadLettered msg _ _ => exact Ledger.map_update _ fun _ ↦ rfl

/-- Every row but the one worked on stays as it is. -/
theorem mem_of_ne (h : Marked R record new l l') (hr : r ∈ l) (hne : r.id ≠ record.id) :
    r ∈ l' := by
  cases h with
  | none => exact hr
  | failed msg | published now _ | deadLettered msg _ _ =>
      exact Ledger.mem_update.2 (.inr ⟨hr, hne⟩)

/-- A turn that saw neither a delivery nor poison leaves every status. -/
theorem map_status (h : Marked R record new l l')
    (hdelivered : Event.shipped record.id .delivered ∉ new)
    (hpoison : Event.judgedPoison record.id ∉ new) :
    l'.map (fun r ↦ (r.id, r.status)) = l.map fun r ↦ (r.id, r.status) := by
  cases h with
  | none => rfl
  | failed msg => exact Ledger.map_update _ fun _ ↦ rfl
  | published now hmem => exact absurd hmem hdelivered
  | deadLettered msg hmem _ => exact absurd hmem hpoison

/-- A mark on a row that is still to be worked on keeps every row in its condition. -/
theorem accounted (h : Marked R record new l l')
    (hacc : ∀ r ∈ l, InCondition R history r r.status)
    (hcount : ∀ r ∈ l, r.id = record.id → record.retryCount ≤ r.retryCount) :
    ∀ r ∈ l', InCondition R (new ++ history) r r.status := by
  have hold : ∀ r ∈ l, InCondition R (new ++ history) r r.status :=
    fun r hr ↦ (hacc r hr).append new
  cases h with
  | none => exact hold
  | failed msg =>
    intro r hr
    rcases Ledger.mem_update.1 hr with ⟨x, hx, -, rfl⟩ | ⟨hr, -⟩
    · exact (hold x hx).retried rfl rfl (Int.le_add_one (Int.le_refl _))
    · exact hold r hr
  | published now hmem =>
    intro r hr
    rcases Ledger.mem_update.1 hr with ⟨x, -, hid, rfl⟩ | ⟨hr, -⟩
    · exact ⟨rfl, mem_append_left _ (hid ▸ hmem)⟩
    · exact hold r hr
  | deadLettered msg hmem hmax =>
    intro r hr
    rcases Ledger.mem_update.1 hr with ⟨x, hx, hid, rfl⟩ | ⟨hr, -⟩
    · have hle := hcount x hx hid
      exact ⟨rfl, mem_append_left _ (hid ▸ hmem),
        le_trans hmax (Int.add_le_add_right hle 1)⟩
    · exact hold r hr

end Marked

namespace Working

variable {todo todo' : List Record}

theorem sublist (h : Working l todo) (hsub : todo'.Sublist todo) : Working l todo' :=
  ⟨h.nodup.sublist (hsub.map _), fun x hx ↦ h.pending x (hsub.subset hx)⟩

/-- After the row at the head has been worked on, the others are as they were. -/
theorem marked (h : Working l (record :: todo)) (hm : Marked R record new l l') :
    Working l' todo := by
  obtain ⟨hhead, htail⟩ := nodup_cons.1 h.nodup
  refine ⟨htail, fun x hx ↦ ?_⟩
  obtain ⟨r, hr, hid, hrest⟩ := h.pending x (mem_cons_of_mem _ hx)
  have hne : r.id ≠ record.id := by
    rintro heq
    exact hhead (heq ▸ hid ▸ mem_map_of_mem hx)
  exact ⟨r, hm.mem_of_ne hr hne, hid, hrest⟩

/-- The ceiling is judged on a count the ledger has reached. -/
theorem count_le (h : Working l (record :: todo)) (hl : (l.map Record.id).Nodup) (hr : r ∈ l)
    (hid : r.id = record.id) : record.retryCount ≤ r.retryCount := by
  obtain ⟨x, hx, hxid, -, hle⟩ := h.pending record (mem_cons_self ..)
  rw [Ledger.eq_of_id_eq hl hr hx (hid.trans hxid.symm)]
  exact hle

end Working

/-! ### One turn -/

/-- The rows a turn of the loop leaves to do. -/
theorem Moved.todo_sublist {c c' : RelayCycle} {rest : List Record}
    (h : Moved R c record rest new c') (hout : c.outaged = []) : c'.todo.Sublist rest := by
  cases h <;> simp [RelayCycle.todo, hout]

/-- A turn works on the first row there is to do. -/
theorem turn_cases (p : Pass) (t : Turn α) :
    R.turn p t = p ∨ ∃ record rest new, p.cycle.todo = record :: rest ∧
      (R.turn p t).history = new ++ p.history ∧
      Marked R record new p.ledger (R.turn p t).ledger ∧
      (R.turn p t).cycle.todo.Sublist rest := by
  unfold Relay.turn
  split
  · next record rest hout =>
    obtain ⟨new, left, res, hleft, -, hhistory, hmark, hcycle⟩ :=
      markOutage_turned (R := R) p t record rest
    refine .inr ⟨record, rest ++ p.cycle.rows, new, by simp [RelayCycle.todo, hout], hhistory,
      hmark, ?_⟩
    rw [hcycle]
    have hsub : left.Sublist rest := by
      rcases hleft with rfl | rfl
      · exact nil_sublist _
      · exact List.Sublist.refl _
    exact hsub.append_right p.cycle.rows
  · next record rest hout hrows =>
    obtain ⟨new, hhistory, hmark, hmoved⟩ := runRelayLoop_turned (R := R) p t record rest
    exact .inr ⟨record, rest, new, by simp [RelayCycle.todo, hout, hrows], hhistory, hmark,
      hmoved.todo_sublist hout⟩
  · exact .inl rfl

/-! ### Whole runs -/

theorem mem_pendingRows : r ∈ l.pendingRows ↔ r ∈ l ∧ r.status = .pending := by
  rw [Ledger.pendingRows, mem_insertionSort]
  simp

/-- The split loses no row and makes none. -/
theorem splitOnDownLanes_perm (records : List Record) (down : List String) :
    ((splitOnDownLanes records down).2 ++ (splitOnDownLanes records down).1).Perm records := by
  rw [splitOnDownLanes, partition_eq_filter_filter]
  exact perm_append_comm.trans (filter_append_perm _ _)

/-- A batch is made of distinct pending rows, whichever lanes are down. -/
theorem working_of_fetched (hl : (l.map Record.id).Nodup) (batchSize : ℤ) (down : List String) :
    Working l ((splitOnDownLanes (l.fetchPending batchSize) down).2 ++
      (splitOnDownLanes (l.fetchPending batchSize) down).1) := by
  have hperm := splitOnDownLanes_perm (l.fetchPending batchSize) down
  have hsorted : l.pendingRows.Perm (l.filter fun r ↦ r.status = .pending) :=
    perm_insertionSort ..
  have hnodup : (l.pendingRows.map Record.id).Nodup :=
    (hsorted.map _).nodup_iff.2 (hl.sublist (filter_sublist.map _))
  refine ⟨(hperm.map _).nodup_iff.2 (hnodup.sublist ((take_sublist ..).map _)), fun x hx ↦ ?_⟩
  obtain ⟨hmem, hpending⟩ := mem_pendingRows.1 (mem_of_mem_take (hperm.mem_iff.1 hx))
  exact ⟨x, hmem, rfl, hpending, le_refl _⟩

namespace Kept

variable {s s' : State} {c : RelayCycle}

theorem insert (h : Kept R s) (hr : r.id ∉ s.ledger.map Record.id) :
    Kept R { s with ledger := s.ledger ++ [Ledger.inserted r] } := by
  refine ⟨?_, fun x hx ↦ ?_, fun c hc ↦ ⟨(h.working c hc).nodup, fun x hx ↦ ?_⟩⟩
  · rw [map_append]
    exact h.nodup.append (nodup_singleton _) (disjoint_singleton.2 hr)
  · rcases mem_append.1 hx with hx | hx
    · exact h.accounted x hx
    · rw [mem_singleton.1 hx]
      exact ⟨rfl, trivial⟩
  · obtain ⟨y, hy, hrest⟩ := (h.working c hc).pending x hx
    exact ⟨y, mem_append_left _ hy, hrest⟩

/-- Only published rows are deleted. -/
theorem deletePublished (h : Kept R s) (before : ℤ) :
    Kept R { s with ledger := s.ledger.deletePublished before } := by
  refine ⟨h.nodup.sublist (filter_sublist.map _),
    fun x hx ↦ h.accounted x (mem_filter.1 hx).1,
    fun c hc ↦ ⟨(h.working c hc).nodup, fun x hx ↦ ?_⟩⟩
  obtain ⟨y, hy, hid, hpending, hle⟩ := (h.working c hc).pending x hx
  exact ⟨y, mem_filter.2 ⟨hy, by simp [Ledger.expired, hpending]⟩, hid, hpending, hle⟩

/-- A cycle starts with rows that are pending. -/
theorem lead (h : Kept R s) (unready : String → Bool) : Kept R (R.lead s unready) := by
  dsimp only [Relay.lead]
  split
  · exact h
  · refine ⟨h.nodup, fun r hr ↦ (h.accounted r hr).append [_], fun c hc ↦ ?_⟩
    cases hc
    exact working_of_fetched h.nodup ..

/-- A turn keeps the invariant. -/
theorem turn (h : Kept R s) (hc : s.cycle = some c) (t : Turn α) :
    Kept R
      { ledger := (R.turn ⟨s.ledger, s.history, c⟩ t).ledger
        cycle := some (R.turn ⟨s.ledger, s.history, c⟩ t).cycle
        history := (R.turn ⟨s.ledger, s.history, c⟩ t).history } := by
  have hwork := h.working c hc
  rcases turn_cases (R := R) ⟨s.ledger, s.history, c⟩ t with
    heq | ⟨record, rest, new, htodo, hhistory, hmark, hsub⟩
  · rw [heq]
    exact ⟨h.nodup, h.accounted, fun c' hc' ↦ some_inj.1 hc' ▸ hwork⟩
  · rw [htodo] at hwork
    refine ⟨hmark.map_id ▸ h.nodup, ?_, fun c' hc' ↦ ?_⟩
    · rw [hhistory]
      exact hmark.accounted h.accounted fun r ↦ hwork.count_le h.nodup
    · cases hc'
      exact (hwork.marked hmark).sublist hsub

/-- Every step keeps the invariant. -/
theorem step (h : Kept R s) {l : Label α} (hstep : R.step s l = some s') : Kept R s' := by
  cases l with
  | insert r =>
    obtain ⟨hr, heq⟩ := ite_none_left_eq_some.1 hstep
    cases heq
    exact h.insert hr
  | deletePublished before =>
    cases hstep
    exact h.deletePublished before
  | lead unready =>
    obtain rfl := (lead_eq_some.1 hstep).2
    exact h.lead unready
  | turn t =>
    obtain ⟨c, hc, rfl⟩ := map_eq_some_iff.1 hstep
    exact h.turn hc t
  | release =>
    obtain ⟨c, -, rfl⟩ := map_eq_some_iff.1 hstep
    exact ⟨h.nodup, h.accounted, by simp⟩

end Kept

/-- The invariant holds along every run. -/
theorem reachable_kept {s : State} (hs : (R.system Ledger.Fresh).Reachable s) : Kept R s := by
  refine hs.invariant (fun s ⟨hfresh, hcycle, hhistory⟩ ↦ ?_) fun s l t _ _ h hstep ↦ h.step hstep
  refine ⟨hfresh.1, fun r hr ↦ ⟨rfl, ?_⟩, by simp [hcycle]⟩
  rw [hfresh.2 r hr]
  trivial

/-- A step that records a connectivity verdict or an outage mark leaves every status. -/
theorem step_connectivity {s t : State} {l : Label α} (hstep : R.step s l = some t) {e : Event}
    (he : e.connectivity = true) (hhistory : t.history = e :: s.history) :
    t.ledger.map (fun r ↦ (r.id, r.status)) = s.ledger.map fun r ↦ (r.id, r.status) := by
  cases l with
  | insert r =>
    obtain ⟨-, heq⟩ := ite_none_left_eq_some.1 hstep
    cases heq
    exact absurd hhistory.symm (cons_ne_self _ _)
  | deletePublished before =>
    cases hstep
    exact absurd hhistory.symm (cons_ne_self _ _)
  | lead unready =>
    obtain rfl := (lead_eq_some.1 hstep).2
    dsimp only [Relay.lead]
    split <;> rfl
  | turn t =>
    obtain ⟨c, -, rfl⟩ := map_eq_some_iff.1 hstep
    rcases turn_cases (R := R) ⟨s.ledger, s.history, c⟩ t with
      heq | ⟨record, rest, new, -, hnew, hmark, -⟩
    · exact absurd (heq ▸ hhistory).symm (cons_ne_self _ _)
    · have hsingle : new = [e] := append_cancel_right (hnew.symm.trans hhistory)
      refine hmark.map_status ?_ ?_ <;> rw [hsingle, mem_singleton] <;> rintro rfl <;>
        contradiction
  | release =>
    obtain ⟨c, -, rfl⟩ := map_eq_some_iff.1 hstep
    rfl

/-- A row leaves the ledger only after it was delivered. -/
theorem Kept.step_keeps {s t : State} (h : Kept R s) {l : Label α} (hstep : R.step s l = some t)
    (hr : r ∈ s.ledger) : r.id ∈ t.ledger.map Record.id ∨ .shipped r.id .delivered ∈ s.history := by
  have hmem : r.id ∈ s.ledger.map Record.id := mem_map_of_mem hr
  cases l with
  | insert x =>
    obtain ⟨-, heq⟩ := ite_none_left_eq_some.1 hstep
    cases heq
    exact .inl (by rw [map_append]; exact mem_append_left _ hmem)
  | deletePublished before =>
    cases hstep
    rcases hexp : Ledger.expired before r with - | -
    · exact .inl (mem_map_of_mem (mem_filter.2 ⟨hr, by simp [hexp]⟩))
    · have hacc := h.accounted r hr
      rcases hst : r.status with - | - | -
      · simp [Ledger.expired, hst] at hexp
      · rw [hst] at hacc
        exact .inr hacc.2
      · simp [Ledger.expired, hst] at hexp
  | lead unready =>
    obtain rfl := (lead_eq_some.1 hstep).2
    dsimp only [Relay.lead]
    split <;> exact .inl hmem
  | turn t =>
    obtain ⟨c, -, rfl⟩ := map_eq_some_iff.1 hstep
    rcases turn_cases (R := R) ⟨s.ledger, s.history, c⟩ t with heq | ⟨_, _, _, _, _, hmark, _⟩
    · exact .inl (by rw [heq]; exact hmem)
    · exact .inl (hmark.map_id ▸ hmem)
  | release =>
    obtain ⟨c, -, rfl⟩ := map_eq_some_iff.1 hstep
    exact .inl hmem

/-- **No event is lost.** In every run of cycles under a single leader, whatever the verdicts and
the failures of the marks, every row is in exactly one of three conditions: pending; published, and
its lane's `Ship` reported a delivery; failed, and it was judged poison with its `retry_count` at
the ceiling. A connectivity verdict or an outage changes no status, and a row leaves the ledger only
after it was delivered. -/
theorem no_event_lost {s : State} (hs : (R.system Ledger.Fresh).Reachable s) :
    (∀ r ∈ s.ledger, ∃! st, InCondition R s.history r st) ∧
    ∀ l t, R.step s l = some t →
      (∀ e : Event, e.connectivity = true → t.history = e :: s.history →
        t.ledger.map (fun r ↦ (r.id, r.status)) = s.ledger.map fun r ↦ (r.id, r.status)) ∧
      ∀ r ∈ s.ledger, r.id ∈ t.ledger.map Record.id ∨ .shipped r.id .delivered ∈ s.history := by
  have hkept := reachable_kept hs
  refine ⟨fun r hr ↦ ⟨r.status, hkept.accounted r hr, fun st hst ↦ hst.1.symm⟩,
    fun l t hstep ↦ ⟨fun e he hhistory ↦ step_connectivity hstep he hhistory,
      fun r hr ↦ hkept.step_keeps hstep hr⟩⟩

/-- A delivered row, a row on a lane nobody knows at its ceiling, and a row behind a stalled
stream. -/
theorem no_event_lost_three_conditions : ∃ s : State,
    (twoStreams.system Ledger.Fresh).Reachable s ∧
    s.ledger.map Record.status = [.published, .failed, .pending] ∧
    ∀ r ∈ s.ledger, ∃! st, InCondition twoStreams s.history r st := by
  have hrun : (twoStreams.system Ledger.Fresh).run
      { ledger := [streamRow "1" "a:b" "x" 1,
        { streamRow "2" "" "" 2 with lane := "fax", retryCount := 4 }, streamRow "3" "a" "x" 3] }
      [.lead fun _ ↦ false, .turn { door := carrying }, .turn { door := carrying },
        .turn { door := stalled }, .release] = some _ := rfl
  have hs : (twoStreams.system Ledger.Fresh).Reachable _ :=
    StepSystem.reach_of_run (.init ⟨⟨by decide, by decide⟩, rfl, rfl⟩) hrun
  exact ⟨_, hs, rfl, (no_event_lost hs).1⟩

end Outbox
