import GoBricks.Outbox.Turn

/-!
# Per-key order

The relay promises that the rows of one ordering key are delivered in sequence order: a row leaves
only after every earlier row of its key that its cycle could see has been delivered or
dead-lettered. Two mechanisms hold later rows back. A row that failed **parks its key**; a row whose
target is not carrying messages also takes its **scope** down.

A row held back by its scope is passed over without its key being parked. That is harmless as long
as the later rows of its key are of the same scope, which is what namespacing the key by lane and
stream is for. It is not what joining the parts with a colon gives: stream `a` with partition key
`b:c` and stream `a:b` with partition key `c` share the key `stream:a:b:c`.
`delivered_ahead_across_streams` is the run in which the second overtakes the first.

`Untangled` says that a batch does not combine three rows in that way, and `delivered_in_order` that
the order holds in every run all of whose batches are untangled, whatever the verdicts, the outages
and the failures of the marks.
-/

namespace Outbox

open List Option

/-- The pending rows the latest cycle could see. -/
def lastFetched : List Event → Option (List Record)
  | [] => none
  | .fetched visible :: _ => some visible
  | _ :: older => lastFetched older

/-- The row has been delivered or dead-lettered. -/
def Settled (history : List Event) (id : String) : Prop :=
  .shipped id .delivered ∈ history ∨ .deadLettered id ∈ history

/-- Row `id` may be delivered now: every earlier row of its key that its cycle could see is
settled. -/
def MayDeliver {α : Type*} (R : Relay α) (history : List Event) (id : String) : Prop :=
  ∃ visible, lastFetched history = some visible ∧ ∃ r ∈ visible, r.id = id ∧
    ∀ q ∈ visible, (R.plan q).key = (R.plan r).key → q.seq < r.seq → Settled history q.id

namespace Relay

variable {α : Type*} (R : Relay α)

/-- Rows `i`, `j` and `k` in that order can end with `k` overtaking `j`: `i` may take down the scope
it shares with `j`, which then waits without parking the key it shares with `k`. -/
def Tangle (i j k : Record) : Prop :=
  (R.plan i).poison = "" ∧ (R.plan k).poison = "" ∧ (R.plan i).scope = (R.plan j).scope ∧
    (R.plan j).key = (R.plan k).key ∧ (R.plan i).key ≠ (R.plan j).key ∧
    (R.plan k).scope ≠ (R.plan j).scope

/-- A tangle compares the plans of three rows. -/
instance (i j k : Record) : Decidable (R.Tangle i j k) :=
  inferInstanceAs (Decidable (_ ∧ _ ∧ _ ∧ _ ∧ _ ∧ _))

/-- A batch without such rows. -/
def Untangled (rows : List Record) : Prop :=
  ∀ i j k, [i, j, k].Sublist rows → ¬R.Tangle i j k

/-- The condition on a run: each cycle fetches an untangled batch. -/
def UntangledBatches (s : State) : Label α → Prop
  | .lead _ => R.Untangled (s.ledger.fetchPending R.batchSize)
  | _ => True

/-- Three rows of the batch are enough to look at. -/
theorem untangled_iff (rows : List Record) :
    (∀ i ∈ rows, ∀ j ∈ rows, ∀ k ∈ rows, ¬([i, j, k].Sublist rows ∧ R.Tangle i j k)) ↔
      R.Untangled rows := by
  refine ⟨fun h i j k hsub htangle ↦ ?_, fun h i _ j _ k _ hand ↦ h i j k hand.1 hand.2⟩
  exact h i (hsub.subset (by simp)) j (hsub.subset (by simp)) k (hsub.subset (by simp))
    ⟨hsub, htangle⟩

/-- Through `untangled_iff`. -/
instance (rows : List Record) : Decidable (R.Untangled rows) :=
  decidable_of_iff _ (R.untangled_iff rows)

/-- Only the start of a cycle has a condition, on the batch it takes. -/
instance (s : State) : ∀ l : Label α, Decidable (R.UntangledBatches s l)
  | .lead _ => inferInstanceAs (Decidable (R.Untangled _))
  | .insert _ | .deletePublished _ | .turn _ | .release => .isTrue trivial

end Relay

variable {α : Type*} {R : Relay α}

/-! ### Events that change nothing here -/

theorem Event.ne_fetched_of_inert {e : Event} (h : e.inert = true) (visible : List Record) :
    e ≠ .fetched visible := by
  rintro rfl
  contradiction

/-- Between fetches the last one stays. -/
theorem lastFetched_append {new history : List Event} (hnew : ∀ e ∈ new, ∀ v, e ≠ .fetched v) :
    lastFetched (new ++ history) = lastFetched history := by
  induction new with
  | nil => rfl
  | cons e new ih =>
    obtain ⟨he, htail⟩ := forall_mem_cons.1 hnew
    cases e with
    | fetched visible => exact absurd rfl (he visible)
    | _ => exact ih htail

/-- Inert events deliver nothing. -/
theorem suffix_of_inert {new history older : List Event} {id : String}
    (hnew : ∀ e ∈ new, e.inert = true)
    (h : (Event.shipped id .delivered :: older) <:+ (new ++ history)) :
    (Event.shipped id .delivered :: older) <:+ history := by
  induction new with
  | nil => exact h
  | cons e new ih =>
    obtain ⟨he, hnew⟩ := forall_mem_cons.1 hnew
    rcases suffix_cons_iff.1 h with heq | hsuffix
    · obtain ⟨rfl, -⟩ := cons_eq_cons.1 heq
      contradiction
    · exact ih hnew hsuffix

theorem Settled.append {history : List Event} {id : String} (h : Settled history id)
    (new : List Event) : Settled (new ++ history) id :=
  h.imp (mem_append_right new) (mem_append_right new)

/-! ### Batches -/

/-- In a sorted list everything strictly before a member of a prefix is in the prefix. -/
theorem mem_of_prefix_of_seq_lt {l pre : List Record} {q r : Record}
    (hsorted : l.Pairwise fun a b ↦ a.seq ≤ b.seq) (hpre : pre <+: l) (hr : r ∈ pre) (hq : q ∈ l)
    (hlt : q.seq < r.seq) : q ∈ pre := by
  obtain ⟨post, rfl⟩ := hpre
  rcases mem_append.1 hq with hq | hq
  · exact hq
  · have hle := (pairwise_append.1 hsorted).2.2 r hr q hq
    exact absurd hlt (Int.not_lt.2 hle)

/-- The pending rows are in the order of their numbers. -/
theorem pendingRows_sorted (l : Ledger) : l.pendingRows.Pairwise fun a b ↦ a.seq ≤ b.seq :=
  pairwise_insertionSort (fun a b : Record ↦ a.seq ≤ b.seq) _

/-- The rows the loop is given. -/
theorem mem_runnable {records : List Record} {down : List String} {r : Record} :
    r ∈ (splitOnDownLanes records down).1 ↔ r ∈ records ∧ laneOrDefault r.lane ∉ down := by
  rw [splitOnDownLanes, partition_eq_filter_filter]
  simp

/-- The rows that can run are in the batch's order. -/
theorem runnable_sublist (records : List Record) (down : List String) :
    (splitOnDownLanes records down).1.Sublist records := by
  rw [splitOnDownLanes, partition_eq_filter_filter]
  exact filter_sublist

/-! ### The walk through a batch -/

/-- What the loop knows of the rows it has `seen`. A row it left behind is settled, or its key is
parked, or an earlier row took its scope down. -/
structure Walked (R : Relay α) (history : List Event) (seen : List Record)
    (parked down : List String) : Prop where
  passed : ∀ j ∈ seen, Settled history j.id ∨ (R.plan j).key ∈ parked ∨
    (R.plan j).scope ∈ down ∧ ∃ i, [i, j].Sublist seen ∧ (R.plan i).poison = "" ∧
      (R.plan i).scope = (R.plan j).scope ∧ (R.plan i).key ∈ parked
  downed : ∀ scope ∈ down, ∃ i ∈ seen, (R.plan i).poison = "" ∧ (R.plan i).scope = scope ∧
    (R.plan i).key ∈ parked

/-- The invariant of a running cycle. -/
structure Orderly (R : Relay α) (history : List Event) (c : RelayCycle) : Prop where
  fetched : ∃ visible, lastFetched history = some visible ∧
    visible.Pairwise (fun a b ↦ a.seq ≤ b.seq) ∧ c.records <+: visible
  untangled : R.Untangled c.records
  walked : ∃ seen, seen ++ c.rows <+: (splitOnDownLanes c.records c.downLanes).1 ∧
    Walked R history seen c.parked c.down

namespace Walked

variable {history new : List Event} {seen : List Record} {parked parked' down : List String}
  {record : Record}

theorem nil : Walked R history [] [] [] :=
  ⟨by simp, by simp⟩

/-- Later events and further parked keys only help the rows already seen. -/
theorem mono (h : Walked R history seen parked down) (new : List Event) (hsub : parked ⊆ parked') :
    Walked R (new ++ history) seen parked' down := by
  refine ⟨fun j hj ↦ ?_, fun scope hscope ↦ ?_⟩
  · rcases h.passed j hj with hset | hkey | ⟨hdown, i, hij, hpoison, hscope, hkey⟩
    · exact .inl (hset.append new)
    · exact .inr (.inl (hsub hkey))
    · exact .inr (.inr ⟨hdown, i, hij, hpoison, hscope, hsub hkey⟩)
  · obtain ⟨i, hi, hpoison, hi', hkey⟩ := h.downed scope hscope
    exact ⟨i, hi, hpoison, hi', hsub hkey⟩

/-- Passing over a row that is accounted for. -/
theorem snoc (h : Walked R history seen parked down)
    (hrecord : Settled history record.id ∨ (R.plan record).key ∈ parked ∨
      (R.plan record).scope ∈ down) :
    Walked R history (seen ++ [record]) parked down := by
  have hsub : seen.Sublist (seen ++ [record]) := sublist_append_left ..
  refine ⟨fun j hj ↦ ?_, fun scope hscope ↦ ?_⟩
  · rcases mem_append.1 hj with hj | hj
    · rcases h.passed j hj with hset | hkey | ⟨hdown, i, hij, hi⟩
      · exact .inl hset
      · exact .inr (.inl hkey)
      · exact .inr (.inr ⟨hdown, i, hij.trans hsub, hi⟩)
    · rw [mem_singleton.1 hj]
      refine hrecord.imp_right (Or.imp_right fun hdown ↦ ?_)
      obtain ⟨i, hi, hpoison, hscope, hkey⟩ := h.downed _ hdown
      have hpair : [i, record].Sublist (seen ++ [record]) :=
        (singleton_sublist.2 hi).append (List.Sublist.refl [record])
      exact ⟨hdown, i, hpair, hpoison, hscope, hkey⟩
  · obtain ⟨i, hi, hrest⟩ := h.downed scope hscope
    exact ⟨i, hsub.subset hi, hrest⟩

/-- A row took its scope down. -/
theorem cons_down (h : Walked R history seen parked down) (hmem : record ∈ seen)
    (hpoison : (R.plan record).poison = "") (hkey : (R.plan record).key ∈ parked) :
    Walked R history seen parked ((R.plan record).scope :: down) := by
  refine ⟨fun j hj ↦ ?_, fun scope hscope ↦ ?_⟩
  · rcases h.passed j hj with hset | hkey | ⟨hdown, hi⟩
    · exact .inl hset
    · exact .inr (.inl hkey)
    · exact .inr (.inr ⟨mem_cons_of_mem _ hdown, hi⟩)
  · rcases mem_cons.1 hscope with rfl | hscope
    · exact ⟨record, hmem, hpoison, rfl, hkey⟩
    · exact h.downed scope hscope

end Walked

namespace Orderly

variable {history new : List Event} {c c' : RelayCycle} {record : Record} {rest : List Record}

/-- The row the loop is about to ship has every earlier visible row of its key behind it. -/
theorem mayDeliver (h : Orderly R history c) (hrows : c.rows = record :: rest)
    (hscope : (R.plan record).scope ∉ c.down) (hkey : (R.plan record).key ∉ c.parked)
    (hpoison : (R.plan record).poison = "")
    (hlane : R.shippers (laneOrDefault record.lane) ≠ none) : MayDeliver R history record.id := by
  obtain ⟨visible, hlast, hsorted, hprefix⟩ := h.fetched
  obtain ⟨seen, hseen, hwalked⟩ := h.walked
  have hrun : seen ++ [record] <+: (splitOnDownLanes c.records c.downLanes).1 := by
    rw [hrows] at hseen
    exact (prefix_append_right_inj seen).2 (by simp) |>.trans hseen
  have hsub := runnable_sublist c.records c.downLanes
  have hmem := hrun.subset (mem_append_right seen (mem_singleton_self record))
  refine ⟨visible, hlast, record, hprefix.subset (hsub.subset hmem), rfl, fun q hq hqkey hlt ↦ ?_⟩
  -- a shared key is a shared lane, so `q` went to the loop as well, ahead of `record`
  have hqrun : q ∈ (splitOnDownLanes c.records c.downLanes).1 := by
    rw [mem_runnable, lane_eq_of_key_eq hlane hqkey]
    exact ⟨mem_of_prefix_of_seq_lt hsorted hprefix (hsub.subset hmem) hq hlt,
      (mem_runnable.1 hmem).2⟩
  have hqseen : q ∈ seen := by
    have hq' := mem_of_prefix_of_seq_lt (hsorted.sublist (hsub.trans hprefix.sublist)) hrun
      (mem_append_right seen (mem_singleton_self record)) hqrun hlt
    rcases mem_append.1 hq' with hq' | hq'
    · exact hq'
    · rw [mem_singleton.1 hq'] at hlt
      exact absurd hlt (Int.lt_irrefl _)
  rcases hwalked.passed q hqseen with hset | hparked | ⟨hdown, i, hiq, hi, hscope', hparked⟩
  · exact hset
  · exact absurd (hqkey ▸ hparked) hkey
  · have htriple : [i, q, record].Sublist c.records :=
      ((hiq.append (List.Sublist.refl [record])).trans hrun.sublist).trans hsub
    have hne : (R.plan i).key ≠ (R.plan q).key := fun heq ↦ hkey (hqkey ▸ heq ▸ hparked)
    have hother : (R.plan record).scope ≠ (R.plan q).scope := fun heq ↦ hscope (heq ▸ hdown)
    exact absurd ⟨hi, hpoison, hscope', hqkey, hne, hother⟩ (h.untangled i q record htriple)

/-- The rows a turn leaves are where the invariant wants them, whichever rows it passed over. -/
theorem of_walked (h : Orderly R history c) (hnew : ∀ e ∈ new, ∀ v, e ≠ .fetched v)
    (hrecords : c'.records = c.records) (hdownLanes : c'.downLanes = c.downLanes)
    (hwalked : ∃ seen, seen ++ c'.rows <+: (splitOnDownLanes c.records c.downLanes).1 ∧
      Walked R (new ++ history) seen c'.parked c'.down) :
    Orderly R (new ++ history) c' := by
  refine ⟨?_, hrecords ▸ h.untangled, hrecords ▸ hdownLanes ▸ hwalked⟩
  rw [lastFetched_append hnew, hrecords]
  exact h.fetched

/-- One turn of the loop keeps the invariant. -/
theorem moved (h : Orderly R history c) (hrows : c.rows = record :: rest)
    (hm : Moved R c record rest new c') : Orderly R (new ++ history) c' := by
  obtain ⟨seen, hseen, hwalked⟩ := h.walked
  have hstop : seen ++ [] <+: (splitOnDownLanes c.records c.downLanes).1 := by
    rw [append_nil]
    exact (prefix_append seen c.rows).trans hseen
  have hnext : (seen ++ [record]) ++ rest <+: (splitOnDownLanes c.records c.downLanes).1 := by
    rw [append_assoc, singleton_append, ← hrows]
    exact hseen
  have hcons := subset_cons_self (R.plan record).key c.parked
  cases hm with
  | stopped new res hnew =>
    exact h.of_walked (fun e he ↦ Event.ne_fetched_of_inert (hnew e he)) rfl rfl
      ⟨seen, hstop, hwalked.mono new (List.Subset.refl _)⟩
  | held res hheld =>
    exact h.of_walked (by simp) rfl rfl ⟨_, hnext, hwalked.snoc (.inr hheld.symm)⟩
  | delivered res hscope hkey hpoison hlane =>
    have hset : Settled (.shipped record.id .delivered :: history) record.id := .inl (by simp)
    exact h.of_walked (by simp) rfl rfl
      ⟨_, hnext, (hwalked.mono [_] (List.Subset.refl _)).snoc (.inl hset)⟩
  | deadLettered new res hnew hmem =>
    have hset : Settled (new ++ history) record.id := .inr (mem_append_left _ hmem)
    exact h.of_walked (fun e he ↦ Event.ne_fetched_of_inert (hnew e he)) rfl rfl
      ⟨_, hnext, (hwalked.mono new (List.Subset.refl _)).snoc (.inl hset)⟩
  | parked new res hnew =>
    exact h.of_walked (fun e he ↦ Event.ne_fetched_of_inert (hnew e he)) rfl rfl
      ⟨_, hnext, (hwalked.mono new hcons).snoc (.inr (.inl (mem_cons_self ..)))⟩
  | scopeDown res hpoison =>
    have hmono := hwalked.mono [.shipped record.id .scopeDown] hcons
    have hstep : Walked R _ (seen ++ [record]) _ c.down :=
      hmono.snoc (.inr (.inl (mem_cons_self ..)))
    exact h.of_walked (by simp) rfl rfl
      ⟨_, hnext, hstep.cons_down (by simp) hpoison (mem_cons_self ..)⟩
  | brokerDown res =>
    exact h.of_walked (by simp) rfl rfl ⟨seen, hstop, hwalked.mono [_] hcons⟩

end Orderly

/-! ### Whole runs -/

/-- Every delivery so far was in order, and the running cycle keeps it so. -/
structure InOrder (R : Relay α) (s : State) : Prop where
  delivered : ∀ id older, (.shipped id .delivered :: older) <:+ s.history → MayDeliver R older id
  orderly : ∀ c, s.cycle = some c → Orderly R s.history c

namespace InOrder

variable {s : State} {c : RelayCycle}

/-- A cycle begins with nothing seen. -/
theorem lead (h : InOrder R s) (unready : String → Bool)
    (hcond : R.Untangled (s.ledger.fetchPending R.batchSize)) : InOrder R (R.lead s unready) := by
  dsimp only [Relay.lead]
  split
  · exact h
  refine ⟨fun id older hsuffix ↦ ?_, fun c hc ↦ ?_⟩
  · rcases suffix_cons_iff.1 hsuffix with heq | hsuffix
    · exact absurd (cons_eq_cons.1 heq).1 (by simp)
    · exact h.delivered id older hsuffix
  · cases hc
    exact ⟨⟨_, rfl, pendingRows_sorted _, take_prefix ..⟩, hcond, [], prefix_rfl, .nil⟩

/-- One turn of a cycle. -/
theorem turn (h : InOrder R s) (hc : s.cycle = some c) (t : Turn α) :
    InOrder R
      { ledger := (R.turn ⟨s.ledger, s.history, c⟩ t).ledger
        cycle := some (R.turn ⟨s.ledger, s.history, c⟩ t).cycle
        history := (R.turn ⟨s.ledger, s.history, c⟩ t).history } := by
  have horderly := h.orderly c hc
  unfold Relay.turn
  split
  · next record rest _ =>
    obtain ⟨new, left, res, -, hnew, hhistory, -, hcycle⟩ :=
      markOutage_turned (R := R) ⟨s.ledger, s.history, c⟩ t record rest
    rw [hhistory, hcycle]
    refine ⟨fun id older hsuffix ↦ h.delivered id older (suffix_of_inert hnew hsuffix), ?_⟩
    rintro - ⟨⟩
    obtain ⟨seen, hseen, hwalked⟩ := horderly.walked
    exact horderly.of_walked (fun e he ↦ Event.ne_fetched_of_inert (hnew e he)) rfl rfl
      ⟨seen, hseen, hwalked.mono new (List.Subset.refl _)⟩
  · next record rest _ hrows =>
    obtain ⟨new, hhistory, -, hmoved⟩ :=
      runRelayLoop_turned (R := R) ⟨s.ledger, s.history, c⟩ t record rest
    rw [hhistory]
    refine ⟨fun id older hsuffix ↦ ?_, ?_⟩
    · rcases hmoved.inert_or_delivered with hnew | ⟨rfl, hscope, hkey, hpoison, hlane⟩
      · exact h.delivered id older (suffix_of_inert hnew hsuffix)
      · rcases suffix_cons_iff.1 hsuffix with heq | hsuffix
        · obtain ⟨he, rfl⟩ := cons_eq_cons.1 heq
          obtain ⟨rfl, -⟩ := Event.shipped.inj he
          exact horderly.mayDeliver hrows hscope hkey hpoison hlane
        · exact h.delivered id older hsuffix
    · rintro - ⟨⟩
      exact horderly.moved hrows hmoved
  · exact ⟨h.delivered, fun c' hc' ↦ some_inj.1 hc' ▸ horderly⟩

/-- One step of the system. -/
theorem step (h : InOrder R s) {l : Label α} {s' : State} (hcond : R.UntangledBatches s l)
    (hstep : R.step s l = some s') : InOrder R s' := by
  cases l with
  | insert r =>
    obtain ⟨-, heq⟩ := ite_none_left_eq_some.1 hstep
    cases heq
    exact ⟨h.delivered, h.orderly⟩
  | deletePublished before =>
    cases hstep
    exact ⟨h.delivered, h.orderly⟩
  | lead unready =>
    obtain rfl := (lead_eq_some.1 hstep).2
    exact h.lead unready hcond
  | turn t =>
    obtain ⟨c, hc, rfl⟩ := map_eq_some_iff.1 hstep
    exact h.turn hc t
  | release =>
    obtain ⟨c, -, rfl⟩ := map_eq_some_iff.1 hstep
    exact ⟨h.delivered, by simp⟩

end InOrder

/-- **Per-key order.** In every run of cycles under a single leader whose batches are untangled,
from any ledger, a row is delivered only when each earlier row of its key that the cycle could see
has been delivered or dead-lettered. It holds for every delivery of a row, so for the first one. -/
theorem delivered_in_order {s : State}
    (hs : (R.system fun _ ↦ True).Reach R.UntangledBatches s) {id : String} {older : List Event}
    (hdelivered : (.shipped id .delivered :: older) <:+ s.history) :
    ∃ visible, lastFetched older = some visible ∧ ∃ r ∈ visible, r.id = id ∧
      ∀ q ∈ visible, (R.plan q).key = (R.plan r).key → q.seq < r.seq →
        .shipped q.id .delivered ∈ older ∨ .deadLettered q.id ∈ older := by
  have hinv : InOrder R s := by
    refine hs.invariant (fun s ⟨_, hcycle, hhistory⟩ ↦ ?_) fun s l t _ hcond h hstep ↦
      h.step hcond hstep
    exact ⟨by simp [hhistory], by simp [hcycle]⟩
  exact hinv.delivered id older hdelivered

section Instances

/-- A pending row of the stream lane. -/
def streamRow (id stream partitionKey : String) (seq : ℤ) : Record where
  id := id
  eventType := "order.created"
  payload := []
  headers := []
  exchange := ""
  routingKey := ""
  lane := "stream"
  stream := stream
  partitionKey := partitionKey
  seq := seq
  status := .pending
  retryCount := 0
  error := ""
  publishedAt := none

/-- A relay with the super streams `a` and `a:b`. -/
def twoStreams : Relay Door :=
  newRelay 10 5 (fun _ ↦ .ok ∅) fun name ↦ name = "a" || name = "a:b"

/-- The broker takes what it is given. -/
def carrying : Door :=
  { client := .ok true, published := none, isReady := true, closed := false, ready := true,
    waited := 0 }

/-- The stream's publisher is not ready. -/
def stalled : Door :=
  { carrying with ready := false }

/-- Two rows of one key behind a stalled stream: the first fails, though its mark is lost, the
second is held back, and the next cycle delivers them in order. -/
theorem delivered_in_order_after_stall :
    ∃ (s : State) (older : List Event),
      (twoStreams.system fun _ ↦ True).Reach twoStreams.UntangledBatches s ∧
      (.shipped "2" .delivered :: older) <:+ s.history ∧
      ∃ visible, lastFetched older = some visible ∧ ∃ r ∈ visible, r.id = "2" ∧
        ∀ q ∈ visible, (twoStreams.plan q).key = (twoStreams.plan r).key → q.seq < r.seq →
          .shipped q.id .delivered ∈ older ∨ .deadLettered q.id ∈ older := by
  obtain ⟨s, older, hrun, hhistory⟩ : ∃ s older,
      ((twoStreams.system fun _ ↦ True).restrict twoStreams.UntangledBatches).run
        { ledger := [streamRow "1" "a" "x" 1, streamRow "2" "a" "x" 2, streamRow "3" "a:b" "y" 3] }
        [.lead fun _ ↦ false, .turn { door := stalled, mark := .refused },
          .turn { door := carrying }, .turn { door := carrying }, .release, .lead fun _ ↦ false,
          .turn { door := carrying }, .turn { door := carrying }] = some s ∧
      s.history = .shipped "2" .delivered :: older := ⟨_, _, rfl, rfl⟩
  have hs : (twoStreams.system fun _ ↦ True).Reach twoStreams.UntangledBatches s :=
    .of_restrict (StepSystem.reach_of_run (.init ⟨trivial, rfl, rfl⟩) hrun)
  have hdelivered : (.shipped "2" .delivered :: older) <:+ s.history := hhistory ▸ suffix_rfl
  exact ⟨s, older, hs, hdelivered, delivered_in_order hs hdelivered⟩

/-- The overtaking: the stall of stream `a` holds back row `2` without parking its key, and row `3`
of stream `a:b`, which has the same key, is delivered first. -/
theorem delivered_ahead_across_streams :
    ∃ s : State, (twoStreams.system fun _ ↦ True).Reachable s ∧
      ∃ (older : List Event) (visible : List Record) (q r : Record),
        (.shipped r.id .delivered :: older) <:+ s.history ∧ .shipped r.id .delivered ∉ older ∧
        lastFetched older = some visible ∧ q ∈ visible ∧ r ∈ visible ∧
        (twoStreams.plan q).key = (twoStreams.plan r).key ∧ q.seq < r.seq ∧
        .shipped q.id .delivered ∉ older ∧ .deadLettered q.id ∉ older := by
  obtain ⟨s, hrun, hhistory⟩ : ∃ s, (twoStreams.system fun _ ↦ True).run
      { ledger := [streamRow "1" "a" "x" 1, streamRow "2" "a" "b:c" 2, streamRow "3" "a:b" "c" 3] }
      [.lead fun _ ↦ false, .turn { door := stalled }, .turn { door := carrying },
        .turn { door := carrying }] = some s ∧
      s.history = [.shipped "3" .delivered, .shipped "1" .scopeDown, .fetched
        [streamRow "1" "a" "x" 1, streamRow "2" "a" "b:c" 2, streamRow "3" "a:b" "c" 3]] :=
    ⟨_, rfl, rfl⟩
  have hs : (twoStreams.system fun _ ↦ True).Reachable s :=
    StepSystem.reach_of_run (.init ⟨trivial, rfl, rfl⟩) hrun
  refine ⟨s, hs, ?_⟩
  rw [hhistory]
  exact ⟨_, _, streamRow "2" "a" "b:c" 2, streamRow "3" "a:b" "c" 3, suffix_rfl, by decide,
    rfl, by decide, by decide, by decide, by decide, by decide, by decide⟩

end Instances

end Outbox
