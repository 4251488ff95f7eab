import GoBricks.Hold.Effect
import GoBricks.Lib.History

/-!
# Order and fencing of the drain

Three facts about every interleaving of drains, parks and the clock.

* A row leaves the ledger only through a `DeleteRow` whose owner held the live lease on the row's
  (consumer, tenant) at that statement, and after that owner's own replay of the row returned
  success.
* An owner replays a row only after the earlier rows of its stream in the batch have been replayed
  and deleted by it.
* Once a row failed, the pass deletes no row of its tenant any more.

`DeleteRow` names the row by (consumer, stream, offset) and the fence by (consumer, tenant), so the
first one needs an argument: the row under that key might have been replaced since the batch was
read. It cannot have been while the lease is live. **Nobody else can delete a row of the tenant
without the lease, and an owner gets the lease only by acquiring it**, which it does not do in the
middle of a turn; so if the lease is live now it was live ever since the batch was read
(`Holds.kept`).
-/

namespace Hold

open List Function

/-! ### Reading the history -/

namespace Event

/-- Who an event is of. -/
def owner : Event → String
  | .pass o | .read o _ | .replay o _ | .replayed o _ | .failed o _ | .deleted o _ => o

/-- An event is a read of the owner. -/
def isRead (o : String) : Event → Bool
  | .read o' _ => o' = o
  | _ => false

/-- An event begins a pass of the owner. -/
def isPass (o : String) : Event → Bool
  | .pass o' => o' = o
  | _ => false

end Event

/-- What was recorded since the owner last read a batch. -/
def sinceRead (o : String) (history : List Event) : List Event :=
  History.since (Event.isRead o) history

/-- What was recorded since the owner began its pass. -/
def sincePass (o : String) (history : List Event) : List Event :=
  History.since (Event.isPass o) history

/-- The batch the owner last read. -/
def lastRead (o : String) : List Event → Option (List HoldRow)
  | [] => none
  | .read o' batch :: older => if o' = o then some batch else lastRead o older
  | _ :: older => lastRead o older

section

variable {o : String} {e : Event} {history : List Event}

/-- An event after a read is since the read. -/
theorem sinceRead_cons (h : e.isRead o = false) :
    sinceRead o (e :: history) = e :: sinceRead o history :=
  History.since_cons_of_false h

theorem sincePass_cons (h : e.isPass o = false) :
    sincePass o (e :: history) = e :: sincePass o history :=
  History.since_cons_of_false h

/-- An event that is no read leaves the last one. -/
theorem lastRead_cons (h : e.isRead o = false) :
    lastRead o (e :: history) = lastRead o history := by
  cases e with
  | read o' batch => exact if_neg (by simpa [Event.isRead] using h)
  | _ => rfl

theorem isRead_of_ne (h : e.owner ≠ o) : e.isRead o = false := by
  cases e with
  | read o' batch => simpa [Event.isRead, Event.owner] using h
  | _ => rfl

theorem isPass_of_ne (h : e.owner ≠ o) : e.isPass o = false := by
  cases e with
  | pass o' => simpa [Event.isPass, Event.owner] using h
  | _ => rfl

end

/-! ### The rows of a batch -/

variable {r : HoldRow}

namespace HoldRow

theorem ofTenant_iff {consumer tenant : String} :
    r.ofTenant consumer tenant = true ↔ r.consumer = consumer ∧ r.tenantID = tenant := by
  simp [ofTenant]

theorem at_iff {consumer stream : String} {offset : ℤ} :
    r.at_ consumer stream offset = true ↔ r.key = (consumer, stream, offset) := by
  simp [at_, key, and_assoc]

/-- Any two rows can be ordered. -/
instance : Std.Total before where
  total a b := by
    rcases lt_trichotomy a.stream b.stream with h | h | h
    · exact .inl (.inr h)
    · exact (Int.le_total a.offset b.offset).imp (fun hle ↦ .inl ⟨h, hle⟩)
        fun hle ↦ .inl ⟨h.symm, hle⟩
    · exact .inr (.inr h)

/-- The order of the rows is transitive. -/
instance : IsTrans HoldRow before where
  trans a b c := by
    rintro (⟨hab, hle⟩ | hab) (⟨hbc, hle'⟩ | hbc)
    · exact .inl ⟨hab.trans hbc, Int.le_trans hle hle'⟩
    · exact .inr (hab ▸ hbc)
    · exact .inr (hbc ▸ hab)
    · exact .inr (lt_trans hab hbc)

end HoldRow

namespace Ledger

variable {l : Ledger} {consumer tenant : String} {limit : ℕ}

/-- The rows are read in their order. -/
theorem nextRows_pairwise : (l.nextRows consumer tenant limit).Pairwise HoldRow.before :=
  (pairwise_insertionSort HoldRow.before _).sublist (take_sublist ..)

/-- The rows read are the tenant's. -/
theorem mem_nextRows (h : r ∈ l.nextRows consumer tenant limit) :
    r ∈ l.rows ∧ r.ofTenant consumer tenant = true :=
  mem_filter.1 (mem_insertionSort _ |>.1 (mem_of_mem_take h))

/-- No row is read twice. -/
theorem nextRows_keys (h : (l.rows.map HoldRow.key).Nodup) :
    ((l.nextRows consumer tenant limit).map HoldRow.key).Nodup := by
  have hsorted := (perm_insertionSort HoldRow.before
    (l.rows.filter (·.ofTenant consumer tenant))).map HoldRow.key
  exact (hsorted.nodup_iff.2 (h.sublist (filter_sublist.map _))).sublist
    ((take_sublist ..).map _)

/-- A pass sees each tenant once. -/
theorem aheadOf_dueTenants_nodup (h : (l.tenants.map HoldTenant.key).Nodup) :
    (aheadOf consumer (l.dueTenants consumer limit)).Nodup := by
  have hmem : ∀ m ∈ l.dueTenants consumer limit, m.consumer = consumer := by
    intro m hm
    have hdue := (mem_filter.1 (mem_insertionSort _ |>.1 (mem_of_mem_take hm))).2
    exact of_decide_eq_true ((Bool.and_eq_true ..).mp hdue).1
  have hkeys : aheadOf consumer (l.dueTenants consumer limit) =
      (l.dueTenants consumer limit).map HoldTenant.key :=
    map_congr_left fun m hm ↦ by rw [HoldTenant.key, hmem m hm]
  rw [hkeys]
  have hsorted := (perm_insertionSort (fun a b : HoldTenant ↦ a.heldSince ≤ b.heldSince)
    (l.tenants.filter fun m ↦ m.consumer = consumer && m.due l.now)).map HoldTenant.key
  exact (hsorted.nodup_iff.2 (h.sublist (filter_sublist.map _))).sublist
    ((take_sublist ..).map _)

end Ledger

/-! ### The fence -/

/-- What an owner in the middle of a turn knows of the rows still to do. -/
structure Holds (l : Ledger) (o : String) (turn : Turn) (todo : List HoldRow) : Prop where
  ours : ∀ r ∈ todo, r.ofTenant turn.consumer turn.tenant.tenantID = true
  keys : (todo.map HoldRow.key).Nodup
  /-- While the lease is live they are still in the ledger as they were read. -/
  kept : l.leaseHeldBy turn.consumer turn.tenant.tenantID o = true → ∀ r ∈ todo, r ∈ l.rows

/-- The ledger's keys, and every owner's rows to do. -/
structure Fenced (s : State) : Prop where
  rowKeys : (s.ledger.rows.map HoldRow.key).Nodup
  tenantKeys : (s.ledger.tenants.map HoldTenant.key).Nodup
  holds : ∀ o turn todo, (s.pcs o).work = some (turn, todo) → Holds s.ledger o turn todo

variable {l l' : Ledger} {o : String} {turn : Turn}

/-- A statement of somebody else. -/
theorem Holds.observed {who : Option String} {todo : List HoldRow} (h : Holds l o turn todo)
    (hobs : Observed who l l') (hne : who ≠ some o) (hkeys : (l.tenants.map HoldTenant.key).Nodup) :
    Holds l' o turn todo := by
  refine ⟨h.ours, h.keys, fun hlease r hr ↦ ?_⟩
  have hlease₀ := hobs.leases _ _ _ hne hlease
  rcases hobs.rows r (h.kept hlease₀ r hr) with hmem | ⟨o', rfl, hother⟩
  · exact hmem
  · -- whoever took the row held the tenant's lease, and there is one lease to a tenant
    obtain ⟨hconsumer, htenant⟩ := HoldRow.ofTenant_iff.1 (h.ours r hr)
    rw [hconsumer, htenant] at hother
    exact absurd (congrArg some (Ledger.leaseHeldBy_unique hkeys hother hlease₀)) hne

/-- The delete of the row at hand removes just that row, if it removes any. -/
theorem Holds.deletes {row : HoldRow} {left : List HoldRow} (h : Holds l o turn (row :: left))
    (hkeys : (l.rows.map HoldRow.key).Nodup) (hr : r ∈ l.rows)
    (hd : l.deletes turn.consumer row.stream row.offset turn.tenant.tenantID o r = true) :
    r = row := by
  obtain ⟨hat, hfence⟩ := (Bool.and_eq_true ..).mp hd
  have hrow := h.kept hfence row mem_cons_self
  obtain ⟨hconsumer, -⟩ := HoldRow.ofTenant_iff.1 (h.ours row mem_cons_self)
  have hkey : row.key = (turn.consumer, row.stream, row.offset) := by rw [HoldRow.key, hconsumer]
  exact inj_on_of_nodup_map hkeys hr hrow ((HoldRow.at_iff.1 hat).trans hkey.symm)

variable {pc pc' : Pc} {new : List Event}

/-- What the other owners see of an owner's step. -/
theorem Act.observed (h : Act l o pc new l' pc') (hkeys : (l.rows.map HoldRow.key).Nodup)
    (hholds : ∀ turn todo, pc.work = some (turn, todo) → Holds l o turn todo) :
    Observed (some o) l l' := by
  cases h with
  | begin consumer => exact .refl ..
  | lease hobs hrows => exact hobs
  | read hturn | call | ok | fail hpc hwork hahead => exact .refl ..
  | @delete turn row left pc' hfence hpc' =>
    have hrow := hholds turn (row :: left) rfl
    refine .deleteRow fun r hr hd ↦ ?_
    obtain rfl := hrow.deletes hkeys hr hd
    obtain ⟨hconsumer, htenant⟩ := HoldRow.ofTenant_iff.1 (hrow.ours r mem_cons_self)
    rw [hconsumer, htenant]
    exact hfence
  | leave hobs hrows hwork hahead => exact hobs

/-- The owner's own rows to do after its step. -/
theorem Act.holds (h : Act l o pc new l' pc') (hkeys : (l.rows.map HoldRow.key).Nodup)
    (hholds : ∀ turn todo, pc.work = some (turn, todo) → Holds l o turn todo)
    {todo : List HoldRow} (hwork : pc'.work = some (turn, todo)) : Holds l' o turn todo := by
  cases h with
  | begin consumer =>
    rw [Pc.work_next] at hwork
    contradiction
  | lease hobs hrows => contradiction
  | read hturn =>
    obtain ⟨rfl, rfl⟩ := Turn.work_loop hwork
    subst hturn
    exact ⟨fun r hr ↦ (Ledger.mem_nextRows hr).2, Ledger.nextRows_keys hkeys,
      fun _ r hr ↦ (Ledger.mem_nextRows hr).1⟩
  | call | ok => exact hholds turn todo hwork
  | fail hpc hwork' hahead =>
    rw [hwork'] at hwork
    contradiction
  | @delete turn' row left pc' hfence hpc' =>
    rcases hpc' with rfl | rfl
    · obtain ⟨rfl, rfl⟩ := Turn.work_loop hwork
      have hrow := hholds turn (row :: todo) rfl
      obtain ⟨hnew, hkeys'⟩ := nodup_cons.1 hrow.keys
      refine ⟨fun r hr ↦ hrow.ours r (mem_cons_of_mem _ hr), hkeys', fun hlease r hr ↦ ?_⟩
      have hmem := hrow.kept hlease r (mem_cons_of_mem _ hr)
      -- the rows to do have distinct keys, so the one deleted is not among those left
      have hstays : l.deletes turn.consumer row.stream row.offset turn.tenant.tenantID o r =
          false := by
        refine Bool.eq_false_iff.2 fun hd ↦ hnew ?_
        rw [← hrow.deletes hkeys hmem hd]
        exact mem_map_of_mem hr
      exact List.mem_filter.2 ⟨hmem, by rw [hstays, Bool.not_false]⟩
    · rw [Turn.over, Pc.work_next] at hwork
      contradiction
  | leave hobs hrows hwork' hahead =>
    rw [hwork'] at hwork
    contradiction

/-- Every step keeps the fencing. -/
theorem Fenced.step {s t : State} {l : Label} (h : Fenced s) (hstep : Stepped s l t) :
    Fenced t := by
  rcases hstep with ⟨hpcs, -, -, hobs⟩ | ⟨o, new, l', pc', hact, rfl, -⟩
  · refine ⟨hobs.rowKeys h.rowKeys, hobs.tenantKeys h.tenantKeys, fun o turn todo hwork ↦ ?_⟩
    rw [hpcs] at hwork
    exact (h.holds o turn todo hwork).observed hobs (by simp) h.tenantKeys
  · have hobs := hact.observed h.rowKeys (h.holds o)
    refine ⟨hobs.rowKeys h.rowKeys, hobs.tenantKeys h.tenantKeys, fun o' turn todo hwork ↦ ?_⟩
    rcases eq_or_ne o' o with rfl | hne
    · dsimp only at hwork
      rw [update_self] at hwork
      exact hact.holds h.rowKeys (h.holds o') hwork
    · dsimp only at hwork
      rw [update_of_ne hne] at hwork
      exact (h.holds o' turn todo hwork).observed hobs (by simpa using hne.symm) h.tenantKeys

/-! ### What the history tells of an owner -/

/-- The rows of the batch before those to do have been replayed and deleted. -/
structure Walked (history : List Event) (o : String) (turn : Turn) (todo : List HoldRow) :
    Prop where
  batch : lastRead o history = some turn.batch
  sorted : turn.batch.Pairwise HoldRow.before
  done : ∃ done, turn.batch = done ++ todo ∧
    ∀ q ∈ done, .replayed o q ∈ sinceRead o history ∧ .deleted o q ∈ sinceRead o history

/-- The history of an owner that stands at `pc`. -/
structure Told (history : List Event) (o : String) (pc : Pc) : Prop where
  walked : ∀ turn todo, pc.work = some (turn, todo) → Walked history o turn todo
  replayed : ∀ turn row left, pc = .deleting turn row left → .replayed o row ∈ sinceRead o history
  once : pc.ahead.Nodup
  /-- A tenant whose row failed is behind the pass. -/
  unfailed : ∀ q, .failed o q ∈ sincePass o history → (q.consumer, q.tenantID) ∉ pc.ahead

section

variable {history : List Event} {o : String} {pc pc' : Pc} {e : Event}

theorem Walked.cons {todo : List HoldRow} (h : Walked history o turn todo)
    (hread : e.isRead o = false) : Walked (e :: history) o turn todo := by
  obtain ⟨done, hbatch, hdone⟩ := h.done
  refine ⟨(lastRead_cons hread).trans h.batch, h.sorted, done, hbatch, fun q hq ↦ ?_⟩
  rw [sinceRead_cons hread]
  exact (hdone q hq).imp (mem_cons_of_mem e) (mem_cons_of_mem e)

/-- An event that begins nothing, and is no failure of a tenant still ahead. -/
theorem Told.cons (h : Told history o pc) (hread : e.isRead o = false) (hpass : e.isPass o = false)
    (hfailed : ∀ q, e = .failed o q → (q.consumer, q.tenantID) ∉ pc.ahead) :
    Told (e :: history) o pc := by
  refine ⟨fun turn todo hwork ↦ (h.walked turn todo hwork).cons hread, fun turn row left hpc ↦ ?_,
    h.once, fun q hq ↦ ?_⟩
  · rw [sinceRead_cons hread]
    exact mem_cons_of_mem e (h.replayed turn row left hpc)
  · rw [sincePass_cons hpass] at hq
    rcases mem_cons.1 hq with hq | hq
    · exact hfailed q hq.symm
    · exact h.unfailed q hq

/-- An event of another owner. -/
theorem Told.other (h : Told history o pc) (hne : e.owner ≠ o) : Told (e :: history) o pc :=
  h.cons (isRead_of_ne hne) (isPass_of_ne hne) fun _ hq ↦ absurd (congrArg Event.owner hq) hne

/-- The owner moves on with the same rows to do, or with none. -/
theorem Told.move (h : Told history o pc) (hwork : ∀ w, pc'.work = some w → pc.work = some w)
    (hahead : pc'.ahead.Sublist pc.ahead)
    (hreplayed : ∀ turn row left, pc' = .deleting turn row left →
      .replayed o row ∈ sinceRead o history) : Told history o pc' :=
  ⟨fun turn todo hw ↦ h.walked turn todo (hwork _ hw), hreplayed, h.once.sublist hahead,
    fun q hq hmem ↦ h.unfailed q hq (hahead.subset hmem)⟩

/-- An owner that leaves a tenant has told all. -/
theorem Told.leave (h : Told history o pc) (hwork : pc'.work = none)
    (hahead : pc'.ahead.Sublist pc.ahead) : Told history o pc' := by
  refine h.move (fun w hw ↦ ?_) hahead fun turn row left hpc ↦ ?_
  · rw [hwork] at hw
    contradiction
  · rw [hpc] at hwork
    contradiction

end

theorem Turn.loop_ne_deleting {turn' : Turn} {left left' : List HoldRow} {row : HoldRow} :
    turn.loop left ≠ .deleting turn' row left' := by
  cases left with
  | nil =>
    rw [Turn.loop]
    split <;> simp
  | cons row left => simp [Turn.loop]

/-- The owner's own history after its step. -/
theorem Act.told {history : List Event} (h : Act l o pc new l' pc')
    (hkeys : (l.tenants.map HoldTenant.key).Nodup)
    (hholds : ∀ turn todo, pc.work = some (turn, todo) → Holds l o turn todo)
    (htold : Told history o pc) : Told (new ++ history) o pc' := by
  cases h with
  | begin consumer =>
    refine ⟨fun turn todo hwork ↦ ?_, fun turn row left hpc ↦ ?_, ?_, fun q hq ↦ ?_⟩
    · rw [Pc.work_next] at hwork
      contradiction
    · have hwork := Pc.work_next consumer (l.dueTenants consumer holdDrainTenantsPerPass)
      rw [hpc] at hwork
      contradiction
    · rw [Pc.ahead_next]
      exact Ledger.aheadOf_dueTenants_nodup hkeys
    · have hnil : sincePass o (.pass o :: history) = [] :=
        History.since_cons_of_true (by simp [Event.isPass])
      rw [singleton_append, hnil] at hq
      exact absurd hq not_mem_nil
  | lease hobs hrows => exact htold.leave rfl (List.Sublist.refl _)
  | @read turn turn' hturn =>
    have hcons : Turn.consumer turn' = turn.consumer ∧ turn'.tenant = turn.tenant ∧
        turn'.due = turn.due := by
      rw [hturn]
      exact ⟨rfl, rfl, rfl⟩
    have hahead : (turn'.loop turn'.batch).ahead.Sublist (Pc.reading turn).ahead := by
      have hsub : (turn'.loop turn'.batch).ahead.Sublist
          (aheadOf turn'.consumer (turn'.tenant :: turn'.due)) := Turn.ahead_loop_sublist
      rwa [hcons.1, hcons.2.1, hcons.2.2] at hsub
    refine ⟨fun turn'' todo hwork ↦ ?_, fun turn'' row left hpc ↦ ?_, htold.once.sublist hahead,
      fun q hq hmem ↦ ?_⟩
    · obtain ⟨rfl, rfl⟩ := Turn.work_loop hwork
      refine ⟨if_pos rfl, ?_, [], rfl, by simp⟩
      rw [hturn]
      exact Ledger.nextRows_pairwise
    · exact absurd hpc Turn.loop_ne_deleting
    · rw [singleton_append, sincePass_cons rfl, mem_cons] at hq
      exact htold.unfailed q (hq.resolve_left (by simp)) (hahead.subset hmem)
  | call =>
    exact (htold.cons rfl rfl (by simp)).move (fun w hw ↦ hw) (List.Sublist.refl _) (by simp)
  | ok =>
    refine (htold.cons rfl rfl (by simp)).move (fun w hw ↦ hw) (List.Sublist.refl _) ?_
    rintro turn row left hpc
    obtain ⟨rfl, rfl, rfl⟩ := Pc.deleting.inj hpc
    exact mem_cons_self
  | @fail turn row left pc pc' hpc hwork hahead =>
    have hpcs : pc.work = some (turn, row :: left) ∧
        pc.ahead = aheadOf turn.consumer (turn.tenant :: turn.due) := by
      rcases hpc with rfl | rfl
      all_goals exact ⟨rfl, rfl⟩
    obtain ⟨hconsumer, htenant⟩ :=
      HoldRow.ofTenant_iff.1 ((hholds turn _ hpcs.1).ours row mem_cons_self)
    have honce := htold.once
    rw [hpcs.2] at honce
    refine (htold.leave hwork ?_).cons rfl rfl fun q hq ↦ ?_
    · rw [hahead, hpcs.2]
      exact aheadOf_sublist ..
    · -- the pass lists a tenant once, so the one that failed is not ahead any more
      obtain ⟨-, rfl⟩ := Event.failed.inj hq
      rw [hconsumer, htenant, hahead]
      exact (nodup_cons.1 honce).1
  | @delete turn row left pc' hfence hpc' =>
    have htold' : Told (.deleted o row :: history) o (.deleting turn row left) :=
      htold.cons rfl rfl (by simp)
    rcases hpc' with rfl | rfl
    · obtain ⟨hbatch, hsorted, done, hsplit, hdone⟩ := htold'.walked turn (row :: left) rfl
      have hrow : .replayed o row ∈ sinceRead o (.deleted o row :: history) ∧
          .deleted o row ∈ sinceRead o (.deleted o row :: history) :=
        ⟨htold'.replayed turn row left rfl, mem_cons_self⟩
      refine ⟨fun turn' todo hwork ↦ ?_, fun turn' row' left' hpc ↦ ?_,
        htold'.once.sublist Turn.ahead_loop_sublist,
        fun q hq hmem ↦ htold'.unfailed q hq (Turn.ahead_loop_sublist.subset hmem)⟩
      · obtain ⟨rfl, rfl⟩ := Turn.work_loop hwork
        refine ⟨hbatch, hsorted, done ++ [row], ?_, fun q hq ↦ ?_⟩
        · rw [hsplit, append_assoc, singleton_append]
        · rcases mem_append.1 hq with hq | hq
          · exact hdone q hq
          · rw [mem_singleton.1 hq]
            exact hrow
      · exact absurd hpc Turn.loop_ne_deleting
    · refine htold'.leave (Pc.work_next ..) ?_
      rw [Turn.over, Pc.ahead_next]
      exact aheadOf_sublist ..
  | leave hobs hrows hwork hahead => exact htold.leave hwork hahead

/-- The events of a step are the owner's. -/
theorem Act.owner (h : Act l o pc new l' pc') : new = [] ∨ ∃ e, new = [e] ∧ e.owner = o := by
  cases h
  case lease | leave => exact .inl rfl
  all_goals exact .inr ⟨_, rfl, rfl⟩

/-- The invariant: the fence, and what the history tells of every owner. -/
structure Drains (s : State) : Prop extends Fenced s where
  told : ∀ o, Told s.history o (s.pcs o)

theorem Drains.init : Drains {} := by
  refine ⟨⟨nodup_nil, nodup_nil, ?_⟩, fun o ↦ ⟨?_, ?_, nodup_nil, ?_⟩⟩ <;>
    simp [Pc.work, Pc.ahead]

/-- Every step keeps the invariant. -/
theorem Drains.step {s t : State} {l : Label} (h : Drains s) (hstep : Stepped s l t) :
    Drains t := by
  refine ⟨h.toFenced.step hstep, fun o' ↦ ?_⟩
  rcases hstep with ⟨hpcs, hhistory, -, -⟩ | ⟨o, new, l', pc', hact, rfl, -⟩
  · rw [hpcs, hhistory]
    exact h.told o'
  · dsimp only
    rcases eq_or_ne o' o with rfl | hne
    · rw [update_self]
      exact hact.told h.tenantKeys (h.holds o') (h.told o')
    · rw [update_of_ne hne]
      rcases hact.owner with rfl | ⟨e, rfl, rfl⟩
      · exact h.told o'
      · exact (h.told o').other hne.symm

/-- The invariant holds along every run. -/
theorem drains_of_reachable {cfg : DrainConfig} {s : State} (hs : (drainSystem cfg).Reachable s) :
    Drains s :=
  hs.invariant (fun _ hinit ↦ hinit ▸ Drains.init) fun _ _ _ _ _ h hstep ↦
    h.step (step_stepped hstep)

/-! ### The three facts -/

/-- A row goes only when the owner at its delete goes for it. -/
theorem Act.row_gone (h : Act l o pc new l' pc') (hkeys : (l.rows.map HoldRow.key).Nodup)
    (hholds : ∀ turn todo, pc.work = some (turn, todo) → Holds l o turn todo) (hr : r ∈ l.rows)
    (hgone : r ∉ l'.rows) :
    .deleted o r ∈ new ∧ ∃ turn left, pc = .deleting turn r left ∧
      l.leaseHeldBy turn.consumer turn.tenant.tenantID o = true := by
  cases h with
  | lease hobs hrows | leave hobs hrows hwork hahead => exact absurd (hrows ▸ hr) hgone
  | @delete turn row left pc' hfence hpc' =>
    have hd : l.deletes turn.consumer row.stream row.offset turn.tenant.tenantID o r = true := by
      refine (Bool.eq_false_or_eq_true _).resolve_right fun hd ↦ hgone ?_
      exact List.mem_filter.2 ⟨hr, by rw [hd, Bool.not_false]⟩
    obtain rfl := (hholds turn (row :: left) rfl).deletes hkeys hr hd
    exact ⟨mem_singleton_self _, turn, left, rfl, hfence⟩
  | begin | read | call | ok | fail => exact absurd hr hgone

/-- An owner calls `Replay` on the row it is at. -/
theorem Act.replay {o' : String} (h : Act l o pc [.replay o' r] l' pc') :
    o' = o ∧ ∃ turn left, pc = .looping turn r left := by
  cases h with
  | call => exact ⟨rfl, _, _, rfl⟩

/-- The rows of the batch before the one at hand are the smaller offsets of its stream, at least. -/
theorem Walked.before {history : List Event} {row : HoldRow} {left : List HoldRow}
    (h : Walked history o turn (row :: left)) {q : HoldRow} (hq : q ∈ turn.batch)
    (hstream : q.stream = row.stream) (hlt : q.offset < row.offset) :
    .replayed o q ∈ sinceRead o history ∧ .deleted o q ∈ sinceRead o history := by
  obtain ⟨done, hbatch, hdone⟩ := h.done
  have hsorted := h.sorted
  rw [hbatch] at hq hsorted
  rcases mem_append.1 hq with hq | hq
  · exact hdone q hq
  rcases mem_cons.1 hq with rfl | hq
  · exact absurd hlt (Int.lt_irrefl _)
  · -- what is left of the sorted batch comes after the row at hand
    have hle := rel_of_pairwise_cons (pairwise_append.1 hsorted).2.1 hq
    rcases hle with ⟨-, hle⟩ | hle
    · exact absurd hlt (Int.not_lt.2 hle)
    · exact absurd hle (hstream ▸ lt_irrefl _)

/-- In any interleaving of drains, parks and the clock: a row leaves the ledger only through a
`DeleteRow` of an owner that holds the live lease on the row's own (consumer, tenant) and whose
replay of it returned success; a replay comes after the earlier rows of its stream in the batch were
replayed and deleted; and after a failure the owner's pass takes no row of that tenant any more. -/
theorem drain_ordered_and_fenced {cfg : DrainConfig} {s t : State} {l : Label}
    (hs : (drainSystem cfg).Reachable s) (hstep : s.step cfg l = some t) :
    (∀ r ∈ s.ledger.rows, r ∉ t.ledger.rows →
      ∃ o w, l = .delete o w ∧ s.ledger.leaseHeldBy r.consumer r.tenantID o = true ∧
        .replayed o r ∈ sinceRead o s.history) ∧
    (∀ o r, t.history = .replay o r :: s.history →
      ∃ batch, lastRead o s.history = some batch ∧ r ∈ batch ∧
        ∀ q ∈ batch, q.stream = r.stream → q.offset < r.offset →
          .replayed o q ∈ sinceRead o s.history ∧ .deleted o q ∈ sinceRead o s.history) ∧
    ∀ o w, l = .delete o w → ∀ q, .failed o q ∈ sincePass o s.history →
      ∀ r ∈ s.ledger.rows, r.consumer = q.consumer → r.tenantID = q.tenantID →
        r ∈ t.ledger.rows := by
  have hinv := drains_of_reachable hs
  rcases step_stepped hstep with ⟨-, hhistory, hrows, -⟩ | ⟨o, new, l', pc', hact, rfl, hlabel⟩
  · -- a park or the clock
    refine ⟨fun r hr hgone ↦ absurd (hrows r hr) hgone, fun o r h ↦ ?_, fun _ _ _ _ _ r hr _ _ ↦
      hrows r hr⟩
    rw [hhistory] at h
    exact absurd h.symm (cons_ne_self _ _)
  have hgone : ∀ r ∈ s.ledger.rows, r ∉ l'.rows → _ := fun r hr ↦
    hact.row_gone hinv.rowKeys (hinv.holds o) hr
  refine ⟨fun r hr hne ↦ ?_, fun o' r h ↦ ?_, ?_⟩
  · obtain ⟨hnew, turn, left, hpc, hlease⟩ := hgone r hr hne
    obtain ⟨w, rfl⟩ := hlabel r hnew
    obtain ⟨hconsumer, htenant⟩ := HoldRow.ofTenant_iff.1
      ((hinv.holds o turn (r :: left) (hpc ▸ rfl)).ours r mem_cons_self)
    refine ⟨o, w, rfl, ?_, (hinv.told o).replayed turn r left hpc⟩
    rw [hconsumer, htenant]
    exact hlease
  · obtain rfl : new = [.replay o' r] :=
      append_cancel_right (h : _ = [.replay o' r] ++ s.history)
    obtain ⟨rfl, turn, left, hpc⟩ := hact.replay
    have hwalked := (hinv.told o').walked turn (r :: left) (hpc ▸ rfl)
    obtain ⟨done, hbatch, -⟩ := hwalked.done
    refine ⟨turn.batch, hwalked.batch, ?_, fun q hq ↦ hwalked.before hq⟩
    rw [hbatch]
    exact mem_append_right _ mem_cons_self
  · rintro o' w rfl q hq r hr hconsumer htenant
    refine Classical.by_contradiction fun hne ↦ ?_
    obtain ⟨hnew, turn, left, hpc, -⟩ := hgone r hr hne
    obtain ⟨w', hlabel'⟩ := hlabel r hnew
    obtain ⟨rfl, -⟩ := Label.delete.inj hlabel'
    obtain ⟨hconsumer', htenant'⟩ := HoldRow.ofTenant_iff.1
      ((hinv.holds o' turn (r :: left) (hpc ▸ rfl)).ours r mem_cons_self)
    refine (hinv.told o').unfailed q hq ?_
    rw [hpc, ← hconsumer, ← htenant, hconsumer', htenant']
    exact mem_cons_self

/-- A pass in which tenant `x` fails and tenant `y` goes on: the delete of `y`'s first row, under
`y`'s lease, leaves `x`'s row alone, and the replay of `y`'s second row comes after it. -/
theorem drain_ordered_and_fenced_after_failure :
    ∃ (cfg : DrainConfig) (s t u : State) (x y z : HoldRow),
      (drainSystem cfg).Reachable s ∧ s.step cfg (.delete "a" .done) = some t ∧
      t.step cfg (.loop "a" false) = some u ∧
      (y ∈ s.ledger.rows ∧ y ∉ t.ledger.rows ∧
        s.ledger.leaseHeldBy y.consumer y.tenantID "a" = true ∧
        .replayed "a" y ∈ sinceRead "a" s.history) ∧
      (u.history = .replay "a" z :: t.history ∧ y.stream = z.stream ∧ y.offset < z.offset ∧
        ∃ batch, lastRead "a" t.history = some batch ∧ y ∈ batch ∧
          .deleted "a" y ∈ sinceRead "a" t.history) ∧
      .failed "a" x ∈ sincePass "a" s.history ∧ x ∈ s.ledger.rows ∧ x ∈ t.ledger.rows := by
  let cfg : DrainConfig :=
    { leaseDuration := 60, drainInterval := 1, maxBackoff := 10, unmarshal := fun _ ↦ .ok () }
  let row (tenant : String) (offset : ℤ) : HoldRow := ⟨"c", "s", offset, tenant, [], [], 0⟩
  obtain ⟨s, t, u, hrun, ht, hu, hy, hgone, hx, hfailed, hreplay, hbatch⟩ : ∃ s t u,
      (drainSystem cfg).run {} [.park (row "x" 1), .park (row "y" 2), .park (row "y" 3),
        .begin "a" "c", .acquire "a" .done, .read "a" true, .loop "a" false, .reply "a" .panic,
        .acquire "a" .done, .read "a" true, .loop "a" false, .reply "a" .ok] = some s ∧
      s.step cfg (.delete "a" .done) = some t ∧ t.step cfg (.loop "a" false) = some u ∧
      row "y" 2 ∈ s.ledger.rows ∧ row "y" 2 ∉ t.ledger.rows ∧ row "x" 1 ∈ s.ledger.rows ∧
      .failed "a" (row "x" 1) ∈ sincePass "a" s.history ∧
      u.history = .replay "a" (row "y" 3) :: t.history ∧
      lastRead "a" t.history = some [row "y" 2, row "y" 3] :=
    ⟨_, _, _, rfl, rfl, rfl, by decide, by decide, by decide, by decide, rfl, rfl⟩
  have hs : (drainSystem cfg).Reachable s := StepSystem.reach_of_run (.init rfl) hrun
  obtain ⟨hleft, -, hkept⟩ := drain_ordered_and_fenced hs ht
  obtain ⟨o, w, hlabel, hlease, hreplayed⟩ := hleft _ hy hgone
  cases hlabel
  have hnext : (drainSystem cfg).Reachable t := hs.next (l := .delete "a" .done) ht
  obtain ⟨-, hordered, -⟩ := drain_ordered_and_fenced hnext hu
  obtain ⟨batch, hbatch', -, hbefore⟩ := hordered _ _ hreplay
  cases hbatch.symm.trans hbatch'
  exact ⟨cfg, s, t, u, row "x" 1, row "y" 2, row "y" 3, hs, ht, hu, ⟨hy, hgone, hlease, hreplayed⟩,
    ⟨hreplay, rfl, by decide, _, hbatch', mem_cons_self,
      (hbefore _ mem_cons_self rfl (by decide)).2⟩,
    hfailed, hx, hkept _ _ rfl _ hfailed _ hx rfl rfl⟩

end Hold
