import GoBricks.Hold.Drain

/-!
# What one step of the drains can do

A step belongs to the environment or to one owner. For the owner itself it is one of a few acts at
its program counter (`Act`); **for everybody else it is a change of the ledger that gives nobody
else a lease, and takes a row away only under the owner's own lease on the row's tenant**
(`Observed`).
-/

namespace Hold

open List Function Option

/-! ### Leases -/

/-- The primary key of the tenant table. -/
def HoldTenant.key (m : HoldTenant) : String × String :=
  (m.consumer, m.tenantID)

theorem HoldTenant.ofTenant_iff {m : HoldTenant} {consumer tenant : String} :
    m.ofTenant consumer tenant = true ↔ m.key = (consumer, tenant) := by
  simp [HoldTenant.ofTenant, HoldTenant.key]

/-- A marker whose lease is live. -/
theorem HoldTenant.leased_iff {m : HoldTenant} {owner : String} {now : ℤ} :
    m.leased owner now = true ↔
      m.leaseOwner = some owner ∧ ∃ until_, m.leaseUntil = some until_ ∧ now < until_ := by
  rcases h : m.leaseUntil with - | u <;> simp [HoldTenant.leased, HoldTenant.ownedBy, h]

namespace Ledger

variable {l : Ledger} {consumer tenant owner : String}

/-- What holding a lease means. -/
theorem leaseHeldBy_iff : l.leaseHeldBy consumer tenant owner = true ↔
    ∃ m ∈ l.tenants, m.key = (consumer, tenant) ∧ m.leased owner l.now = true := by
  simp only [leaseHeldBy, List.any_eq_true, Bool.and_eq_true, HoldTenant.ofTenant_iff]

/-- One tenant, one lease. -/
theorem leaseHeldBy_unique (hkeys : (l.tenants.map HoldTenant.key).Nodup) {owner' : String}
    (h : l.leaseHeldBy consumer tenant owner = true)
    (h' : l.leaseHeldBy consumer tenant owner' = true) : owner = owner' := by
  obtain ⟨m, hm, hkey, hleased⟩ := leaseHeldBy_iff.1 h
  obtain ⟨m', hm', hkey', hleased'⟩ := leaseHeldBy_iff.1 h'
  obtain rfl : m = m' := inj_on_of_nodup_map hkeys hm hm' (hkey.trans hkey'.symm)
  have howner := (HoldTenant.leased_iff.1 hleased).1
  have howner' := (HoldTenant.leased_iff.1 hleased').1
  exact some_inj.1 (howner.symm.trans howner')

end Ledger

/-- What a statement of `who`, or of the environment when it is `none`, may do to the ledger as far
as the other owners are concerned: nobody else gains a lease, and a row goes only under a lease of
`who` on its tenant. -/
structure Observed (who : Option String) (l l' : Ledger) : Prop where
  leases : ∀ o consumer tenant, who ≠ some o → l'.leaseHeldBy consumer tenant o = true →
    l.leaseHeldBy consumer tenant o = true
  rows : ∀ r ∈ l.rows, r ∈ l'.rows ∨
    ∃ o, who = some o ∧ l.leaseHeldBy r.consumer r.tenantID o = true
  rowKeys : (l.rows.map HoldRow.key).Nodup → (l'.rows.map HoldRow.key).Nodup
  tenantKeys : (l.tenants.map HoldTenant.key).Nodup → (l'.tenants.map HoldTenant.key).Nodup

namespace Observed

variable {l : Ledger} {who : Option String} {consumer tenant owner : String}

theorem refl (who : Option String) (l : Ledger) : Observed who l l :=
  ⟨fun _ _ _ _ h ↦ h, fun _ h ↦ .inl h, id, id⟩

/-- A statement that is not known to have taken effect. -/
theorem write {s : State} {l' : Ledger} (h : Observed who s.ledger l') (w : DbWrite) :
    Observed who s.ledger (s.write w l').ledger := by
  unfold State.write
  split
  · exact h
  · exact refl who s.ledger

/-- An update of markers that gives a lease to nobody but `who`. -/
theorem updateTenants {cond : HoldTenant → Bool} {f : HoldTenant → HoldTenant}
    (hkey : ∀ m, (f m).key = m.key) (howner : ∀ m o, (f m).leaseOwner = some o → who = some o) :
    Observed who l (l.updateTenants cond f) := by
  refine ⟨fun o c t hne h ↦ ?_, fun r hr ↦ .inl hr, id, fun hnodup ↦ ?_⟩
  · obtain ⟨m, hm, hmkey, hleased⟩ := Ledger.leaseHeldBy_iff.1 h
    obtain ⟨m₀, hm₀, rfl⟩ := mem_map.1 hm
    split at hleased
    · exact absurd (howner m₀ o (HoldTenant.leased_iff.1 hleased).1) hne
    · next hcond =>
      rw [if_neg hcond] at hmkey
      exact Ledger.leaseHeldBy_iff.2 ⟨m₀, hm₀, hmkey, hleased⟩
  · have hmap : (l.updateTenants cond f).tenants.map HoldTenant.key =
        l.tenants.map HoldTenant.key := by
      rw [Ledger.updateTenants, List.map_map]
      refine map_congr_left fun m _ ↦ ?_
      rw [comp_apply]
      split
      · exact hkey m
      · rfl
    rw [hmap]
    exact hnodup

/-- An acquisition gives the lease to its owner only. -/
theorem acquireLease (lease : ℤ) :
    Observed (some owner) l (l.acquireLease consumer tenant owner lease) :=
  updateTenants (fun _ ↦ rfl) fun _ _ h ↦ h

/-- A release of the lease gives it to nobody. -/
theorem releaseLease : Observed who l (l.releaseLease consumer tenant owner) :=
  updateTenants (fun _ ↦ rfl) fun _ _ h ↦ by contradiction

theorem defer (backoff : ℤ) (err : String) :
    Observed who l (l.defer consumer tenant owner backoff err) :=
  updateTenants (fun _ ↦ rfl) fun _ _ h ↦ by contradiction

/-- A release removes the marker, if no row is left. -/
theorem release : Observed who l (l.release consumer tenant owner) := by
  refine ⟨fun o c t _ h ↦ ?_, fun r hr ↦ .inl hr, id, fun hnodup ↦ ?_⟩
  · obtain ⟨m, hm, hrest⟩ := Ledger.leaseHeldBy_iff.1 h
    exact Ledger.leaseHeldBy_iff.2 ⟨m, (mem_filter.1 hm).1, hrest⟩
  · exact hnodup.sublist (filter_sublist.map _)

/-- A delete under the lease of the row's own tenant. -/
theorem deleteRow {stream : String} {offset : ℤ}
    (h : ∀ r ∈ l.rows, l.deletes consumer stream offset tenant owner r = true →
      l.leaseHeldBy r.consumer r.tenantID owner = true) :
    Observed (some owner) l (l.deleteRow consumer stream offset tenant owner) := by
  refine ⟨fun _ _ _ _ h ↦ h, fun r hr ↦ ?_, fun hnodup ↦ ?_, id⟩
  · rcases hd : l.deletes consumer stream offset tenant owner r with - | -
    · exact .inl (mem_filter.2 ⟨hr, by simp [hd]⟩)
    · exact .inr ⟨owner, rfl, h r hr hd⟩
  · exact hnodup.sublist (filter_sublist.map _)

/-- The clock only takes leases away. -/
theorem tick (d : ℕ) : Observed who l { l with now := l.now + d } := by
  refine ⟨fun o c t _ h ↦ ?_, fun r hr ↦ .inl hr, id, id⟩
  obtain ⟨m, hm, hkey, hleased⟩ := Ledger.leaseHeldBy_iff.1 h
  obtain ⟨howner, u, hu, hlt⟩ := HoldTenant.leased_iff.1 hleased
  have hle : l.now ≤ l.now + d := Int.le_add_of_nonneg_right (Int.natCast_nonneg d)
  have hlt' : l.now < u := lt_of_le_of_lt hle hlt
  exact Ledger.leaseHeldBy_iff.2 ⟨m, hm, hkey, HoldTenant.leased_iff.2 ⟨howner, u, hu, hlt'⟩⟩

/-- A park adds a row and, at most, a marker that is not leased. -/
theorem park (row : HoldRow) : Observed who l (l.park row) := by
  refine ⟨fun o c t _ h ↦ ?_, fun r hr ↦ .inl ?_, fun hnodup ↦ ?_, fun hnodup ↦ ?_⟩
  · obtain ⟨m, hm, hkey, hleased⟩ := Ledger.leaseHeldBy_iff.1 h
    refine Ledger.leaseHeldBy_iff.2 ⟨m, ?_, hkey, hleased⟩
    dsimp only [Ledger.park] at hm
    split at hm
    · exact hm
    · rcases mem_append.1 hm with hm | hm
      · exact hm
      · rw [mem_singleton.1 hm] at hleased
        exact absurd (HoldTenant.leased_iff.1 hleased).1 (by simp [HoldTenant.new])
  · dsimp only [Ledger.park]
    split
    · exact hr
    · exact mem_append_left _ hr
  · dsimp only [Ledger.park]
    split
    · exact hnodup
    · next hnew =>
      rw [map_append]
      refine hnodup.append (nodup_singleton _) (disjoint_singleton.2 fun hmem ↦ hnew ?_)
      obtain ⟨r, hr, hkey⟩ := mem_map.1 hmem
      exact any_eq_true.2 ⟨r, hr, decide_eq_true hkey⟩
  · dsimp only [Ledger.park]
    split
    · exact hnodup
    · next hnew =>
      rw [map_append]
      refine hnodup.append (nodup_singleton _) (disjoint_singleton.2 fun hmem ↦ hnew ?_)
      obtain ⟨m, hm, hkey⟩ := mem_map.1 hmem
      exact any_eq_true.2 ⟨m, hm, HoldTenant.ofTenant_iff.2 hkey⟩

end Observed

/-! ### What one step can do -/

/-- The (consumer, tenant) pairs of a list of due tenants. -/
def aheadOf (consumer : String) (due : List HoldTenant) : List (String × String) :=
  due.map fun m ↦ (consumer, m.tenantID)

namespace Pc

/-- The turn in which rows are being replayed, with the rows of the batch not yet done. -/
def work : Pc → Option (Turn × List HoldRow)
  | .looping turn row left | .replaying turn row left | .deleting turn row left =>
    some (turn, row :: left)
  | _ => none

/-- The tenants the pass may still replay rows of. -/
def ahead : Pc → List (String × String)
  | .idle => []
  | .acquiring consumer tenant due => aheadOf consumer (tenant :: due)
  | .reading turn | .looping turn _ _ | .replaying turn _ _ | .deleting turn _ _ =>
    aheadOf turn.consumer (turn.tenant :: turn.due)
  | .deferring turn _ | .releasing turn | .yielding turn => aheadOf turn.consumer turn.due

@[simp] theorem work_next (consumer : String) (due : List HoldTenant) :
    (Pc.next consumer due).work = none := by
  cases due <;> rfl

@[simp] theorem ahead_next (consumer : String) (due : List HoldTenant) :
    (Pc.next consumer due).ahead = aheadOf consumer due := by
  cases due <;> rfl

end Pc

theorem aheadOf_sublist (consumer : String) (tenant : HoldTenant) (due : List HoldTenant) :
    (aheadOf consumer due).Sublist (aheadOf consumer (tenant :: due)) :=
  sublist_cons_self ..

namespace Turn

variable {turn : Turn} {left todo : List HoldRow} {turn' : Turn}

/-- Where the loop goes on. -/
theorem work_loop (h : (turn.loop left).work = some (turn', todo)) :
    turn' = turn ∧ todo = left := by
  cases left with
  | nil =>
    rw [Turn.loop] at h
    split at h <;> contradiction
  | cons row left =>
    cases h
    exact ⟨rfl, rfl⟩

/-- The loop goes on through the tenants that are due. -/
theorem ahead_loop_sublist :
    (turn.loop left).ahead.Sublist (aheadOf turn.consumer (turn.tenant :: turn.due)) := by
  cases left with
  | nil =>
    rw [Turn.loop]
    split <;> exact aheadOf_sublist ..
  | cons row left => exact List.Sublist.refl _

end Turn

/-- What an owner's step does, from its program counter to the events it records, the ledger and the
program counter it leaves. -/
inductive Act (l : Ledger) (o : String) : Pc → List Event → Ledger → Pc → Prop
  | begin (consumer : String) :
    Act l o .idle [.pass o] l (.next consumer (l.dueTenants consumer holdDrainTenantsPerPass))
  | lease {consumer : String} {tenant : HoldTenant} {due : List HoldTenant} {l' : Ledger}
    (hobs : Observed (some o) l l') (hrows : l'.rows = l.rows) :
    Act l o (.acquiring consumer tenant due) [] l' (.reading { consumer, tenant, due })
  | read {turn turn' : Turn}
    (hturn : turn' = { turn with
      batch := l.nextRows turn.consumer turn.tenant.tenantID holdDrainRowsPerRead }) :
    Act l o (.reading turn) [.read o turn'.batch] l (turn'.loop turn'.batch)
  | call {turn : Turn} {row : HoldRow} {left : List HoldRow} :
    Act l o (.looping turn row left) [.replay o row] l (.replaying turn row left)
  | ok {turn : Turn} {row : HoldRow} {left : List HoldRow} :
    Act l o (.replaying turn row left) [.replayed o row] l (.deleting turn row left)
  | fail {turn : Turn} {row : HoldRow} {left : List HoldRow} {pc pc' : Pc}
    (hpc : pc = .looping turn row left ∨ pc = .replaying turn row left) (hwork : pc'.work = none)
    (hahead : pc'.ahead = aheadOf turn.consumer turn.due) :
    Act l o pc [.failed o row] l pc'
  | delete {turn : Turn} {row : HoldRow} {left : List HoldRow} {pc' : Pc}
    (hfence : l.leaseHeldBy turn.consumer turn.tenant.tenantID o = true)
    (hpc' : pc' = turn.loop left ∨ pc' = turn.over) :
    Act l o (.deleting turn row left) [.deleted o row]
      (l.deleteRow turn.consumer row.stream row.offset turn.tenant.tenantID o) pc'
  /-- The owner leaves the turn, or the whole pass. -/
  | leave {pc pc' : Pc} {l' : Ledger} (hobs : Observed (some o) l l') (hrows : l'.rows = l.rows)
    (hwork : pc'.work = none) (hahead : pc'.ahead.Sublist pc.ahead) :
    Act l o pc [] l' pc'

/-- A delete that affects no row changes nothing. -/
theorem deleteRow_of_not_affected {l : Ledger} {consumer stream tenant owner : String} {offset : ℤ}
    (h : ¬l.rows.any (l.deletes consumer stream offset tenant owner) = true) :
    l.deleteRow consumer stream offset tenant owner = l := by
  have hfilter : l.rows.filter (fun r ↦ !l.deletes consumer stream offset tenant owner r) =
      l.rows := by
    rw [filter_eq_self]
    intro r hr
    rw [List.any_eq_true] at h
    simpa using fun hd ↦ h ⟨r, hr, hd⟩
  rw [Ledger.deleteRow, hfilter]

theorem rows_write {s : State} {l' : Ledger} (h : l'.rows = s.ledger.rows) (w : DbWrite) :
    (s.write w l').ledger.rows = s.ledger.rows := by
  unfold State.write
  split
  · exact h
  · rfl

theorem write_self (s : State) (w : DbWrite) : s.write w s.ledger = s := by
  unfold State.write
  split <;> rfl

theorem goto_write (s : State) (w : DbWrite) (l : Ledger) (o : String) (pc : Pc) :
    (s.write w l).goto o pc =
      ⟨(s.write w l).ledger, update s.pcs o pc, s.history⟩ := by
  unfold State.write
  split <;> rfl

/-- A step is the environment's or one owner's. -/
def Stepped (s : State) (l : Label) (t : State) : Prop :=
  (t.pcs = s.pcs ∧ t.history = s.history ∧ (∀ r ∈ s.ledger.rows, r ∈ t.ledger.rows) ∧
    Observed none s.ledger t.ledger) ∨
  ∃ o new l' pc', Act s.ledger o (s.pcs o) new l' pc' ∧
    t = ⟨l', Function.update s.pcs o pc', new ++ s.history⟩ ∧
    ∀ r, .deleted o r ∈ new → ∃ w, l = .delete o w

/-- An effect of an owner is a step. -/
theorem stepped_of_act {s : State} {l : Label} {o : String} {pc pc' : Pc} {new : List Event}
    {l' : Ledger} (hpc : s.pcs o = pc) (h : Act s.ledger o pc new l' pc')
    (hdelete : ∀ r, .deleted o r ∈ new → ∃ w, l = .delete o w := by simp) :
    Stepped s l ⟨l', update s.pcs o pc', new ++ s.history⟩ :=
  .inr ⟨o, new, l', pc', hpc ▸ h, rfl, hdelete⟩

/-- The owner leaves without a statement. -/
theorem stepped_of_goto {s : State} {l : Label} {o : String} {pc pc' : Pc} (hpc : s.pcs o = pc)
    (hwork : pc'.work = none) (hahead : pc'.ahead.Sublist pc.ahead) :
    Stepped s l (s.goto o pc') :=
  stepped_of_act hpc (.leave (.refl _ s.ledger) rfl hwork hahead)

/-- The statements at the end of a turn. -/
theorem stepped_of_write {s : State} {l : Label} {o : String} {turn : Turn} {pc : Pc} {l' : Ledger}
    (hpc : s.pcs o = pc) (hahead : pc.ahead = aheadOf turn.consumer turn.due)
    (hobs : Observed (some o) s.ledger l') (hrows : l'.rows = s.ledger.rows) (w : DbWrite) :
    Stepped s l ((s.write w l').goto o turn.over) := by
  rw [goto_write]
  refine stepped_of_act hpc (.leave (hobs.write w) (rows_write hrows w) ?_ ?_)
  · exact Pc.work_next ..
  · rw [hahead, Turn.over, Pc.ahead_next]

/-- Every step of the drain is one of the listed effects. -/
theorem step_stepped {cfg : DrainConfig} {s t : State} {l : Label} (h : s.step cfg l = some t) :
    Stepped s l t := by
  cases l with
  | park row =>
    obtain ⟨-, heq⟩ := ite_none_right_eq_some.1 h
    cases heq
    refine .inl ⟨rfl, rfl, fun r hr ↦ ?_, .park row⟩
    dsimp only [Ledger.park]
    split
    · exact hr
    · exact mem_append_left _ hr
  | tick d =>
    cases h
    exact .inl ⟨rfl, rfl, fun r hr ↦ hr, .tick d⟩
  | begin o consumer =>
    simp only [State.step, State.begin] at h
    split at h
    · next hpc =>
      cases h
      exact stepped_of_act hpc (.begin consumer)
    · contradiction
  | acquire o w =>
    simp only [State.step, State.acquire] at h
    split at h
    · next consumer tenant due hpc =>
      cases h
      have hobs : Observed (some o) s.ledger
          (s.write w (s.ledger.acquireLease consumer tenant.tenantID o cfg.leaseDuration)).ledger :=
        (Observed.acquireLease _).write w
      have hrows := rows_write (s := s) (show (s.ledger.acquireLease consumer tenant.tenantID o
        cfg.leaseDuration).rows = s.ledger.rows from rfl) w
      rw [goto_write]
      split
      · exact stepped_of_act hpc (.lease hobs hrows)
      · refine stepped_of_act hpc (.leave hobs hrows ?_ ?_)
        · exact Pc.work_next ..
        · rw [Pc.ahead_next]
          exact aheadOf_sublist ..
    · contradiction
  | read o ok =>
    simp only [State.step, State.read] at h
    split at h
    · next turn hpc =>
      split at h
      · cases h
        refine stepped_of_goto hpc (Pc.work_next ..) ?_
        rw [Turn.over, Pc.ahead_next]
        exact aheadOf_sublist ..
      · cases h
        have hpc' : ∀ batch : List HoldRow, (if batch = [] then
            Pc.releasing { turn with batch := batch } else
            Turn.loop { turn with batch := batch } batch) =
            Turn.loop { turn with batch := batch } batch := by
          intro batch
          cases batch <;> rfl
        rw [hpc']
        exact stepped_of_act hpc (.read rfl)
    · contradiction
  | loop o spent =>
    simp only [State.step, State.loop] at h
    split at h
    · next turn row left hpc =>
      split at h
      · cases h
        exact stepped_of_goto hpc rfl (aheadOf_sublist ..)
      · split at h
        · cases h
          exact stepped_of_act hpc (.fail (.inl rfl) rfl rfl)
        · cases h
          exact stepped_of_act hpc .call
    · contradiction
  | reply o r =>
    simp only [State.step, State.reply] at h
    split at h
    · next turn row left hpc =>
      cases r <;> cases h
      case ok => exact stepped_of_act hpc .ok
      case err => exact stepped_of_act hpc (.fail (.inr rfl) rfl rfl)
      case panic =>
        exact stepped_of_act hpc (.fail (.inr rfl) (Pc.work_next ..) (Pc.ahead_next ..))
    · contradiction
  | delete o w =>
    simp only [State.step, State.delete] at h
    split at h
    · next turn row left hpc =>
      cases h
      have hahead : turn.over.ahead.Sublist (Pc.deleting turn row left).ahead := by
        rw [Turn.over, Pc.ahead_next]
        exact aheadOf_sublist ..
      rcases haff : s.ledger.rows.any (s.ledger.deletes turn.consumer row.stream row.offset
        turn.tenant.tenantID o) with - | -
      · -- the fence refused, or the row is gone: no event, and the turn is over
        rw [deleteRow_of_not_affected (by simp [haff]), write_self]
        simp only [Bool.and_false, Bool.false_eq_true, if_false]
        exact stepped_of_goto hpc (Pc.work_next ..) hahead
      · -- some row is affected, so the fence in the statement let it through
        obtain ⟨r, -, hr⟩ := any_eq_true.1 haff
        have hfence := ((Bool.and_eq_true ..).mp hr).2
        cases w with
        | done => exact stepped_of_act hpc (.delete hfence (.inl rfl)) fun _ _ ↦ ⟨_, rfl⟩
        | refused => exact stepped_of_goto hpc (Pc.work_next ..) hahead
        | unconfirmed => exact stepped_of_act hpc (.delete hfence (.inr rfl)) fun _ _ ↦ ⟨_, rfl⟩
    · contradiction
  | defer o w | release o w | yield o w =>
    simp only [State.step, State.defer, State.release, State.yield] at h
    split at h
    · next hpc =>
      cases h
      first
        | exact stepped_of_write hpc rfl (.defer ..) rfl w
        | exact stepped_of_write hpc rfl .release rfl w
        | exact stepped_of_write hpc rfl .releaseLease rfl w
    · contradiction
  | crash o =>
    cases h
    exact stepped_of_goto rfl rfl (nil_sublist _)

end Hold
