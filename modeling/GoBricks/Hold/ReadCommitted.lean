import GoBricks.Hold.Ledger
import GoBricks.Lib.Database
import GoBricks.Lib.StepSystem

/-!
# The hold ledger on PostgreSQL

The hold's statements as a READ COMMITTED database runs them, by any number of replicas at once.

* A **park** is a transaction: the marker upsert, the row insert, the commit. The upsert locks an
  existing marker until the transaction ends, and a marker it inserts is visible to others only
  then; a second upsert of the same marker waits in both cases.
* Every other statement commits by itself. It takes its snapshot, clock included, when it begins and
  completes when the rows it found are not locked; in between anything may commit.

The invariant the hold lives by is that **every held row's (consumer, tenant) has a marker**: the
drain starts from the markers, so a row without one is never replayed. `Park` locks the marker first
so that a release "blocks until the row below is committed and its no-rows-remain check sees it".
The release does block, but the check is a subquery on another table and keeps the snapshot from
before the wait. `held_row_without_marker` is the run in which the marker goes and the row stays.
-/

namespace Hold.ReadCommitted

/-- The statements that commit by themselves. -/
inductive Stmt
  | acquireLease (consumer tenant owner : String) (lease : ℤ)
  | releaseLease (consumer tenant owner : String)
  | deleteRow (consumer stream : String) (offset : ℤ) (tenant owner : String)
  | defer (consumer tenant owner : String) (backoff : ℤ) (lastErr : String)
  | release (consumer tenant owner : String)

/-- What a statement reads: the committed tables and the clock when it begins. -/
structure Snapshot where
  rows : VTable HoldRow
  tenants : VTable HoldTenant
  now : ℤ

/-- A statement between its snapshot and its completion. -/
structure Running where
  stmt : Stmt
  snapshot : Snapshot

/-- `NOT EXISTS` of `Release` is the negation of this. -/
def Snapshot.rowsRemain (sn : Snapshot) (consumer tenant : String) : Bool :=
  sn.rows.any fun r ↦ r.val.ofTenant consumer tenant

/-- The fence's subquery. -/
def Snapshot.leaseHeldBy (sn : Snapshot) (consumer tenant owner : String) : Bool :=
  sn.tenants.any fun m ↦ m.val.ofTenant consumer tenant && m.val.leased owner sn.now

namespace Stmt

/-- The condition on a row of the tenant table, subqueries and clock read from the snapshot. -/
def onTenant (st : Stmt) (sn : Snapshot) (m : HoldTenant) : Bool :=
  match st with
  | .acquireLease consumer tenant owner _ =>
    m.ofTenant consumer tenant && m.acquirable owner sn.now
  | .releaseLease consumer tenant owner => m.ofTenant consumer tenant && m.ownedBy owner
  | .deleteRow .. => false
  | .defer consumer tenant owner _ _ => m.ofTenant consumer tenant && m.leased owner sn.now
  | .release consumer tenant owner =>
    m.ofTenant consumer tenant && m.leased owner sn.now && !sn.rowsRemain consumer tenant

/-- The change to a row of the tenant table; `none` deletes it. -/
def tenantEffect (st : Stmt) (sn : Snapshot) (m : HoldTenant) : Option HoldTenant :=
  match st with
  | .acquireLease _ _ owner lease => some (m.acquireLease owner sn.now lease)
  | .releaseLease .. => some m.releaseLease
  | .deleteRow .. => some m
  | .defer _ _ _ backoff lastErr => some (m.defer sn.now backoff lastErr)
  | .release .. => none

/-- The condition on a row of the row table. -/
def onRow (st : Stmt) (sn : Snapshot) (r : HoldRow) : Bool :=
  match st with
  | .deleteRow consumer stream offset tenant owner =>
    r.at_ consumer stream offset && sn.leaseHeldBy consumer tenant owner
  | _ => false

end Stmt

/-- Where a park stands. -/
inductive ParkPhase
  /-- The marker upsert ran. -/
  | marked
  /-- The row insert ran; `fresh` unless it met a row already parked. -/
  | inserted (fresh : Bool)
  /-- Committed or rolled back. -/
  | ended
  deriving DecidableEq

/-- A park's transaction. -/
structure ParkTx where
  row : HoldRow
  /-- The transaction's `NOW()`. -/
  began : ℤ
  /-- The marker it locked, or `none` when it inserted one. -/
  locked : Option ℕ
  phase : ParkPhase := .marked

namespace ParkTx

/-- Whether the transaction keeps marker `uid` locked. -/
def holds (p : ParkTx) (uid : ℕ) : Bool :=
  p.phase ≠ .ended && p.locked = some uid

/-- Whether the transaction has an uncommitted marker for `(consumer, tenant)`. -/
def inserting (p : ParkTx) (consumer tenant : String) : Bool :=
  p.phase ≠ .ended && p.locked = none && p.row.ofTenant consumer tenant

/-- Whether the transaction has an uncommitted row under the key. -/
def insertingRow (p : ParkTx) (r : HoldRow) : Bool :=
  p.phase = .inserted true && p.row.key = r.key

end ParkTx

/-- The committed tables, the clock, and what is in flight. -/
structure State where
  rows : VTable HoldRow := []
  tenants : VTable HoldTenant := []
  nextUid : ℕ := 0
  now : ℤ := 0
  parks : List ParkTx := []
  /-- A statement that completed or was cancelled is `none`. -/
  running : List (Option Running) := []

/-- Who moves. -/
inductive Label
  /-- A park begins with its marker upsert. -/
  | mark (row : HoldRow)
  | insertRow (p : ℕ)
  | commit (p : ℕ)
  | abort (p : ℕ)
  | begin (st : Stmt)
  | finish (i : ℕ)
  | cancel (i : ℕ)
  /-- The database clock advances. -/
  | tick (d : ℕ)

namespace State

/-- Whether a park keeps marker `uid` locked. -/
def isLocked (s : State) (uid : ℕ) : Bool :=
  s.parks.any fun p ↦ p.holds uid

/-- The marker upsert, as far as it can go without waiting. -/
def mark (s : State) (row : HoldRow) : Option State :=
  if !row.validateHoldRow then none
  else match s.tenants.find? fun m ↦ m.val.ofTenant row.consumer row.tenantID with
  | some m =>
    if s.isLocked m.uid then none
    else some { s with
      parks := s.parks ++ [{ row := row, began := s.now, locked := some m.uid }] }
  | none =>
    if s.parks.any fun p ↦ p.inserting row.consumer row.tenantID then none
    else some { s with parks := s.parks ++ [{ row := row, began := s.now, locked := none }] }

/-- The row insert, `ON CONFLICT DO NOTHING`; it waits for another uncommitted row with its key. -/
def insertRow (s : State) (i : ℕ) : Option State :=
  match s.parks[i]? with
  | some p =>
    if p.phase ≠ .marked then none
    else if s.parks.any fun q ↦ q.insertingRow p.row then none
    else
      let fresh := !s.rows.any fun r ↦ r.val.key = p.row.key
      some { s with parks := s.parks.set i { p with phase := .inserted fresh } }
  | none => none

/-- The tenant table with the marker a park wrote. The touch of an existing marker changes
nothing. -/
def withMarker (s : State) (p : ParkTx) : VTable HoldTenant :=
  match p.locked with
  | some _ => s.tenants
  | none => s.tenants ++ [⟨s.nextUid, .new p.row.consumer p.row.tenantID p.began⟩]

/-- The row table with the row a park wrote. -/
def withRow (s : State) (p : ParkTx) (fresh : Bool) : VTable HoldRow :=
  if fresh then s.rows ++ [⟨s.nextUid, { p.row with heldAt := p.began }⟩] else s.rows

/-- What the transaction wrote becomes visible. -/
def commit (s : State) (i : ℕ) : Option State :=
  match s.parks[i]? with
  | some p =>
    match p.phase with
    | .inserted fresh =>
      some { s with
        tenants := s.withMarker p
        rows := s.withRow p fresh
        nextUid := s.nextUid + 1
        parks := s.parks.set i { p with phase := .ended } }
    | _ => none
  | none => none

/-- A park is rolled back. -/
def abort (s : State) (i : ℕ) : Option State :=
  match s.parks[i]? with
  | some p =>
    if p.phase = .ended then none
    else some { s with parks := s.parks.set i { p with phase := .ended } }
  | none => none

/-- A statement starts and takes its snapshot. -/
def begin (s : State) (st : Stmt) : State :=
  { s with running := s.running ++ [some ⟨st, s.rows, s.tenants, s.now⟩] }

end State

/-- The markers the statement found. -/
def Running.markers (r : Running) : List ℕ :=
  r.snapshot.tenants.found (r.stmt.onTenant r.snapshot)

/-- The rows the statement found. -/
def Running.heldRows (r : Running) : List ℕ :=
  r.snapshot.rows.found (r.stmt.onRow r.snapshot)

namespace State

/-- The statement completes on the rows it found. Only a park keeps a lock, and only on a marker. -/
def finish (s : State) (i : ℕ) : Option State :=
  match s.running[i]? with
  | some (some r) =>
    if r.markers.any fun uid ↦ s.isLocked uid then none
    else some { s with
      tenants := s.tenants.rewrite r.markers (r.stmt.onTenant r.snapshot)
        (r.stmt.tenantEffect r.snapshot)
      rows := s.rows.rewrite r.heldRows (r.stmt.onRow r.snapshot) fun _ ↦ none
      running := s.running.set i none }
  | _ => none

/-- The session goes away before the statement completes. -/
def cancel (s : State) (i : ℕ) : Option State :=
  match s.running[i]? with
  | some (some _) => some { s with running := s.running.set i none }
  | _ => none

/-- A step of the store. -/
def step (s : State) : Label → Option State
  | .mark row => s.mark row
  | .insertRow i => s.insertRow i
  | .commit i => s.commit i
  | .abort i => s.abort i
  | .begin st => some (s.begin st)
  | .finish i => s.finish i
  | .cancel i => s.cancel i
  | .tick d => some { s with now := s.now + d }

end State

/-- The ledger from its creation on. -/
def system : StepSystem State Label where
  init s := s = {}
  step := State.step

/-- The invariant the hold lives by. -/
def Marked (s : State) : Prop :=
  ∀ r ∈ s.rows, ∃ m ∈ s.tenants, m.val.ofTenant r.val.consumer r.val.tenantID = true

/-- No row of the tenant a `Release` is about has appeared since its snapshot. -/
def Running.seesRows (s : State) (r : Running) : Bool :=
  match r.stmt with
  | .release consumer tenant _ =>
    s.rows.all fun x ↦ !x.val.ofTenant consumer tenant || decide (x ∈ r.snapshot.rows)
  | _ => true

/-- The condition on a run: when a `Release` completes, every row of its tenant was already there
when it took its snapshot, so none was parked while it waited. -/
def ReleaseSeesRows (s : State) : Label → Prop
  | .finish i => (s.running[i]?.join.all fun r ↦ r.seesRows s) = true
  | _ => True

/-- Only the end of a statement has a condition. -/
instance (s : State) : ∀ l, Decidable (ReleaseSeesRows s l)
  | .finish _ => inferInstanceAs (Decidable (_ = true))
  | .mark _ | .insertRow _ | .commit _ | .abort _ | .begin _ | .cancel _ | .tick _ =>
    .isTrue trivial

/-! ### Conditions and effects -/

theorem ofTenant_row {consumer tenant : String} {r : HoldRow} :
    r.ofTenant consumer tenant = true ↔ r.consumer = consumer ∧ r.tenantID = tenant := by
  simp [HoldRow.ofTenant]

theorem ofTenant_marker {consumer tenant : String} {m : HoldTenant} :
    m.ofTenant consumer tenant = true ↔ m.consumer = consumer ∧ m.tenantID = tenant := by
  simp [HoldTenant.ofTenant]

/-- No statement moves a marker to another tenant. -/
theorem ofTenant_of_effect {st : Stmt} {sn : Snapshot} {m m' : HoldTenant}
    (h : st.tenantEffect sn m = some m') (consumer tenant : String) :
    m'.ofTenant consumer tenant = m.ofTenant consumer tenant := by
  cases st with
  | release => contradiction
  | _ =>
    cases h
    rfl

/-- A statement that takes a marker away found no row of its tenant in the snapshot. -/
theorem onTenant_of_effect_none {st : Stmt} {sn : Snapshot} {m : HoldTenant}
    (hcond : st.onTenant sn m = true) (h : st.tenantEffect sn m = none) :
    ∃ consumer tenant owner, st = .release consumer tenant owner ∧
      m.ofTenant consumer tenant = true ∧ sn.rowsRemain consumer tenant = false := by
  cases st with
  | release consumer tenant owner =>
    simp only [Stmt.onTenant, Bool.and_eq_true, Bool.not_eq_true'] at hcond
    exact ⟨consumer, tenant, owner, rfl, hcond.1.1, hcond.2⟩
  | _ => contradiction

/-- A marker goes only when no row of its tenant is left. -/
theorem Running.gone_of_release {s : State} (r : Running) (hsees : r.seesRows s = true)
    {m : HoldTenant} (hcond : r.stmt.onTenant r.snapshot m = true)
    (hgone : r.stmt.tenantEffect r.snapshot m = none) {x : Versioned HoldRow} (hx : x ∈ s.rows) :
    m.ofTenant x.val.consumer x.val.tenantID = false := by
  obtain ⟨consumer, tenant, owner, hst, hkey, hnone⟩ := onTenant_of_effect_none hcond hgone
  simp only [Running.seesRows, hst, List.all_eq_true, Bool.or_eq_true, Bool.not_eq_true',
    decide_eq_true_eq] at hsees
  rw [ofTenant_marker] at hkey
  rw [Bool.eq_false_iff]
  intro h
  obtain ⟨hconsumer, htenant⟩ := ofTenant_marker.1 h
  have hof : x.val.ofTenant consumer tenant = true :=
    ofTenant_row.2 ⟨hconsumer.symm.trans hkey.1, htenant.symm.trans hkey.2⟩
  rcases hsees x hx with hno | hmem
  · simp [hof] at hno
  · have hremain : r.snapshot.rowsRemain consumer tenant = true := List.any_eq_true.2 ⟨x, hmem, hof⟩
    simp [hremain] at hnone

/-! ### The invariant -/

/-- Every row has its marker, and a park that locked a marker still has it. -/
structure Sound (s : State) : Prop where
  marked : Marked s
  locks : ∀ p ∈ s.parks, ∀ uid, p.holds uid = true →
    ∃ m ∈ s.tenants, m.uid = uid ∧ m.val.ofTenant p.row.consumer p.row.tenantID = true

namespace Sound

variable {s s' : State} {i : ℕ}

theorem init : Sound {} :=
  ⟨by simp [Marked], by simp⟩

/-- A park begins, with a lock on a marker of its tenant if it has one. -/
theorem push (h : Sound s) {p : ParkTx} (hp : ∀ uid, p.holds uid = true →
    ∃ m ∈ s.tenants, m.uid = uid ∧ m.val.ofTenant p.row.consumer p.row.tenantID = true) :
    Sound { s with parks := s.parks ++ [p] } := by
  refine ⟨h.marked, fun q hq uid hholds ↦ ?_⟩
  rcases List.mem_append.1 hq with hq | hq
  · exact h.locks q hq uid hholds
  · obtain rfl := List.mem_singleton.1 hq
    exact hp uid hholds

/-- A park that marks its tenant. -/
theorem mark (h : Sound s) {row : HoldRow} (hstep : s.mark row = some s') : Sound s' := by
  obtain ⟨-, hstep⟩ := Option.ite_none_left_eq_some.1 hstep
  rcases hfind : s.tenants.find? fun m ↦ m.val.ofTenant row.consumer row.tenantID with - | m
  · rw [hfind] at hstep
    obtain ⟨-, heq⟩ := Option.ite_none_left_eq_some.1 hstep
    cases heq
    exact h.push (by simp [ParkTx.holds])
  · rw [hfind] at hstep
    obtain ⟨-, heq⟩ := Option.ite_none_left_eq_some.1 hstep
    cases heq
    have hkey := List.find?_some hfind
    refine h.push fun uid hholds ↦ ⟨m, List.mem_of_find?_eq_some hfind, ?_, hkey⟩
    simpa [ParkTx.holds] using hholds

/-- A park that only moves on keeps, or gives up, the lock it had. -/
theorem setPark (h : Sound s) {p : ParkTx} (hp : s.parks[i]? = some p) {phase : ParkPhase}
    (hphase : p.phase ≠ .ended) :
    ∀ q ∈ s.parks.set i { p with phase := phase }, ∀ uid, q.holds uid = true →
      ∃ m ∈ s.tenants, m.uid = uid ∧ m.val.ofTenant q.row.consumer q.row.tenantID = true := by
  intro q hq uid hholds
  rcases List.mem_or_eq_of_mem_set hq with hq | rfl
  · exact h.locks q hq uid hholds
  · refine h.locks p (List.mem_of_getElem? hp) uid ?_
    simp only [ParkTx.holds, Bool.and_eq_true, decide_eq_true_eq] at hholds ⊢
    exact ⟨hphase, hholds.2⟩

/-- A park that inserts its row. -/
theorem insertRow (h : Sound s) (hstep : s.insertRow i = some s') : Sound s' := by
  unfold State.insertRow at hstep
  rcases hp : s.parks[i]? with - | p
  · simp [hp] at hstep
  rw [hp] at hstep
  obtain ⟨hphase, hstep⟩ := Option.ite_none_left_eq_some.1 hstep
  obtain ⟨-, heq⟩ := Option.ite_none_left_eq_some.1 hstep
  cases heq
  rw [not_not] at hphase
  exact ⟨h.marked, h.setPark hp (by simp [hphase])⟩

/-- A park that is rolled back. -/
theorem abort (h : Sound s) (hstep : s.abort i = some s') : Sound s' := by
  unfold State.abort at hstep
  rcases hp : s.parks[i]? with - | p
  · simp [hp] at hstep
  rw [hp] at hstep
  obtain ⟨hphase, heq⟩ := Option.ite_none_left_eq_some.1 hstep
  cases heq
  exact ⟨h.marked, h.setPark hp hphase⟩

theorem mem_withMarker {m : Versioned HoldTenant} (hm : m ∈ s.tenants) (p : ParkTx) :
    m ∈ s.withMarker p := by
  unfold State.withMarker
  split
  · exact hm
  · exact List.mem_append_left _ hm

/-- A park that has not ended has a marker to show for its tenant. -/
theorem exists_marker (h : Sound s) {p : ParkTx} (hp : p ∈ s.parks) (hphase : p.phase ≠ .ended) :
    ∃ m ∈ s.withMarker p, m.val.ofTenant p.row.consumer p.row.tenantID = true := by
  rcases hlocked : p.locked with - | uid
  · rw [State.withMarker, hlocked]
    exact ⟨_, List.mem_append_right _ (List.mem_singleton_self _), ofTenant_marker.2 ⟨rfl, rfl⟩⟩
  · obtain ⟨m, hm, -, hkey⟩ := h.locks p hp uid (by simp [ParkTx.holds, hphase, hlocked])
    exact ⟨m, mem_withMarker hm p, hkey⟩

/-- The park's row and its marker become visible together. -/
theorem commit (h : Sound s) (hstep : s.commit i = some s') : Sound s' := by
  unfold State.commit at hstep
  rcases hp : s.parks[i]? with - | p
  · simp [hp] at hstep
  rcases hphase : p.phase with - | fresh | -
  · simp [hp, hphase] at hstep
  · simp only [hp, hphase] at hstep
    cases hstep
    have hactive : p.phase ≠ .ended := by simp [hphase]
    refine ⟨fun x hx ↦ ?_, fun q hq uid hholds ↦ ?_⟩
    · have hcase : x ∈ s.rows ∨ x.val = { p.row with heldAt := p.began } := by
        cases fresh with
        | false => exact .inl hx
        | true => exact (List.mem_append.1 hx).imp_right fun hx ↦ by rw [List.mem_singleton.1 hx]
      rcases hcase with hx | hx
      · obtain ⟨m, hm, hkey⟩ := h.marked x hx
        exact ⟨m, mem_withMarker hm p, hkey⟩
      · rw [hx]
        exact h.exists_marker (List.mem_of_getElem? hp) hactive
    · obtain ⟨m, hm, hrest⟩ := h.setPark hp hactive q hq uid hholds
      exact ⟨m, mem_withMarker hm p, hrest⟩
  · simp [hp, hphase] at hstep

/-- A statement completes. -/
theorem finish (h : Sound s) (hcond : ReleaseSeesRows s (.finish i))
    (hstep : s.finish i = some s') : Sound s' := by
  unfold State.finish at hstep
  rcases hr : s.running[i]? with - | - | r
  · simp [hr] at hstep
  · simp [hr] at hstep
  rw [hr] at hstep
  obtain ⟨hfree, heq⟩ := Option.ite_none_left_eq_some.1 hstep
  cases heq
  replace hcond : r.seesRows s = true := by simpa [ReleaseSeesRows, hr] using hcond
  refine ⟨fun x hx ↦ ?_, fun p hp uid hholds ↦ ?_⟩
  · replace hx := VTable.mem_of_mem_delete hx
    obtain ⟨m, hm, hkey⟩ := h.marked x hx
    by_cases hc : m.uid ∈ r.markers ∧ r.stmt.onTenant r.snapshot m.val = true
    · rcases heffect : r.stmt.tenantEffect r.snapshot m.val with - | m'
      · exact absurd (r.gone_of_release hcond hc.2 heffect hx) (by simp [hkey])
      · refine ⟨⟨m.uid, m'⟩, VTable.mem_rewrite.2 (.inl ⟨m, hm, hc.1, hc.2, heffect, rfl⟩), ?_⟩
        rw [ofTenant_of_effect heffect]
        exact hkey
    · exact ⟨m, VTable.mem_rewrite.2 (.inr ⟨hm, hc⟩), hkey⟩
  · obtain ⟨m, hm, rfl, hkey⟩ := h.locks p hp uid hholds
    -- the statement would still be waiting for a marker some park has locked
    have hother : m.uid ∉ r.markers := by
      intro hmem
      exact hfree (List.any_eq_true.2 ⟨m.uid, hmem, List.any_eq_true.2 ⟨p, hp, hholds⟩⟩)
    exact ⟨m, VTable.mem_rewrite_of_not_mem hm hother, rfl, hkey⟩

/-- Every step keeps the rows marked, if releases see the rows. -/
theorem step (h : Sound s) {l : Label} (hcond : ReleaseSeesRows s l) (hstep : s.step l = some s') :
    Sound s' := by
  cases l with
  | mark row => exact h.mark hstep
  | insertRow i => exact h.insertRow hstep
  | commit i => exact h.commit hstep
  | abort i => exact h.abort hstep
  | finish i => exact h.finish hcond hstep
  | begin st | tick d =>
    cases hstep
    exact ⟨h.marked, h.locks⟩
  | cancel i =>
    change s.cancel i = some s' at hstep
    unfold State.cancel at hstep
    split at hstep
    · cases hstep
      exact ⟨h.marked, h.locks⟩
    · contradiction

end Sound

/-- **Every held row has its marker** in every committed state of every run in which no row of a
tenant is parked between the snapshot and the completion of a `Release` of that tenant. -/
theorem held_row_has_marker {s : State} (hs : system.Reach ReleaseSeesRows s) :
    ∀ r ∈ s.rows, ∃ m ∈ s.tenants,
      m.val.consumer = r.val.consumer ∧ m.val.tenantID = r.val.tenantID := by
  have hsound : Sound s :=
    hs.invariant (fun s hs ↦ hs ▸ .init) fun s l t _ hcond h hstep ↦ h.step hcond hstep
  intro r hr
  obtain ⟨m, hm, hkey⟩ := hsound.marked r hr
  exact ⟨m, hm, ofTenant_marker.1 hkey⟩

section Instances

/-- A message of tenant `t` at an offset of stream `s`. -/
def heldMessage (offset : ℤ) : HoldRow :=
  { consumer := "c", stream := "s", offset, tenantID := "t", data := [], properties := [],
    heldAt := 0 }

/-- The tenant is parked once, leased by a replica and its row replayed and deleted; the marker is
left, and nothing else. -/
def drained : List Label :=
  [.mark (heldMessage 1), .insertRow 0, .commit 0,
    .begin (.acquireLease "c" "t" "replica" 30), .finish 0,
    .begin (.deleteRow "c" "s" 1 "t" "replica"), .finish 1]

/-- A park that commits before the release takes its snapshot: the release finds the row and leaves
the marker. -/
theorem held_row_has_marker_late_release : ∃ s : State,
    system.Reach ReleaseSeesRows s ∧ s.rows.length = 1 ∧
    ∀ r ∈ s.rows, ∃ m ∈ s.tenants,
      m.val.consumer = r.val.consumer ∧ m.val.tenantID = r.val.tenantID := by
  have hrun : (system.restrict ReleaseSeesRows).run {}
      (drained ++ [.mark (heldMessage 2), .insertRow 1, .commit 1,
        .begin (.release "c" "t" "replica"), .finish 2]) = some _ := rfl
  have hs : system.Reach ReleaseSeesRows _ :=
    .of_restrict (StepSystem.reach_of_run (.init rfl) hrun)
  exact ⟨_, hs, rfl, held_row_has_marker hs⟩

/-- The losing schedule: a park locks the marker, a release takes its snapshot and waits, the park
commits its row, and the release deletes the marker all the same. -/
theorem held_row_without_marker : ∃ s : State, system.Reachable s ∧
    ∃ r ∈ s.rows, ¬∃ m ∈ s.tenants,
      m.val.consumer = r.val.consumer ∧ m.val.tenantID = r.val.tenantID := by
  obtain ⟨s, hrun, hrows, htenants⟩ : ∃ s, system.run {}
      (drained ++ [.mark (heldMessage 2), .begin (.release "c" "t" "replica"), .insertRow 1,
        .commit 1, .finish 2]) = some s ∧
      s.rows = [⟨1, heldMessage 2⟩] ∧ s.tenants = [] := ⟨_, rfl, rfl, rfl⟩
  have hs : system.Reachable s := StepSystem.reach_of_run (.init rfl) hrun
  exact ⟨s, hs, ⟨1, heldMessage 2⟩, by simp [hrows], by simp [htenants]⟩

end Instances

end Hold.ReadCommitted
