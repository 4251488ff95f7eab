import GoBricks.Streams.Effect
import GoBricks.Lib.History

/-!
# The held set's gate

What the counters of the held set achieve, over every interleaving of deliveries, parks, reloads,
promotions and what the other replicas do to the ledger.

* A tenant this runner parked stays in its set as long as the marker of that park is in the ledger;
  the only gap is the one between the park's commit and its add.
* A listing that was read before an add does not take the tenant out again.
* A reload that carries an epoch older than a promotion's does not open the gate.
* A delivery that found the gate closed goes on only after a replace has opened it.

The first one rests on the generation. **A listing whose generation is still current was read after
every add so far**, and an add comes after its park's commit; so it has every tenant that was parked
and whose marker was still there when it was read (`Kept.listed`). A marker that is there now and
was not there then has a new identity, so it is no marker of such a park.
-/

namespace Streams

open History List Function Option Bool

variable {e : Event}

namespace Event

/-- The listing of a reload. -/
def isListed (r : ℕ) : Event → Bool
  | .listed r' => r' = r
  | _ => false

/-- A delivery found its tenant's gate closed. -/
def isFound (d : ℕ) : Event → Bool
  | .foundClosed d' => d' = d
  | _ => false

theorem isFound_eq_false (h : ∀ d, e ≠ .foundClosed d) (d : ℕ) : e.isFound d = false := by
  cases e with
  | foundClosed d' => exact absurd rfl (h d')
  | _ => rfl

end Event

/-! ### Adds and listings -/

/-- `P` holds of every tenant that a park has added and whose marker is still in the ledger. -/
def Covers (s : State) (P : String → Prop) : Prop :=
  ∀ d tenant uid, s.deliveries d = .parked tenant uid → ⟨uid, tenant⟩ ∈ s.markers → P tenant

/-- The marker of a park that has committed is an old one. -/
def Delivery.CommittedBelow (next : ℕ) (pc : Delivery) : Prop :=
  ∀ tenant uid, pc.committed = some (tenant, uid) → uid < next

/-- The generation a reload has read is one the set has reached. -/
def Reload.ReadUpTo (generation : ℕ) (pc : Reload) : Prop :=
  ∀ g, pc.generation = some g → g ≤ generation

/-- A listing whose generation is current was read after every add, so it covers what the set has
to. -/
def ListedAfterAdds (s : State) (r : ℕ) (pc : Reload) : Prop :=
  ∀ caller epoch tenants, pc = .replacing caller epoch s.held.generation tenants →
    (∀ d tenant, .added d tenant ∉ since (Event.isListed r) s.history) ∧ Covers s (· ∈ tenants)

/-- The invariant behind the adds. -/
structure Kept (s : State) : Prop where
  markers : ∀ m ∈ s.markers, m.uid < s.nextUid
  committed : ∀ d, (s.deliveries d).CommittedBelow s.nextUid
  held : Covers s (· ∈ s.held.tenants)
  read : ∀ r, (s.reloads r).ReadUpTo s.held.generation
  listed : ∀ r, ListedAfterAdds s r (s.reloads r)

variable {d : ℕ} {tenant : String} {pc' : Delivery}

section

variable {s t : State} {P : String → Prop}

/-- No park has added its tenant meanwhile, and no marker of an old park has come back. -/
theorem Covers.frame (h : Covers s P)
    (hparked : ∀ d tenant uid, t.deliveries d = .parked tenant uid →
      s.deliveries d = .parked tenant uid)
    (hmarkers : ∀ d tenant uid, s.deliveries d = .parked tenant uid → ⟨uid, tenant⟩ ∈ t.markers →
      ⟨uid, tenant⟩ ∈ s.markers) : Covers t P := by
  intro d tenant uid hpc hmem
  have hpc₀ := hparked d tenant uid hpc
  exact h d tenant uid hpc₀ (hmarkers d tenant uid hpc₀ hmem)

/-- A marker that is new is not a marker of an old park. -/
theorem Marked.mem_of_parked {markers : VTable String} {next uid : ℕ} (h : Marked s markers next)
    (hs : Kept s) (hpc : s.deliveries d = .parked tenant uid) (hmem : ⟨uid, tenant⟩ ∈ markers) :
    ⟨uid, tenant⟩ ∈ s.markers := by
  -- an identity is never used again, not even for the same tenant
  refine (h.fresh _ hmem).resolve_right fun hle ↦ ?_
  have hlt := hs.committed d tenant uid (by rw [hpc]; rfl)
  exact not_lt.2 hle hlt

/-- A delivery that moves elsewhere parks nothing. -/
theorem parked_of_update {f : ℕ → Delivery} {d' uid : ℕ}
    (hpc' : ∀ tenant uid, pc' ≠ .parked tenant uid)
    (h : update f d pc' d' = .parked tenant uid) : f d' = .parked tenant uid := by
  rcases eq_or_ne d' d with rfl | hne
  · rw [update_self] at h
    exact absurd h (hpc' tenant uid)
  · rwa [update_of_ne hne] at h

/-- An event other than an add puts no add after a listing. -/
theorem not_added_cons {p : Event → Bool} {history : List Event}
    (he : ∀ d tenant, e ≠ .added d tenant) (h : ∀ d tenant, .added d tenant ∉ since p history)
    (d : ℕ) (tenant : String) : .added d tenant ∉ since p (e :: history) := by
  rcases hp : p e with - | -
  · rw [since_cons_of_false hp, mem_cons]
    exact not_or.2 ⟨(he d tenant).symm, h d tenant⟩
  · rw [since_cons_of_true hp]
    exact not_mem_nil

end

variable {held : HeldSet}

/-- A delivery that moves without parking has committed nothing. -/
theorem Moves.committed {pc : Delivery} {new : List Event} (h : Moves held d pc pc' new) :
    pc'.committed = none := by
  cases h with
  | other hborn hborn' hwaiting hcommitted => exact hcommitted
  | _ => rfl

/-- What a move of a delivery notes. -/
theorem Moves.new_eq {pc : Delivery} {new : List Event} (h : Moves held d pc pc' new) :
    new = [] ∨ new = [.foundClosed d] ∨ new = [.proceeded d] := by
  cases h <;> simp

namespace Kept

variable {s : State}

/-- The ledger changes, and perhaps a delivery that does not add. -/
theorem ledger (h : Kept s) {markers : VTable String} {next : ℕ} (hmarked : Marked s markers next)
    {deliveries : ℕ → Delivery}
    (hparked : ∀ d tenant uid, deliveries d = .parked tenant uid →
      s.deliveries d = .parked tenant uid)
    (hcommitted : ∀ d, (deliveries d).CommittedBelow next) :
    Kept { s with markers := markers, nextUid := next, deliveries := deliveries } := by
  have hframe {P : String → Prop} (hP : Covers s P) :
      Covers { s with markers := markers, nextUid := next, deliveries := deliveries } P :=
    hP.frame hparked fun _ _ _ hpc ↦ hmarked.mem_of_parked h hpc
  exact ⟨hmarked.lt_next h.markers, hcommitted, hframe h.held, h.read,
    fun r caller epoch tenants hpc ↦ (h.listed r caller epoch tenants hpc).imp_right hframe⟩

/-- An event that is no add. -/
theorem log (h : Kept s) (he : ∀ d tenant, e ≠ .added d tenant) :
    Kept { s with history := e :: s.history } :=
  ⟨h.markers, h.committed, h.held, h.read, fun r caller epoch tenants hpc ↦
    (h.listed r caller epoch tenants hpc).imp_left (not_added_cons he)⟩

/-- A reload moves without a listing. -/
theorem setReload (h : Kept s) {r : ℕ} {pc' : Reload}
    (hgeneration : pc'.ReadUpTo s.held.generation)
    (hpc' : ∀ caller epoch generation tenants, pc' ≠ .replacing caller epoch generation tenants) :
    Kept { s with reloads := update s.reloads r pc' } := by
  refine ⟨h.markers, h.committed, h.held, ?_, ?_⟩
  · exact (forall_update_iff s.reloads fun _ pc ↦ pc.ReadUpTo s.held.generation).2
      ⟨hgeneration, fun r' _ ↦ h.read r'⟩
  · exact (forall_update_iff s.reloads (ListedAfterAdds s)).2
      ⟨fun _ _ _ hpc ↦ absurd hpc (hpc' _ _ _ _), fun r' _ ↦ h.listed r'⟩

/-- The listing is read: the last add is before it. -/
theorem list (h : Kept s) {r epoch generation : ℕ} {caller : Caller}
    (hpc : s.reloads r = .listing caller epoch generation) :
    Kept { s with
      reloads := update s.reloads r
        (.replacing caller epoch generation (s.markers.map Versioned.val))
      history := .listed r :: s.history } := by
  have hread : generation ≤ s.held.generation := h.read r generation (by rw [hpc]; rfl)
  refine ⟨h.markers, h.committed, h.held, ?_, ?_⟩
  · refine (forall_update_iff s.reloads fun _ pc ↦ pc.ReadUpTo s.held.generation).2
      ⟨fun g hg ↦ ?_, fun r' _ ↦ h.read r'⟩
    rw [← some_inj.1 hg]
    exact hread
  · refine (forall_update_iff s.reloads
      (ListedAfterAdds { s with history := .listed r :: s.history })).2
      ⟨fun caller epoch tenants hpc' ↦ ?_, fun r' _ _ _ _ hpc' ↦ ?_⟩
    · obtain ⟨-, -, -, rfl⟩ := Reload.replacing.inj hpc'
      refine ⟨fun d tenant ↦ ?_, fun d tenant uid _ hmem ↦ mem_map_of_mem hmem⟩
      rw [since_cons_of_true (by simp [Event.isListed])]
      exact not_mem_nil
    · exact (h.listed r' _ _ _ hpc').imp_left (not_added_cons (by simp))

/-- The set changes to one that covers what it has to, without an add. -/
theorem setHeld (h : Kept s) (hcovers : Covers s (· ∈ held.tenants))
    (hgeneration : held.generation = s.held.generation) : Kept { s with held := held } := by
  refine ⟨h.markers, h.committed, hcovers, ?_, ?_⟩
  · rw [hgeneration]
    exact h.read
  · intro r caller epoch tenants hpc
    rw [hgeneration] at hpc
    exact h.listed r caller epoch tenants hpc

/-- The flags are not part of it. -/
theorem setFlags (h : Kept s) (loaded panicked : Bool) :
    Kept { s with loaded := loaded, panicked := panicked } :=
  ⟨h.markers, h.committed, h.held, h.read, h.listed⟩

/-- An add makes every listing so far out of date. -/
theorem add (h : Kept s) {uid : ℕ} (hpc : s.deliveries d = .adding tenant uid) :
    Kept { s with
      held := s.held.add tenant
      deliveries := update s.deliveries d (.parked tenant uid)
      history := .added d tenant :: s.history } := by
  refine ⟨h.markers, ?_, ?_, fun r g hg ↦ Nat.le_succ_of_le (h.read r g hg), ?_⟩
  · refine (forall_update_iff s.deliveries fun _ pc ↦ pc.CommittedBelow s.nextUid).2
      ⟨fun tenant' uid' hc ↦ ?_, fun d' _ ↦ h.committed d'⟩
    exact h.committed d tenant' uid' (by rw [hpc]; exact hc)
  · refine (forall_update_iff s.deliveries fun _ pc ↦ ∀ tenant' uid',
      pc = .parked tenant' uid' → ⟨uid', tenant'⟩ ∈ s.markers →
        tenant' ∈ insert tenant s.held.tenants).2 ⟨fun tenant' uid' hparked _ ↦ ?_, ?_⟩
    · obtain ⟨rfl, -⟩ := Delivery.parked.inj hparked
      exact Finset.mem_insert_self _ _
    · exact fun d' _ tenant' uid' hparked hmem ↦
        Finset.mem_insert_of_mem (h.held d' tenant' uid' hparked hmem)
  · -- whatever generation a reload has read is not the new one
    intro r caller epoch tenants hreload
    have hle := h.read r _ (show (s.reloads r).generation = some (s.held.generation + 1) by
      rw [hreload]
      rfl)
    exact absurd hle (Nat.not_succ_le_self _)

theorem step (h : Kept s) {l : Label} {t : State} (hact : Act s l t) : Kept t := by
  cases hact with
  | ledger hmarked =>
    exact h.ledger hmarked (fun _ _ _ hpc ↦ hpc) fun d tenant uid hc ↦
      lt_of_lt_of_le (h.committed d tenant uid hc) hmarked.next_le
  | @move l d pc pc' new hpc hmove =>
    have hnone := hmove.committed
    have hmoved : Kept { s with deliveries := update s.deliveries d pc' } := by
      refine h.ledger (Marked.refl s) (fun _ _ _ ↦ parked_of_update fun tenant uid hpc' ↦ ?_) ?_
      · rw [hpc'] at hnone
        contradiction
      · exact (forall_update_iff s.deliveries fun _ pc ↦ pc.CommittedBelow s.nextUid).2
          ⟨by simp [Delivery.CommittedBelow, hnone], fun d' _ ↦ h.committed d'⟩
    rcases hmove.new_eq with rfl | rfl | rfl
    · exact hmoved
    · exact hmoved.log (by simp)
    · exact hmoved.log (by simp)
  | @park l d uid tenant marker pc' markers next hpc hpc' hmarked huid =>
    have hcommitted : pc'.committed = some (tenant, uid) := by
      rcases hpc' with rfl | rfl
      all_goals rfl
    refine h.ledger hmarked (fun _ _ _ ↦ parked_of_update ?_) ?_
    · rcases hpc' with rfl | rfl
      all_goals simp
    · refine (forall_update_iff s.deliveries fun _ pc ↦ pc.CommittedBelow next).2
        ⟨fun tenant' uid' hc ↦ ?_,
          fun d' _ _ _ hc ↦ lt_of_lt_of_le (h.committed d' _ _ hc) hmarked.next_le⟩
      obtain ⟨-, rfl⟩ := Prod.mk.inj (some_inj.1 (hcommitted.symm.trans hc))
      exact huid h.markers
  | add hpc => exact h.add hpc
  | reads hgeneration hpc' =>
    exact (h.setReload (fun g hg ↦ le_of_eq (hgeneration g hg)) hpc').setFlags _ _
  | list hpc => exact h.list hpc
  | promote =>
    have hclosed : Kept { s with held := s.held.closeGate } := h.setHeld h.held rfl
    exact (hclosed.setReload (by simp [Reload.ReadUpTo, Reload.generation]) (by simp)).log (by simp)
  | @replace r caller tenants loaded held new hpc hheld =>
    -- the replace was not refused, so the generation of the listing is the current one
    have hcovers := (h.listed r _ _ _ hpc).2
    have hset : Kept { s with held := held } := by
      refine h.setHeld (fun d tenant uid hparked hmem ↦ ?_) ?_
      · have htenants : held.tenants = tenants.toFinset := by
          rcases hheld with ⟨rfl, -⟩ | ⟨rfl, -⟩
          all_goals rfl
        dsimp only
        rw [htenants, List.mem_toFinset]
        exact hcovers d tenant uid hparked hmem
      · rcases hheld with ⟨rfl, -⟩ | ⟨rfl, -⟩
        all_goals rfl
    have hended : Kept { s with
        held := held, loaded := loaded, reloads := update s.reloads r .ended } :=
      (hset.setReload (by simp [Reload.ReadUpTo, Reload.generation]) (by simp)).setFlags loaded
        s.panicked
    rcases hheld with ⟨-, -, rfl⟩ | ⟨-, -, rfl⟩
    · exact hended
    · exact hended.log (by simp)
  | panic hclosed hfired => exact h.setFlags _ _

end Kept

/-! ### Epochs and channels -/

/-- A delivery that waits found the present gate closed, or the gate was opened since. -/
def Waits (s : State) (d : ℕ) (pc : Delivery) : Prop :=
  ∀ tenant opened, pc = .waiting tenant opened →
    (∃ r, .gateOpened r ∈ since (Event.isFound d) s.history) ∨
      (s.held.closed = true ∧ opened = s.held.opened)

/-- The invariant behind the gate. -/
structure Gated (s : State) : Prop where
  epochs : ∀ epoch, .gateClosed epoch ∈ s.history → epoch ≤ s.held.epoch
  /-- The channel of a closed gate is not closed. -/
  channel : s.held.closed = true → s.held.opened ∉ s.held.fired
  fired : ∀ opened ∈ s.held.fired, opened ≤ s.held.opened
  unborn : ∀ d, s.deliveries d = .unborn → .foundClosed d ∉ s.history
  waiting : ∀ d, Waits s d (s.deliveries d)
  /-- No channel has been closed twice. -/
  sound : s.panicked = false

namespace Gated

variable {s : State}

/-- The gate changes, with an event that is not a delivery's. The channel a delivery waits on stays
the one of the closed gate, or the event is the gate's opening. -/
theorem setHeld (h : Gated s) (hfound : ∀ d, e ≠ .foundClosed d)
    (hepoch : s.held.epoch ≤ held.epoch)
    (hclosed : ∀ epoch, e = .gateClosed epoch → epoch ≤ held.epoch)
    (hchannel : held.closed = true → held.opened ∉ held.fired)
    (hfired : ∀ opened ∈ held.fired, opened ≤ held.opened)
    (hwaiting : (∃ r, e = .gateOpened r) ∨
      (s.held.closed = true → held.closed = true ∧ held.opened = s.held.opened)) :
    Gated { s with held := held, history := e :: s.history } := by
  refine ⟨fun epoch hmem ↦ ?_, hchannel, hfired, fun d hpc hmem ↦ ?_, fun d tenant opened hpc ↦ ?_,
    h.sound⟩
  · rcases mem_cons.1 hmem with heq | hmem
    · exact hclosed epoch heq.symm
    · exact le_trans (h.epochs epoch hmem) hepoch
  · exact h.unborn d hpc ((mem_cons.1 hmem).resolve_left (hfound d).symm)
  · have hother := Event.isFound_eq_false hfound d
    rcases h.waiting d tenant opened hpc with ⟨r, hr⟩ | ⟨hshut, rfl⟩
    · exact .inl ⟨r, mem_since_cons hother hr⟩
    rcases hwaiting with ⟨r, rfl⟩ | hsame
    · refine .inl ⟨r, ?_⟩
      exact mem_cons_self
    · obtain ⟨hshut', hopened⟩ := hsame hshut
      exact .inr ⟨hshut', hopened.symm⟩

/-- An event that is neither a closing of the gate nor a delivery's finding it closed. -/
theorem log (h : Gated s) (hclosed : ∀ epoch, e ≠ .gateClosed epoch)
    (hfound : ∀ d, e ≠ .foundClosed d) : Gated { s with history := e :: s.history } :=
  h.setHeld hfound (le_refl _) (fun epoch he ↦ absurd he (hclosed epoch)) h.channel h.fired
    (.inr fun hshut ↦ ⟨hshut, rfl⟩)

/-- A delivery moves on; it does not wait now. -/
theorem setDelivery (h : Gated s) (hborn : pc' ≠ .unborn)
    (hwaiting : ∀ tenant opened, pc' ≠ .waiting tenant opened) :
    Gated { s with deliveries := update s.deliveries d pc' } := by
  refine ⟨h.epochs, h.channel, h.fired, ?_, ?_, h.sound⟩
  · exact (forall_update_iff s.deliveries fun d pc ↦ pc = .unborn →
      .foundClosed d ∉ s.history).2 ⟨fun hpc ↦ absurd hpc hborn, fun d' _ ↦ h.unborn d'⟩
  · exact (forall_update_iff s.deliveries (Waits s)).2
      ⟨fun _ _ hpc ↦ absurd hpc (hwaiting _ _), fun d' _ ↦ h.waiting d'⟩

/-- A delivery finds the gate closed. -/
theorem found (h : Gated s) (tenant : String) (hclosed : s.held.closed = true) :
    Gated { s with
      deliveries := update s.deliveries d (.waiting tenant s.held.opened)
      history := .foundClosed d :: s.history } := by
  refine ⟨fun epoch hmem ↦ ?_, h.channel, h.fired, ?_, ?_, h.sound⟩
  · exact h.epochs epoch ((mem_cons.1 hmem).resolve_left (by simp))
  · refine (forall_update_iff s.deliveries fun d' pc ↦ pc = .unborn →
      .foundClosed d' ∉ .foundClosed d :: s.history).2 ⟨?_, fun d' hne hpc hmem ↦ ?_⟩
    · simp
    · exact h.unborn d' hpc ((mem_cons.1 hmem).resolve_left (by simpa using hne))
  · refine (forall_update_iff s.deliveries
      (Waits { s with history := .foundClosed d :: s.history })).2
      ⟨fun tenant' opened hpc ↦ ?_, fun d' hne tenant' opened hpc ↦ ?_⟩
    · obtain ⟨-, rfl⟩ := Delivery.waiting.inj hpc
      exact .inr ⟨hclosed, rfl⟩
    · have hother : Event.isFound d' (.foundClosed d) = false := by
        simpa [Event.isFound] using hne.symm
      exact (h.waiting d' tenant' opened hpc).imp_left fun ⟨r, hr⟩ ↦ ⟨r, mem_since_cons hother hr⟩

/-- A promotion. A gate that is already closed keeps its channel. -/
theorem closeGate (h : Gated s) :
    Gated { s with
      held := s.held.closeGate, history := .gateClosed s.held.closeGate.epoch :: s.history } := by
  -- channels are numbered in order, so the next one has not been closed
  have hstale : s.held.opened + 1 ∉ s.held.fired := fun hmem ↦
    Nat.not_succ_le_self _ (h.fired _ hmem)
  refine h.setHeld (by simp) (Nat.le_succ _) (fun epoch heq ↦ ?_) (fun _ ↦ ?_)
    (fun opened hmem ↦ ?_) (.inr fun hclosed ↦ ⟨rfl, if_pos hclosed⟩)
  · rw [Event.gateClosed.inj heq]
  · rcases hclosed : s.held.closed with - | -
    · simpa [HeldSet.closeGate, hclosed] using hstale
    · simpa [HeldSet.closeGate, hclosed] using h.channel hclosed
  · have hle := h.fired opened hmem
    rcases hclosed : s.held.closed with - | -
    · simpa [HeldSet.closeGate, hclosed] using Nat.le_succ_of_le hle
    · simpa [HeldSet.closeGate, hclosed] using hle

/-- A replace opens the gate. -/
theorem openGate (h : Gated s) (r : ℕ) (tenants : Finset String) :
    Gated { s with
      held := { s.held with
        tenants := tenants, closed := false, fired := s.held.opened :: s.held.fired }
      history := .gateOpened r :: s.history } := by
  refine h.setHeld (by simp) (le_refl _) (by simp) (by simp) (fun opened hmem ↦ ?_)
    (.inl ⟨r, rfl⟩)
  rcases mem_cons.1 hmem with rfl | hmem
  · exact le_refl _
  · exact h.fired opened hmem

/-- The rest of the state is not part of it. -/
theorem others (h : Gated s) {tenants : Finset String} {generation : ℕ} {markers : VTable String}
    {next : ℕ} {loaded : Bool} {reloads : ℕ → Reload} :
    Gated { s with
      held := { s.held with tenants := tenants, generation := generation }
      markers := markers, nextUid := next, loaded := loaded, reloads := reloads } :=
  ⟨h.epochs, h.channel, h.fired, h.unborn, h.waiting, h.sound⟩

theorem step (h : Gated s) {l : Label} {t : State} (hact : Act s l t) : Gated t := by
  cases hact with
  | ledger hmarked => exact h.others
  | move hpc hmove =>
    cases hmove with
    | found tenant hclosed => exact h.found tenant hclosed
    | enter tenant | wake hfired =>
        exact (h.setDelivery (by simp) (by simp)).log (by simp) (by simp)
    | other hborn hborn' hwaiting hcommitted => exact h.setDelivery hborn' hwaiting
  | @park l d uid tenant marker pc' markers next hpc hpc' hmarked huid =>
    have hmoved : Gated { s with deliveries := update s.deliveries d pc' } := by
      rcases hpc' with rfl | rfl
      all_goals exact h.setDelivery (by simp) (by simp)
    exact hmoved.others
  | @add l d uid tenant hpc =>
    have hmoved : Gated { s with
        deliveries := update s.deliveries d (.parked tenant uid)
        history := .added d tenant :: s.history } :=
      (h.setDelivery (by simp) (by simp)).log (by simp) (by simp)
    exact hmoved.others
  | reads hgeneration hpc' => exact h.others
  | @list l r epoch generation caller hpc =>
    have hlisted : Gated { s with history := .listed r :: s.history } := h.log (by simp) (by simp)
    exact hlisted.others
  | promote => exact h.closeGate.others
  | @replace r caller tenants loaded held new hpc hheld =>
    rcases hheld with ⟨rfl, -, rfl⟩ | ⟨rfl, -, rfl⟩
    · exact h.others
    · exact (h.openGate r tenants.toFinset).others
  | panic hclosed hfired => exact absurd hfired (h.channel hclosed)

end Gated

/-! ### The protocol -/

/-- Both hold along every run, together. -/
theorem kept_and_gated_of_reachable {s : State} (hs : runnerSystem.Reachable s) :
    Kept s ∧ Gated s := by
  refine hs.invariant (P := fun s ↦ Kept s ∧ Gated s) ?_ fun s l t _ _ h hstep ↦ ?_
  · rintro s ⟨markers, next, hlt, rfl⟩
    have hreload : ∀ r pc, update (fun _ ↦ Reload.unborn) 0 (.entering .startup) r = pc →
        pc = .unborn ∨ pc = .entering .startup := by
      intro r pc hpc
      rcases eq_or_ne r 0 with rfl | hne
      · exact .inr (hpc.symm.trans (update_self ..))
      · exact .inl (hpc.symm.trans (update_of_ne hne ..))
    refine ⟨⟨hlt, by simp [Delivery.CommittedBelow, Delivery.committed], by simp [Covers],
      fun r g hg ↦ ?_, ?_⟩, ⟨by simp, by simp, by simp, by simp, by simp [Waits], rfl⟩⟩
    · rcases hreload r _ rfl with hpc | hpc <;> simp [hpc, Reload.generation] at hg
    · intro r caller epoch tenants hpc
      rcases hreload r _ hpc with h | h <;> simp at h
  · exact ⟨h.1.step (step_act hstep), h.2.step (step_act hstep)⟩

section

variable {s t : State} {l : Label}

/-- Only a replace takes a tenant out. -/
theorem Act.erased (h : Act s l t) (hmem : tenant ∈ s.held.tenants)
    (hgone : tenant ∉ t.held.tenants) :
    ∃ r caller tenants, l = .replace r ∧
      s.reloads r = .replacing caller s.held.epoch s.held.generation tenants := by
  cases h with
  | replace hpc hheld => exact ⟨_, _, _, rfl, hpc⟩
  | add hpc => exact absurd (Finset.mem_insert_of_mem hmem) hgone
  | ledger | move | park | reads | list | promote | panic => exact absurd hmem hgone

/-- Only a replace opens the gate. -/
theorem Act.opened (h : Act s l t) (hclosed : s.held.closed = true)
    (hopen : t.held.closed = false) :
    ∃ r caller tenants, l = .replace r ∧
      s.reloads r = .replacing caller s.held.epoch s.held.generation tenants := by
  cases h with
  | replace hpc hheld => exact ⟨_, _, _, rfl, hpc⟩
  | promote => contradiction
  | ledger | move | park | add | reads | list | panic =>
    exact absurd (hopen.symm.trans hclosed) false_ne_true

/-- A delivery gets past the gate as it arrives, or once the channel it waits on is closed. -/
theorem Act.proceeded (h : Act s l t) (hhistory : t.history = .proceeded d :: s.history) :
    s.deliveries d = .unborn ∨
      ∃ tenant opened, s.deliveries d = .waiting tenant opened ∧ opened ∈ s.held.fired := by
  cases h with
  | @move l d' pc pc' new hpc hmove =>
    obtain rfl : new = [.proceeded d] :=
      append_cancel_right (hhistory : _ = [.proceeded d] ++ s.history)
    cases hmove with
    | enter tenant => exact .inl hpc
    | wake hfired => exact .inr ⟨_, _, hpc, hfired⟩
  | replace hpc hheld =>
    rcases hheld with ⟨-, -, rfl⟩ | ⟨-, -, rfl⟩ <;> simp at hhistory
  | ledger | park | reads | panic => exact absurd hhistory.symm (cons_ne_self _ _)
  | add | list | promote => simp at hhistory

end

/-- In any interleaving of deliveries, parks, reloads, promotions and what other replicas do to the
ledger: a tenant this runner parked, whose marker is still in the ledger, is in the held set unless
its park is between commit and add; a step takes a tenant out of the set only by a listing that was
read after every add of it; it opens the gate only for a reload whose epoch is no older than any
promotion's; and it lets a delivery that found the gate closed go on only if a replace has opened
the gate since. -/
theorem held_set_gate {s t : State} {l : Label} (hs : runnerSystem.Reachable s)
    (hstep : s.step l = some t) :
    (∀ d tenant uid, (s.deliveries d).committed = some (tenant, uid) → ⟨uid, tenant⟩ ∈ s.markers →
      tenant ∈ s.held.tenants ∨ (s.deliveries d).betweenCommitAndAdd = true) ∧
    (∀ tenant ∈ s.held.tenants, tenant ∉ t.held.tenants →
      ∃ r, l = .replace r ∧ ∀ d, .added d tenant ∉ since (Event.isListed r) s.history) ∧
    (s.held.closed = true → t.held.closed = false →
      ∃ r epoch, l = .replace r ∧ (s.reloads r).epoch = some epoch ∧
        ∀ e, .gateClosed e ∈ s.history → e ≤ epoch) ∧
    ∀ d, t.history = .proceeded d :: s.history → .foundClosed d ∈ s.history →
      ∃ r, .gateOpened r ∈ since (Event.isFound d) s.history := by
  obtain ⟨hkept, hgated⟩ := kept_and_gated_of_reachable hs
  have hact := step_act hstep
  refine ⟨fun d tenant uid hc hmem ↦ ?_, fun tenant hmem hgone ↦ ?_, fun hclosed hopen ↦ ?_,
    fun d hhistory hfound ↦ ?_⟩
  · exact (Delivery.parked_or_between hc).imp_left fun hpc ↦ hkept.held d tenant uid hpc hmem
  · obtain ⟨r, caller, tenants, rfl, hpc⟩ := hact.erased hmem hgone
    exact ⟨r, rfl, fun d ↦ (hkept.listed r _ _ _ hpc).1 d tenant⟩
  · obtain ⟨r, caller, tenants, rfl, hpc⟩ := hact.opened hclosed hopen
    exact ⟨r, s.held.epoch, rfl, by rw [hpc]; rfl, hgated.epochs⟩
  · rcases hact.proceeded hhistory with hpc | ⟨tenant, opened, hpc, hfired⟩
    · exact absurd hfound (hgated.unborn d hpc)
    · rcases hgated.waiting d tenant opened hpc with hopened | ⟨hclosed, rfl⟩
      · exact hopened
      · -- it waits on the channel of the present closing, which nobody has closed
        exact absurd hfired (hgated.channel hclosed)

/-- A promotion between a park and the next drain: the set keeps the parked tenant, the promotion's
own reload opens the gate for the delivery that found it closed, and the tenant leaves the set with
a listing read after its release. -/
theorem held_set_gate_across_promotion :
    ∃ s₁ t₁ t₂ s₃ t₃ : State, runnerSystem.Reachable s₁ ∧ s₁.step (.replace 1) = some t₁ ∧
      t₁.step (.wake 1) = some t₂ ∧ runnerSystem.Reachable s₃ ∧ s₃.step (.replace 2) = some t₃ ∧
      (s₁.deliveries 0 = .parked "x" 0 ∧ ⟨0, "x"⟩ ∈ s₁.markers ∧ "x" ∈ s₁.held.tenants) ∧
      (s₁.held.closed = true ∧ t₁.held.closed = false ∧
        ∃ epoch, (s₁.reloads 1).epoch = some epoch ∧ 1 ≤ epoch) ∧
      (t₂.history = .proceeded 1 :: t₁.history ∧
        ∃ r, .gateOpened r ∈ since (Event.isFound 1) t₁.history) ∧
      "x" ∈ s₃.held.tenants ∧ "x" ∉ t₃.held.tenants ∧
        ∀ d, .added d "x" ∉ since (Event.isListed 2) s₃.history := by
  obtain ⟨s₁, t₁, t₂, s₃, t₃, hrun₁, ht₁, ht₂, hrun₃, ht₃, hpc, hmarker, hclosed, hopen, hpromoted,
      hwoken, hfound, hmem, hgone⟩ : ∃ s₁ t₁ t₂ s₃ t₃,
      runnerSystem.run {} [.epochAt 0, .generationAt 0, .heldTenants 0 true, .replace 0,
        .deliver 0 "x", .attempt 0 false, .handled 0 .failed, .park 0 .done, .add 0,
        .promote 1, .deliver 1 "y", .generationAt 1, .heldTenants 1 true] = some s₁ ∧
      s₁.step (.replace 1) = some t₁ ∧ t₁.step (.wake 1) = some t₂ ∧
      runnerSystem.run t₂ [.release "x", .reload 2, .epochAt 2, .generationAt 2,
        .heldTenants 2 true] = some s₃ ∧
      s₃.step (.replace 2) = some t₃ ∧
      s₁.deliveries 0 = .parked "x" 0 ∧ ⟨0, "x"⟩ ∈ s₁.markers ∧ s₁.held.closed = true ∧
      t₁.held.closed = false ∧ .gateClosed 1 ∈ s₁.history ∧
      t₂.history = .proceeded 1 :: t₁.history ∧ .foundClosed 1 ∈ t₁.history ∧
      "x" ∈ s₃.held.tenants ∧ "x" ∉ t₃.held.tenants :=
    ⟨_, _, _, _, _, rfl, rfl, rfl, rfl, rfl, rfl, by decide, rfl, rfl, by decide, rfl, by decide,
      by decide, by decide⟩
  have hs₁ : runnerSystem.Reachable s₁ :=
    StepSystem.reach_of_run (.init ⟨[], 0, by simp, rfl⟩) hrun₁
  have hreach₁ : runnerSystem.Reachable t₁ := hs₁.next (l := .replace 1) ht₁
  have hreach₂ : runnerSystem.Reachable t₂ := hreach₁.next (l := .wake 1) ht₂
  have hs₃ : runnerSystem.Reachable s₃ := StepSystem.reach_of_run hreach₂ hrun₃
  obtain ⟨hheld, -, hopened, -⟩ := held_set_gate hs₁ ht₁
  obtain ⟨r, epoch, hlabel, hepoch, hlatest⟩ := hopened hclosed hopen
  cases hlabel
  obtain ⟨-, -, -, hproceeds⟩ := held_set_gate hreach₁ ht₂
  obtain ⟨-, herased, -, -⟩ := held_set_gate hs₃ ht₃
  obtain ⟨r, hlabel, hadds⟩ := herased _ hmem hgone
  cases hlabel
  have hx : "x" ∈ s₁.held.tenants := by
    refine (hheld 0 "x" 0 (by rw [hpc]; rfl) hmarker).resolve_right ?_
    rw [hpc]
    exact false_ne_true
  exact ⟨s₁, t₁, t₂, s₃, t₃, hs₁, ht₁, ht₂, hs₃, ht₃, ⟨hpc, hmarker, hx⟩,
    ⟨hclosed, hopen, epoch, hepoch, hlatest 1 hpromoted⟩, ⟨hwoken, hproceeds 1 hwoken hfound⟩, hmem,
    hgone, hadds⟩

end Streams
