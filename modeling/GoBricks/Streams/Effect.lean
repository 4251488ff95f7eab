import GoBricks.Streams.HeldSet

/-!
# What one step of a runner can do

The lock sections and ledger calls of the runner's threads, by what they change. Most move one
thread and nothing else; the held set changes only by an add, a promotion and a replace that is not
refused, and **a marker that appears in the ledger is a new one** (`Marked`).
-/

namespace Streams

namespace Delivery

/-- The tenant of a park whose write took effect, with the marker it wrote or found. -/
def committed : Delivery → Option (String × ℕ)
  | .parking tenant (some uid) | .adding tenant uid | .parked tenant uid => some (tenant, uid)
  | _ => none

/-- Between the commit of a park and its add. -/
def betweenCommitAndAdd : Delivery → Bool
  | .parking _ (some _) | .adding _ _ => true
  | _ => false

/-- A delivery with a committed row is parked, or on the way there. -/
theorem parked_or_between {pc : Delivery} {tenant : String} {uid : ℕ}
    (h : pc.committed = some (tenant, uid)) :
    pc = .parked tenant uid ∨ pc.betweenCommitAndAdd = true := by
  cases pc with
  | parking tenant' marker =>
    cases marker with
    | none => contradiction
    | some uid' => exact .inr rfl
  | adding tenant' uid' => exact .inr rfl
  | parked tenant' uid' =>
    cases h
    exact .inl rfl
  | _ => contradiction

end Delivery

namespace Reload

/-- The epoch a reload carries. -/
def epoch : Reload → Option ℕ
  | .top _ epoch | .listing _ epoch _ | .replacing _ epoch _ _ | .refused _ epoch
  | .waiting epoch => some epoch
  | _ => none

/-- The generation a reload has read. -/
def generation : Reload → Option ℕ
  | .listing _ _ generation | .replacing _ _ generation _ => some generation
  | _ => none

end Reload

/-! ### What one step can do -/

/-- How a delivery moves when it neither parks nor adds. -/
inductive Moves (held : HeldSet) (d : ℕ) : Delivery → Delivery → List Event → Prop
  | found (tenant : String) (hclosed : held.closed = true) :
    Moves held d .unborn (.waiting tenant held.opened) [.foundClosed d]
  | enter (tenant : String) : Moves held d .unborn (.proceeding tenant) [.proceeded d]
  | wake {tenant : String} {opened : ℕ} (hfired : opened ∈ held.fired) :
    Moves held d (.waiting tenant opened) (.proceeding tenant) [.proceeded d]
  | other {pc pc' : Delivery} (hborn : pc ≠ .unborn) (hborn' : pc' ≠ .unborn)
    (hwaiting : ∀ tenant opened, pc' ≠ .waiting tenant opened) (hcommitted : pc'.committed = none) :
    Moves held d pc pc' []

/-- How the markers may change: those that appear are new ones. -/
structure Marked (s : State) (markers : VTable String) (next : ℕ) : Prop where
  next_le : s.nextUid ≤ next
  fresh : ∀ m ∈ markers, m ∈ s.markers ∨ s.nextUid ≤ m.uid
  lt_next : (∀ m ∈ s.markers, m.uid < s.nextUid) → ∀ m ∈ markers, m.uid < next

/-- What a step does. -/
inductive Act (s : State) : Label → State → Prop
  | ledger {l : Label} {markers : VTable String} {next : ℕ} (h : Marked s markers next) :
    Act s l { s with markers := markers, nextUid := next }
  | move {l : Label} {d : ℕ} {pc pc' : Delivery} {new : List Event} (hpc : s.deliveries d = pc)
    (h : Moves s.held d pc pc' new) :
    Act s l { s with
      deliveries := Function.update s.deliveries d pc', history := new ++ s.history }
  | park {l : Label} {d uid : ℕ} {tenant : String} {marker : Option ℕ} {pc' : Delivery}
    {markers : VTable String} {next : ℕ} (hpc : s.deliveries d = .parking tenant marker)
    (hpc' : pc' = .parking tenant (some uid) ∨ pc' = .adding tenant uid)
    (h : Marked s markers next)
    (huid : (∀ m ∈ s.markers, m.uid < s.nextUid) → uid < next) :
    Act s l { s with
      markers := markers, nextUid := next, deliveries := Function.update s.deliveries d pc' }
  | add {l : Label} {d uid : ℕ} {tenant : String} (hpc : s.deliveries d = .adding tenant uid) :
    Act s l { s with
      held := s.held.add tenant
      deliveries := Function.update s.deliveries d (.parked tenant uid)
      history := .added d tenant :: s.history }
  /-- A reload moves without a listing or a replace. -/
  | reads {l : Label} {r : ℕ} {pc' : Reload} {loaded : Bool}
    (hgeneration : ∀ g, pc'.generation = some g → g = s.held.generation)
    (hpc' : ∀ caller epoch generation tenants, pc' ≠ .replacing caller epoch generation tenants) :
    Act s l { s with reloads := Function.update s.reloads r pc', loaded := loaded }
  | list {l : Label} {r epoch generation : ℕ} {caller : Caller}
    (hpc : s.reloads r = .listing caller epoch generation) :
    Act s l { s with
      reloads := Function.update s.reloads r
        (.replacing caller epoch generation (s.markers.map Versioned.val))
      history := .listed r :: s.history }
  | promote {l : Label} {r : ℕ} :
    Act s l { s with
      held := s.held.closeGate
      reloads := Function.update s.reloads r (.top .promotion s.held.closeGate.epoch)
      history := .gateClosed s.held.closeGate.epoch :: s.history }
  | replace {r : ℕ} {caller : Caller} {tenants : List String} {loaded : Bool} {held : HeldSet}
    {new : List Event}
    (hpc : s.reloads r = .replacing caller s.held.epoch s.held.generation tenants)
    (hheld : held = { s.held with tenants := tenants.toFinset } ∧ s.held.closed = false ∧ new = [] ∨
      held = { s.held with
        tenants := tenants.toFinset, closed := false, fired := s.held.opened :: s.held.fired } ∧
        s.held.closed = true ∧ new = [.gateOpened r]) :
    Act s (.replace r) { s with
      held := held, loaded := loaded, reloads := Function.update s.reloads r .ended
      history := new ++ s.history }
  | panic {l : Label} (hclosed : s.held.closed = true) (hfired : s.held.opened ∈ s.held.fired) :
    Act s l { s with panicked := true }

theorem Marked.refl (s : State) : Marked s s.markers s.nextUid :=
  ⟨Nat.le_refl _, fun _ hm ↦ .inl hm, id⟩

/-- A release takes markers away only. -/
theorem Marked.release (s : State) (tenant : String) :
    Marked s (s.markers.filter (·.val ≠ tenant)) s.nextUid :=
  ⟨Nat.le_refl _, fun _ hm ↦ .inl (List.mem_filter.1 hm).1,
    fun h _ hm ↦ h _ (List.mem_filter.1 hm).1⟩

/-- The marker of a park is the tenant's present one, or a new one. -/
theorem exists_mark_eq (s : State) (tenant : String) :
    ∃ markers next, (s.mark tenant).1 = { s with markers := markers, nextUid := next } ∧
      Marked s markers next ∧
      ((∀ m ∈ s.markers, m.uid < s.nextUid) → (s.mark tenant).2 < next) := by
  rcases h : s.markers.find? (·.val = tenant) with - | m
  · refine ⟨s.markers ++ [⟨s.nextUid, tenant⟩], s.nextUid + 1, ?_, ⟨Nat.le_succ _, ?_, ?_⟩, ?_⟩
    · simp [State.mark, h]
    · intro m hm
      rcases List.mem_append.1 hm with hm | hm
      · exact .inl hm
      · exact .inr (List.mem_singleton.1 hm ▸ Nat.le_refl _)
    · intro hlt m hm
      rcases List.mem_append.1 hm with hm | hm
      · exact Nat.lt_succ_of_lt (hlt m hm)
      · exact List.mem_singleton.1 hm ▸ Nat.lt_succ_self _
    · simp [State.mark, h]
  · refine ⟨s.markers, s.nextUid, ?_, Marked.refl s, fun hlt ↦ ?_⟩
    · simp [State.mark, h]
    · have hm := hlt m (List.mem_of_find?_eq_some h)
      simpa [State.mark, h] using hm

/-- A reload that failed has nothing to replace. -/
theorem Reload.fail_reads (caller : Caller) (epoch : ℕ) :
    (Reload.fail caller epoch).generation = none ∧
      ∀ c e g ts, Reload.fail caller epoch ≠ .replacing c e g ts := by
  cases caller <;> exact ⟨rfl, by simp [Reload.fail]⟩

/-- A reload moves without having read a generation. -/
theorem act_reads {s : State} {l : Label} {r : ℕ} {pc' : Reload}
    (hgeneration : pc'.generation = none := by rfl)
    (hpc' : ∀ c e g ts, pc' ≠ .replacing c e g ts := by simp) : Act s l (s.setReload r pc') :=
  @Act.reads s l r pc' s.loaded (fun g hg ↦ by simp [hgeneration] at hg) hpc'

/-- A delivery moves, and nothing else. -/
theorem act_move {s : State} {l : Label} {d : ℕ} {pc pc' : Delivery} (hpc : s.deliveries d = pc)
    (hborn : pc ≠ .unborn := by simp) (hborn' : pc' ≠ .unborn := by simp)
    (hwaiting : ∀ tenant opened, pc' ≠ .waiting tenant opened := by simp)
    (hcommitted : pc'.committed = none := by rfl) : Act s l (s.setDelivery d pc') :=
  .move hpc (.other hborn hborn' hwaiting hcommitted)

/-- The replace, when it is not refused. -/
theorem HeldSet.replace_ok {s held : HeldSet} {generation epoch : ℕ} {tenants : List String}
    (h : s.replace generation epoch tenants = .ok (held, true)) :
    (s.generation = generation ∧ s.epoch = epoch) ∧
      (held = { s with tenants := tenants.toFinset } ∧ s.closed = false ∨
        held = { s with
          tenants := tenants.toFinset, closed := false, fired := s.opened :: s.fired } ∧
          s.closed = true) := by
  rw [HeldSet.replace] at h
  split at h
  · simp at h
  · next hcur =>
    refine ⟨by simpa using hcur, ?_⟩
    split at h
    · next hclosed =>
      split at h
      · contradiction
      · exact .inr ⟨(Prod.mk.inj (Except.ok.inj h)).1.symm, hclosed⟩
    · next hclosed =>
      exact .inl ⟨(Prod.mk.inj (Except.ok.inj h)).1.symm, Bool.eq_false_iff.2 hclosed⟩

/-- A replacement panics only on a gate that was opened already. -/
theorem HeldSet.replace_error {s : HeldSet} {generation epoch : ℕ} {tenants : List String}
    {err : String} (h : s.replace generation epoch tenants = .error err) :
    s.closed = true ∧ s.opened ∈ s.fired := by
  rw [HeldSet.replace] at h
  split at h
  · contradiction
  · split at h
    · next hclosed =>
      split at h
      · next hfired => exact ⟨hclosed, hfired⟩
      · contradiction
    · contradiction

/-- A replacement is one of the listed effects. -/
theorem replace_act {s t : State} {r : ℕ} (h : s.replace r = some t) : Act s (.replace r) t := by
  rw [State.replace] at h
  split at h
  · next caller epoch generation tenants hpc =>
    split at h
    · next herr =>
      cases h
      obtain ⟨hclosed, hfired⟩ := HeldSet.replace_error herr
      exact .panic hclosed hfired
    · cases h
      exact act_reads
    · next held hok =>
      dsimp only at h
      obtain ⟨⟨rfl, rfl⟩, ⟨rfl, hclosed⟩ | ⟨rfl, hclosed⟩⟩ := HeldSet.replace_ok hok
      · rw [if_neg (Bool.eq_false_iff.1 hclosed)] at h
        cases h
        exact .replace hpc (.inl ⟨rfl, hclosed, rfl⟩)
      · rw [if_pos hclosed] at h
        cases h
        exact .replace hpc (.inr ⟨rfl, hclosed, rfl⟩)
  · contradiction

/-- So is the commit of a parked row. -/
theorem park_act {s t : State} {l : Label} {d : ℕ} {w : DbWrite} (h : s.park d w = some t) :
    Act s l t := by
  rw [State.park] at h
  split at h
  · next tenant marker hpc =>
    obtain ⟨markers, next, heq, hmarked, huid⟩ := exists_mark_eq s tenant
    cases w with
    | refused =>
      cases h
      exact .ledger (Marked.refl s)
    | done =>
      change some ((s.mark tenant).1.setDelivery d (.adding tenant (s.mark tenant).2)) = some t at h
      rw [heq] at h
      cases h
      exact .park hpc (.inr rfl) hmarked huid
    | unconfirmed =>
      change some ((s.mark tenant).1.setDelivery d (.parking tenant (some (s.mark tenant).2))) =
        some t at h
      rw [heq] at h
      cases h
      exact .park hpc (.inl rfl) hmarked huid
  · contradiction

/-- What a step does. -/
theorem step_act {s t : State} {l : Label} (h : s.step l = some t) : Act s l t := by
  cases l with
  | hold tenant =>
    cases h
    obtain ⟨markers, next, heq, hmarked, -⟩ := exists_mark_eq s tenant
    rw [heq]
    exact .ledger hmarked
  | release tenant =>
    cases h
    exact .ledger (Marked.release s tenant)
  | deliver d tenant =>
    simp only [State.step, State.deliver] at h
    split at h
    · next hpc =>
      split at h
      · contradiction
      · split at h
        · next hclosed =>
          cases h
          exact .move hpc (.found tenant hclosed)
        · cases h
          exact .move hpc (.enter tenant)
    · contradiction
  | wake d =>
    simp only [State.step, State.wake] at h
    split at h
    · next hpc =>
      obtain ⟨hfired, heq⟩ := Option.ite_none_right_eq_some.1 h
      cases heq
      exact .move hpc (.wake hfired)
    · contradiction
  | stop d | attempt d poison | handled d outcome =>
    -- a delivery moves, and nothing else
    simp only [State.step, State.stop, State.attempt, State.handled] at h
    repeat' split at h
    all_goals cases h
    all_goals exact act_move ‹s.deliveries d = _›
  | park d w => exact park_act h
  | add d =>
    simp only [State.step, State.add] at h
    split at h
    · next hpc =>
      cases h
      exact .add hpc
    · contradiction
  | reload r | epochAt r | wait r stopped =>
    simp only [State.step, State.reload, State.epochAt, State.wait] at h
    repeat' split at h
    all_goals cases h
    all_goals exact act_reads
  | promote r =>
    simp only [State.step, State.promote] at h
    split at h
    · obtain ⟨-, heq⟩ := Option.ite_none_left_eq_some.1 h
      cases heq
      exact .promote
    · contradiction
  | generationAt r =>
    simp only [State.step, State.generationAt] at h
    split at h
    · cases h
      exact @Act.reads s _ r _ s.loaded (fun g hg ↦ (Option.some_inj.1 hg).symm) (by simp)
    · contradiction
  | heldTenants r ok =>
    simp only [State.step, State.heldTenants] at h
    split at h
    · next hpc =>
      split at h
      · cases h
        exact .list hpc
      · cases h
        exact act_reads (Reload.fail_reads ..).1 (Reload.fail_reads ..).2
    · contradiction
  | replace r => exact replace_act h
  | recheck r stopped =>
    simp only [State.step, State.recheck] at h
    split at h
    · split at h
      · cases h
        exact .reads (by simp [Reload.generation]) (by simp)
      · cases h
        cases stopped with
        | true => exact act_reads (Reload.fail_reads ..).1 (Reload.fail_reads ..).2
        | false => exact act_reads
    · contradiction

end Streams
