import GoBricks.ResourcePool.Shape

/-!
# Leases: every value is closed once, and under no borrower

For each create the books hold what is known of it in a state: the create itself, its entry, the
callers waiting on it, those that took its entry and have not claimed their seed, those that hold a
lease, and how often its value was handed to a Closer. `Account` says how these balance in each
stage of its life. The equation that carries everything is that of a live entry:

* `seeds` is the number of callers that joined and have not claimed, and
* `refs` is `seeds` plus the number of leases handed out and not released.

So "no lease outstanding" is `refs ≤ 0` on five of the six close paths, and `refs - seeds ≤ 0` on
the sixth, where `Close` takes an entry away from callers that have not claimed it yet.
-/

namespace ResourcePool

open List Function Bool

variable {V E : Type*}

/-- Waiting for create `c`. -/
@[simp] def Caller.isJoined (c : ℕ) : Caller E → Bool
  | .joined d => d = c
  | _ => false

/-- About to claim a seed of entry `i`. -/
@[simp] def Caller.isAwaited (i : ℕ) : Caller E → Bool
  | .awaited d => d = i
  | _ => false

/-- Holding a lease on entry `i`. -/
@[simp] def Caller.isLeased (i : ℕ) : Caller E → Bool
  | .leased d => d = i
  | _ => false

/-- What is known of one create in a state. -/
@[ext] structure Books (V E : Type*) where
  create : Option (PendingCreate E)
  entry : Option (Entry V)
  joined : ℕ
  awaited : ℕ
  leased : ℕ
  closes : ℕ
  /-- The create returned a value. -/
  created : Bool

/-- The books balance. -/
inductive Account (b : Books V E) : Prop
  | absent : b.create = none → b.entry = none → b.joined = 0 → b.awaited = 0 → b.leased = 0 →
    b.closes = 0 → b.created = false → Account b
  | running {r : PendingCreate E} : b.create = some r → r.settled = false → b.entry = none →
    r.waiters = b.joined → b.awaited = 0 → b.leased = 0 → b.closes = 0 → b.created = false →
    Account b
  /-- No entry was made; a value, if there was one, was closed at once. -/
  | failed {r : PendingCreate E} : b.create = some r → r.settled = true → b.entry = none →
    b.awaited = 0 → b.leased = 0 → b.closes = b.created.toNat → Account b
  /-- An open entry; out of the map, it is leased. -/
  | live {r : PendingCreate E} {e : Entry V} : b.create = some r → r.settled = true →
    b.entry = some e → e.closed = false → e.seeds = b.joined + b.awaited →
    e.refs = e.seeds + b.leased → (e.detached = true → 0 < e.refs) → b.closes = 0 →
    b.created = true → Account b
  | closed {r : PendingCreate E} {e : Entry V} : b.create = some r → r.settled = true →
    b.entry = some e → e.closed = true → b.leased = 0 → b.closes = 1 → b.created = true → Account b

/-- The books of create `c`. -/
def books (p : Pool V E) (callers : List (Caller E)) (closes : ℕ → ℕ) (h : List Event) (c : ℕ) :
    Books V E where
  create := p.creates[c]?
  entry := p.heap c
  joined := callers.countP (Caller.isJoined c)
  awaited := callers.countP (Caller.isAwaited c)
  leased := callers.countP (Caller.isLeased c)
  closes := closes c
  created := decide (.created c ∈ h)

/-- Every account balances. -/
def Balanced (p : Pool V E) (callers : List (Caller E)) (closes : ℕ → ℕ) (h : List Event) : Prop :=
  ∀ c, Account (books p callers closes h c)

variable {p q : Pool V E} {callers callers' : List (Caller E)} {closes closes' : ℕ → ℕ}
  {h h' : List Event}

/-- A step that touches the books of one create only. -/
theorem Balanced.update (hb : Balanced p callers closes h) (c : ℕ)
    (hother : ∀ d, d ≠ c → books q callers' closes' h' d = books p callers closes h d)
    (hself : Account (books q callers' closes' h' c)) : Balanced q callers' closes' h' := by
  intro d
  by_cases hd : d = c
  · exact hd ▸ hself
  · rw [hother d hd]
    exact hb d

/-- A step that touches no books. -/
theorem Balanced.congr (hb : Balanced p callers closes h)
    (hsame : ∀ d, books q callers' closes' h' d = books p callers closes h d) :
    Balanced q callers' closes' h' := by
  intro d
  rw [hsame d]
  exact hb d

/-- A live entry, with its equation. -/
theorem Balanced.live (hb : Balanced p callers closes h) {i : ℕ} {e : Entry V}
    (he : p.heap i = some e) (hopen : e.closed = false) :
    ∃ pc, p.creates[i]? = some pc ∧ pc.settled = true ∧
      e.seeds = callers.countP (Caller.isJoined i) + callers.countP (Caller.isAwaited i) ∧
      e.refs = e.seeds + callers.countP (Caller.isLeased i) ∧
      (e.detached = true → 0 < e.refs) ∧ closes i = 0 ∧ .created i ∈ h := by
  cases hb i with
  | absent _ hnone | running _ _ hnone | failed _ _ hnone => cases he.symm.trans hnone
  | live hpc hset hentry _ hseeds hrefs hdet hcl hcr =>
    cases hentry.symm.trans he
    exact ⟨_, hpc, hset, hseeds, hrefs, hdet, hcl, of_decide_eq_true hcr⟩
  | closed _ _ hentry hclosed =>
    cases hentry.symm.trans he
    cases hopen.symm.trans hclosed

/-- The running create, with its equation. -/
theorem Balanced.running (hb : Balanced p callers closes h) {c : ℕ} {pc : PendingCreate E}
    (hc : p.creates[c]? = some pc) (hset : pc.settled = false) :
    p.heap c = none ∧ pc.waiters = callers.countP (Caller.isJoined c) ∧
      callers.countP (Caller.isAwaited c) = 0 ∧ callers.countP (Caller.isLeased c) = 0 ∧
      closes c = 0 ∧ .created c ∉ h := by
  cases hb c with
  | absent hnone => cases hc.symm.trans hnone
  | running hpc _ hentry hw ha hl hcl hcr =>
    cases hc.symm.trans hpc
    exact ⟨hentry, hw, ha, hl, hcl, of_decide_eq_false hcr⟩
  | failed hpc hs | live hpc hs | closed hpc hs =>
    cases hc.symm.trans hpc
    cases hset.symm.trans hs

/-! ### Sweeps -/

/-- Taking a cached entry out of the map. Still leased, it stays open; closing it is one close more,
and no borrower may hold it. -/
theorem Balanced.detach (hb : Balanced p callers closes h) (hl : p.Linked) {key : String} {i : ℕ}
    {e : Entry V} (hi : p.entries.lookup key = some i) (he : p.heap i = some e)
    (hcreates : q.creates = p.creates) (hother : ∀ d, d ≠ i → q.heap d = p.heap d)
    (hself : q.heap i = some { e with detached := true } ∧ closes' i = closes i ∧
        (0 < e.refs ∨ 0 < e.liveLeases) ∨
      q.heap i = some { e with detached := true, closed := true } ∧ closes' i = closes i + 1 ∧
        (e.refs ≤ 0 ∨ e.liveLeases ≤ 0))
    (hcloses : ∀ d, d ≠ i → closes' d = closes d) : Balanced q callers closes' h := by
  obtain ⟨e', -, he', -, -, -, -, hopen⟩ := hl.cached hi
  cases he.symm.trans he'
  obtain ⟨pc, hpc, hset, hseeds, hrefs, -, hcl, hcr⟩ := hb.live he hopen
  rw [Entry.liveLeases] at hself
  refine hb.update i (fun d hd ↦ ?_) ?_
  · rw [books, books, hcreates, hother d hd, hcloses d hd]
  · have hpc' : q.creates[i]? = some pc := hcreates ▸ hpc
    obtain ⟨hheap, hclose, hlease⟩ | ⟨hheap, hclose, hfree⟩ := hself
    · exact .live hpc' hset hheap hopen hseeds hrefs (fun _ ↦ show 0 < e.refs by omega)
        (hclose.trans hcl) (decide_eq_true hcr)
    · have hnone : callers.countP (Caller.isLeased i) = 0 := by omega
      exact .closed hpc' hset hheap rfl hnone (hclose.trans (congrArg (· + 1) hcl))
        (decide_eq_true hcr)

/-- Sweeping the map keeps the books, with one close for every value closed. -/
theorem Balanced.sweep (hb : Balanced p callers closes h) (hl : p.Linked) {cl : List ℕ}
    (hs : Pool.Sweep p q cl) : Balanced q callers (fun j ↦ closes j + cl.count j) h := by
  induction hs with
  | refl => exact hb
  | stats _ _ _ _ _ _ ih => exact ih
  | @keep q cl key i e hs hi he hlease ih =>
    exact ih.detach (hs.linked hl) hi he (Pool.Sweep.refl.same.removeEntryLocked key).creates
      (fun _ ↦ Pool.heap_removeEntryLocked_of_ne hi)
      (.inl ⟨Pool.heap_removeEntryLocked_self hi he, rfl, hlease⟩) fun _ _ ↦ rfl
  | @close q cl key i e hs hi he hfree ih =>
    refine ih.detach (hs.linked hl) hi he (Pool.Sweep.refl.same.removeEntryLocked key).creates
      (fun d hd ↦ ?_) (.inr ⟨?_, ?_, hfree⟩) fun d hd ↦ ?_
    · rw [Pool.heap_markClosed_of_ne hd, Pool.heap_removeEntryLocked_of_ne hi hd]
    · exact Pool.heap_markClosed_self (Pool.heap_removeEntryLocked_self hi he)
    · simp [Nat.add_assoc]
    · simp [Ne.symm hd]

/-! ### Callers -/

section Callers

variable {k c i : ℕ} {pc : PendingCreate E} {x y : Caller E}

/-- A caller that has to do with create `c` only. -/
inductive Caller.Of (c : ℕ) : Caller E → Prop
  | joined : Of c (.joined c)
  | awaited : Of c (.awaited c)
  | leased : Of c (.leased c)
  | failed (err : PoolErr E) : Of c (.failed err)
  | released : Of c .released

/-- A caller that moves between stages of one create touches its books only. -/
theorem Balanced.move (hb : Balanced p callers closes h) (hk : callers[k]? = some y) (hy : y.Of c)
    (hx : x.Of c) (hcreates : ∀ d, d ≠ c → q.creates[d]? = p.creates[d]?)
    (hheap : ∀ d, d ≠ c → q.heap d = p.heap d) (hcl : ∀ d, d ≠ c → closes' d = closes d)
    (hself : Account (books q (callers.set k x) closes' h c)) :
    Balanced q (callers.set k x) closes' h := by
  refine hb.update c (fun d hd ↦ ?_) hself
  have hnone {z : Caller E} (hz : z.Of c) :
      z.isJoined d = false ∧ z.isAwaited d = false ∧ z.isLeased d = false := by
    cases hz <;> simp [Ne.symm hd]
  obtain ⟨hj, ha, hl⟩ := hnone hx
  obtain ⟨hj', ha', hl'⟩ := hnone hy
  rw [books, books, hcreates d hd, hheap d hd, hcl d hd,
    countP_set_of_eq hk (hj.trans hj'.symm), countP_set_of_eq hk (ha.trans ha'.symm),
    countP_set_of_eq hk (hl.trans hl'.symm)]

/-- A caller that gives up is one waiter less. -/
theorem Balanced.giveUp (hb : Balanced p callers closes h) (hk : callers[k]? = some (.joined c))
    (hc : p.creates[c]? = some pc) (hset : pc.settled = false) :
    Balanced (p.giveUp c) (callers.set k (.failed .ctx)) closes h := by
  obtain ⟨hheap, hw, ha, hl, hcl, hcr⟩ := hb.running hc hset
  have hcreates : (p.giveUp c).creates = p.creates.set c { pc with waiters := pc.waiters - 1 } :=
    modify_eq_set_of_getElem? hc _
  have hj := countP_set_add hk (Caller.isJoined c) (.failed .ctx)
  have ha' := countP_set_of_eq (b := .failed .ctx) hk (p := Caller.isAwaited c) rfl
  have hl' := countP_set_of_eq (b := .failed .ctx) hk (p := Caller.isLeased c) rfl
  refine hb.move hk .joined (.failed _) (fun d hd ↦ ?_) (fun _ _ ↦ rfl) (fun _ _ ↦ rfl) ?_
  · rw [hcreates, List.getElem?_set_ne (Ne.symm hd)]
  · refine .running (r := { pc with waiters := pc.waiters - 1 }) ?_ hset hheap ?_ (ha'.trans ha)
      (hl'.trans hl) hcl (decide_eq_false hcr)
    · exact (congrArg (·[c]?) hcreates).trans ((List.getElem?_set_eq_some hc).2 (.inl ⟨rfl, rfl⟩))
    · simp at hj
      simp only [books]
      omega

/-- Taking the error of a create that made no entry. -/
theorem Balanced.awaitErr (hb : Balanced p callers closes h) (hk : callers[k]? = some (.joined c))
    (hc : p.creates[c]? = some pc) (hset : pc.settled = true) (hheap : p.heap c = none)
    (err : PoolErr E) : Balanced p (callers.set k (.failed err)) closes h := by
  have ha' := countP_set_of_eq (b := .failed err) hk (p := Caller.isAwaited c) rfl
  have hl' := countP_set_of_eq (b := .failed err) hk (p := Caller.isLeased c) rfl
  refine hb.move hk .joined (.failed err) (fun _ _ ↦ rfl) (fun _ _ ↦ rfl) (fun _ _ ↦ rfl) ?_
  cases hb c with
  | absent hnone => cases hc.symm.trans hnone
  | running hpc hs =>
    cases hc.symm.trans hpc
    cases hset.symm.trans hs
  | failed hpc hs hentry ha hl hcl =>
    exact .failed hpc hs hentry (ha'.trans ha) (hl'.trans hl) hcl
  | live _ _ hentry | closed _ _ hentry => cases hheap.symm.trans hentry

/-- Taking the entry of a create: one waiter less, one unclaimed seed more. -/
theorem Balanced.await (hb : Balanced p callers closes h) (hk : callers[k]? = some (.joined c))
    {e : Entry V} (hheap : p.heap c = some e) :
    Balanced p (callers.set k (.awaited c)) closes h := by
  have hj := countP_set_add hk (Caller.isJoined c) (.awaited c)
  have ha := countP_set_add hk (Caller.isAwaited c) (.awaited c)
  have hl' := countP_set_of_eq (b := .awaited c) hk (p := Caller.isLeased c) rfl
  simp at hj ha
  refine hb.move hk .joined .awaited (fun _ _ ↦ rfl) (fun _ _ ↦ rfl) (fun _ _ ↦ rfl) ?_
  cases hb c with
  | absent _ hnone | running _ _ hnone | failed _ _ hnone => cases hheap.symm.trans hnone
  | live hpc hs hentry hopen hseeds hrefs hdet hcl hcr =>
    refine .live hpc hs hentry hopen ?_ (hrefs.trans ?_) hdet hcl hcr
    · simp only [books] at hseeds ⊢
      omega
    · simp only [books, hl']
  | closed hpc hs hentry hcl hl hn hcr => exact .closed hpc hs hentry hcl (hl'.trans hl) hn hcr

/-- A caller that holds something of `i` shows in the count. -/
theorem countP_pos_of_getElem? {P : Caller E → Bool} (hk : callers[k]? = some y) (hy : P y = true) :
    0 < callers.countP P :=
  countP_pos_iff.2 ⟨y, mem_of_getElem? hk, hy⟩

/-- Claiming turns a seed into a lease, or finds the entry closed. -/
theorem Balanced.claimSeed (hb : Balanced p callers closes h)
    (hk : callers[k]? = some (.awaited i)) :
    Balanced (p.claimSeed i).1
      (callers.set k (if (p.claimSeed i).2 then .leased i else .failed .poolClosed)) closes h := by
  have hpos := countP_pos_of_getElem? (P := Caller.isAwaited i) hk (by simp)
  cases hb i with
  | absent _ _ _ ha | running _ _ _ _ ha | failed _ _ _ ha => exact absurd ha (Nat.ne_of_gt hpos)
  | @live pc e hpc hs hentry hopen hseeds hrefs hdet hcl hcr =>
    have hclaim :
        p.claimSeed i = (p.updateEntry i fun e ↦ { e with seeds := e.seeds - 1 }, true) := by
      rw [Pool.claimSeed, show p.heap i = some e from hentry]
      simp [hopen]
    have hj := countP_set_add hk (Caller.isJoined i) (.leased i)
    have ha := countP_set_add hk (Caller.isAwaited i) (.leased i)
    have hl := countP_set_add hk (Caller.isLeased i) (.leased i)
    simp at hj ha hl
    rw [hclaim, if_pos rfl]
    refine hb.move hk .awaited .leased (fun _ _ ↦ rfl) (fun d hd ↦ ?_) (fun _ _ ↦ rfl) ?_
    · rw [Pool.heap_updateEntry, if_neg hd]
    · refine .live (r := pc) (e := { e with seeds := e.seeds - 1 }) hpc hs ?_ hopen ?_ ?_ hdet hcl
        hcr
      · show (p.updateEntry i _).heap i = _
        rw [Pool.heap_updateEntry, if_pos rfl, show p.heap i = some e from hentry]
        rfl
      · simp only [books] at hseeds ⊢
        omega
      · simp only [books] at hrefs ⊢
        omega
  | @closed pc e hpc hs hentry hclosed hl hn hcr =>
    have hclaim : p.claimSeed i = (p, false) := by
      rw [Pool.claimSeed, show p.heap i = some e from hentry]
      simp [hclosed]
    rw [hclaim, if_neg (by simp)]
    refine hb.move hk .awaited (.failed _) (fun _ _ ↦ rfl) (fun _ _ ↦ rfl) (fun _ _ ↦ rfl) ?_
    refine .closed hpc hs hentry hclosed ?_ hn hcr
    exact (countP_set_of_eq (b := .failed .poolClosed) hk rfl).trans hl

/-- Releasing drops one lease; the last one of a detached entry closes it. -/
theorem Balanced.release (hb : Balanced p callers closes h) (hk : callers[k]? = some (.leased i)) :
    Balanced (p.releaseEntry i).1 (callers.set k .released)
      (fun j ↦ closes j + ((p.releaseEntry i).2.map Prod.snd).count j) h := by
  have hpos := countP_pos_of_getElem? (P := Caller.isLeased i) hk (by simp)
  cases hb i with
  | absent _ _ _ _ hl | running _ _ _ _ _ hl | failed _ _ _ _ hl | closed _ _ _ _ hl =>
    exact absurd hl (Nat.ne_of_gt hpos)
  | @live pc e hpc hs hentry hopen hseeds hrefs hdet hcl hcr =>
    have hheap : p.heap i = some e := hentry
    have hclose : closes i = 0 := hcl
    have hj := countP_set_add hk (Caller.isJoined i) .released
    have ha := countP_set_add hk (Caller.isAwaited i) .released
    have hl := countP_set_add hk (Caller.isLeased i) .released
    simp at hj ha hl
    simp only [books] at hseeds hrefs
    have hdown : (p.updateEntry i fun e ↦ { e with refs := e.refs - 1 }).heap i =
        some { e with refs := e.refs - 1 } := by
      rw [Pool.heap_updateEntry, if_pos rfl, hheap]
      rfl
    have hother : ∀ d, d ≠ i → (p.updateEntry i fun e ↦ { e with refs := e.refs - 1 }).heap d =
        p.heap d := fun d hd ↦ by rw [Pool.heap_updateEntry, if_neg hd]
    rw [Pool.releaseEntry, hheap]
    simp only
    split
    · next hlast =>
      refine hb.move hk .leased .released (fun _ _ ↦ rfl)
        (fun d hd ↦ (Pool.heap_markClosed_of_ne hd).trans (hother d hd))
        (fun d hd ↦ by simp [Ne.symm hd]) ?_
      refine .closed (r := pc) (e := { e with refs := e.refs - 1, closed := true }) hpc hs
        (Pool.heap_markClosed_self hdown) rfl ?_ (by simp [books, hclose]) hcr
      simp only [books]
      omega
    · next hlast =>
      refine hb.move hk .leased .released (fun _ _ ↦ rfl) hother (fun _ _ ↦ rfl) ?_
      refine .live (r := pc) (e := { e with refs := e.refs - 1 }) hpc hs hdown hopen ?_ ?_
        (fun hd ↦ ?_) hcl hcr
      · simp only [books]
        omega
      · simp only [books]
        omega
      · by_contra hle
        change ¬0 < e.refs - 1 at hle
        exact hlast ⟨hd, by omega, by simp [hopen]⟩

/-- A caller that arrives shows in the books of what it joined or leased only. -/
theorem books_append (d : ℕ) : books p (callers ++ [x]) closes h d =
    { books p callers closes h d with
      joined := callers.countP (Caller.isJoined d) + (Caller.isJoined d x).toNat
      awaited := callers.countP (Caller.isAwaited d) + (Caller.isAwaited d x).toNat
      leased := callers.countP (Caller.isLeased d) + (Caller.isLeased d x).toNat } := by
  have hcount :
      ∀ P : Caller E → Bool, (callers ++ [x]).countP P = callers.countP P + (P x).toNat := by
    intro P
    rw [countP_append, countP_singleton]
    cases P x <;> rfl
  rw [books, hcount, hcount, hcount]
  rfl

/-- A hit: one more lease on a cached entry. -/
theorem Balanced.lease (hb : Balanced p callers closes h) (hl : p.Linked) {key : String}
    (hi : p.entries.lookup key = some i) (now : ℤ)
    (hcreates : q.creates = p.creates) (hheap : q.heap = (p.updateEntry i fun e ↦
      { e with lastUsed := now, refs := e.refs + 1 }).heap) :
    Balanced q (callers ++ [.leased i]) closes (.touched i :: h) := by
  obtain ⟨e, -, he, -, -, -, -, hopen⟩ := hl.cached hi
  obtain ⟨pc, hpc, hs, hseeds, hrefs, hdet, hcl, hcr⟩ := hb.live he hopen
  refine hb.update i (fun d hd ↦ ?_) ?_
  · ext1 <;> try simp [books, hcreates, Ne.symm hd]
    rw [hheap, Pool.heap_updateEntry, if_neg hd]
  · rw [books_append]
    refine .live (r := pc) (e := { e with lastUsed := now, refs := e.refs + 1 }) ?_ hs ?_ hopen ?_
      ?_ (fun hd ↦ ?_) hcl ?_
    · show q.creates[i]? = _
      rw [hcreates]
      exact hpc
    · show q.heap i = _
      rw [hheap, Pool.heap_updateEntry, if_pos rfl, he]
      rfl
    · simpa using hseeds
    · simp only [Caller.isLeased, decide_true, toNat_true]
      omega
    · show 0 < e.refs + 1
      omega
    · simp [books, hcr]

/-- Joining a running create. -/
theorem Balanced.join (hb : Balanced p callers closes h) (hc : p.creates[c]? = some pc)
    (hset : pc.settled = false) :
    Balanced (p.updateCreate c fun pc ↦ { pc with waiters := pc.waiters + 1 })
      (callers ++ [.joined c]) closes h := by
  obtain ⟨hheap, hw, ha, hl, hcl, hcr⟩ := hb.running hc hset
  have hcreates : (p.updateCreate c fun pc ↦ { pc with waiters := pc.waiters + 1 }).creates =
      p.creates.set c { pc with waiters := pc.waiters + 1 } := modify_eq_set_of_getElem? hc _
  refine hb.update c (fun d hd ↦ ?_) ?_
  · ext1 <;> try simp [books, Ne.symm hd]
    · rw [hcreates, List.getElem?_set_ne (Ne.symm hd)]
    · rfl
  · rw [books_append]
    refine .running (r := { pc with waiters := pc.waiters + 1 }) ?_ hset hheap ?_ ?_ ?_ hcl
      (decide_eq_false hcr)
    · show (p.updateCreate c _).creates[c]? = _
      rw [hcreates]
      exact (List.getElem?_set_eq_some hc).2 (Or.inl ⟨rfl, rfl⟩)
    · simp only [Caller.isJoined, decide_true, toNat_true]
      omega
    · simpa using ha
    · simpa using hl

/-- A create begins with nobody on it. -/
theorem Balanced.begin (hb : Balanced p callers closes h) (key : String) :
    Balanced (p.beginCreateLocked key).1 callers closes (.began p.creates.length :: h) := by
  refine hb.update p.creates.length (fun d hd ↦ ?_) ?_
  · ext1 <;> try simp [books]
    · show (p.creates ++ _)[d]? = _
      rw [List.getElem?_append]
      split
      · rfl
      · rw [List.getElem?_eq_none (by simp; omega), List.getElem?_eq_none (by omega)]
    · rfl
  · cases hb p.creates.length with
    | absent _ hentry hj ha hl hcl hcr =>
      refine .running (r := _) List.getElem?_concat_length rfl hentry ?_ ha hl hcl ?_
      · simp only [books] at hj ⊢
        rw [hj]
        rfl
      · simpa [books] using hcr
    | running hpc | failed hpc | live hpc | closed hpc => simp [books] at hpc

/-- A caller leases, joins, or begins a create. -/
theorem Balanced.leaseOrJoin (hb : Balanced p callers closes h) (hp : p.Shape h) (key : String)
    (now : ℤ) : Balanced (p.leaseOrJoin key now).1
      (callers ++ [.ofJoined (p.leaseOrJoin key now).2]) closes
      (Event.ofJoined (p.leaseOrJoin key now).2 ++ h) := by
  unfold Pool.leaseOrJoin
  split
  · exact hb.congr fun d ↦ books_append d
  split
  · next i hi => exact hb.lease hp.linked hi now rfl rfl
  · split
    · next c hpend =>
      obtain ⟨pc, hc, hset, -⟩ := hp.gens.pending hpend
      exact hb.join hc hset
    · exact (hb.begin key).join List.getElem?_concat_length rfl

end Callers

/-! ### Finishing a create -/

section Finish

variable {c : ℕ} {pc : PendingCreate E} {value : V} {now : ℤ}

/-- Finishing `c` touches the books of `c` only. -/
theorem Balanced.finish (hb : Balanced p callers closes h) (hc : p.creates[c]? = some pc)
    {pc' : PendingCreate E} (hcreates : q.creates = p.creates.set c pc')
    (hheap : ∀ d, d ≠ c → q.heap d = p.heap d) (hcl : ∀ d, d ≠ c → closes' d = closes d)
    (hev : ∀ d, d ≠ c → (.created d ∈ h' ↔ .created d ∈ h))
    (hself : q.creates[c]? = some pc' → Account (books q callers closes' h' c)) :
    Balanced q callers closes' h' := by
  refine hb.update c (fun d hd ↦ ?_) (hself ?_)
  · rw [books, books, hcreates, List.getElem?_set_ne (Ne.symm hd), hheap d hd, hcl d hd,
      decide_eq_decide.2 (hev d hd)]
  · rw [hcreates]
    exact (List.getElem?_set_eq_some hc).2 (.inl ⟨rfl, rfl⟩)

/-- A create that ends without a value. -/
theorem Balanced.fail (hb : Balanced p callers closes h) (hc : p.creates[c]? = some pc)
    (hset : pc.settled = false) (err : PoolErr E) :
    Balanced ((p.endCreateLocked pc.key c).updateCreate c fun pc ↦ { pc with err := some err })
      callers closes h := by
  obtain ⟨hheap, -, ha, hl, hcl, hcr⟩ := hb.running hc hset
  refine hb.finish hc (Pool.creates_endCreateLocked_updateCreate hc pc.key _) (fun _ _ ↦ rfl)
    (fun _ _ ↦ rfl) (fun _ _ ↦ .rfl) fun hpc ↦ .failed hpc rfl hheap ha hl ?_
  simp [books, hcl, hcr]

/-- The events an install records. -/
theorem created_mem_install {d : ℕ} (hd : d ≠ c) :
    .created d ∈ (.touched c :: .created c :: h : List Event) ↔ .created d ∈ h := by
  simp [hd]

/-- A value for a closed pool: closed at once. -/
theorem Balanced.orphan (hb : Balanced p callers closes h) (hc : p.creates[c]? = some pc)
    (hset : pc.settled = false) (err : PoolErr E) :
    Balanced ((p.endCreateLocked pc.key c).updateCreate c fun pc ↦ { pc with err := some err })
      callers (fun j ↦ closes j + [c].count j) (.touched c :: .created c :: h) := by
  obtain ⟨hheap, -, ha, hl, hcl, -⟩ := hb.running hc hset
  refine hb.finish hc (Pool.creates_endCreateLocked_updateCreate hc pc.key _) (fun _ _ ↦ rfl)
    (fun d hd ↦ by simp [Ne.symm hd]) (fun _ ↦ created_mem_install) fun hpc ↦
      .failed hpc rfl hheap ha hl ?_
  simp [books, hcl]

/-- A value for an open pool: an entry with one seed for every waiter. It may be detached only if
somebody waits for it. -/
theorem Balanced.allocate (hb : Balanced p callers closes h) (hc : p.creates[c]? = some pc)
    (hset : pc.settled = false) (value : V) (now : ℤ) {detached : Bool}
    (hdet : detached = true → pc.waiters ≠ 0) :
    Balanced ((p.endCreateLocked pc.key c).allocate c pc value now detached) callers closes
      (.touched c :: .created c :: h) := by
  obtain ⟨-, hw, ha, hl, hcl, -⟩ := hb.running hc hset
  refine hb.finish hc (Pool.creates_endCreateLocked_updateCreate hc pc.key _)
    (fun _ hd ↦ update_of_ne hd _ _) (fun _ _ ↦ rfl) (fun _ ↦ created_mem_install)
    fun hpc ↦ .live hpc rfl (e := Pool.newEntry pc value now detached) (update_self _ _ _)
      rfl ?_ ?_ (fun hd ↦ ?_) hcl (by simp [books])
  · simp only [books, Pool.newEntry]
    omega
  · simp only [books, Pool.newEntry]
    omega
  · have := hdet hd
    simp only [Pool.newEntry]
    omega

/-- A value detached at birth with no waiter: closed at once. -/
theorem Balanced.birth (hb : Balanced p callers closes h) (hc : p.creates[c]? = some pc)
    (hset : pc.settled = false) :
    Balanced (((p.endCreateLocked pc.key c).allocate c pc value now true).markClosed c) callers
      (fun j ↦ closes j + [c].count j) (.touched c :: .created c :: h) := by
  obtain ⟨-, -, -, hl, hcl, -⟩ := hb.running hc hset
  refine hb.finish hc (Pool.creates_endCreateLocked_updateCreate hc pc.key _) (fun d hd ↦ ?_)
    (fun d hd ↦ by simp [Ne.symm hd]) (fun _ ↦ created_mem_install) fun hpc ↦
      .closed hpc rfl (Pool.heap_markClosed_self (update_self _ _ _)) rfl hl
        (by simp [books, hcl]) (by simp [books])
  rw [Pool.heap_markClosed_of_ne hd]
  exact update_of_ne hd _ _

/-- Entering the map and the list does not touch the books. -/
theorem Balanced.cache (hb : Balanced p callers closes h) (key : String) (c : ℕ) :
    Balanced (p.cache key c) callers closes h := by
  have hheap (d : ℕ) : (p.cache key c).heap d = if d = c then
      (p.heap d).map fun e ↦ { e with element := some (p.lru.pushFront c).2 } else p.heap d :=
    Pool.heap_updateEntry ..
  refine hb.update c (fun d hd ↦ ?_) ?_
  · rw [books, books, hheap, if_neg hd]
    rfl
  · have hself := (hheap c).trans (if_pos rfl)
    cases hb c with
    | absent hpc hentry hj ha hl hcl hcr =>
      exact .absent hpc (hself.trans (congrArg _ hentry)) hj ha hl hcl hcr
    | running hpc hs hentry hw ha hl hcl hcr =>
      exact .running hpc hs (hself.trans (congrArg _ hentry)) hw ha hl hcl hcr
    | failed hpc hs hentry ha hl hcl =>
      exact .failed hpc hs (hself.trans (congrArg _ hentry)) ha hl hcl
    | live hpc hs hentry hopen hseeds hrefs hdet hcl hcr =>
      exact .live hpc hs (hself.trans (congrArg _ hentry)) hopen hseeds hrefs hdet hcl hcr
    | closed hpc hs hentry hcl hl hn hcr =>
      exact .closed hpc hs (hself.trans (congrArg _ hentry)) hcl hl hn hcr

/-- A create seeds one lease for each waiter. -/
theorem Balanced.installCreated (hb : Balanced p callers closes h) (hp : p.Shape h)
    (hc : p.creates[c]? = some pc) (hset : pc.settled = false) (value : V) (now : ℤ) :
    Balanced (p.installCreated c pc value now).1 callers
      (fun j ↦ closes j + ((p.installCreated c pc value now).2.map Prod.snd).count j)
      (.touched c :: .created c :: h) := by
  rcases Pool.installCreated_cases (p := p) c pc value now with
    ⟨-, heq⟩ | ⟨-, -, -, heq⟩ | ⟨-, -, hw, heq⟩ | ⟨-, -, heq⟩
  · rw [heq]
    exact hb.orphan hc hset .poolClosed
  · rw [heq]
    exact hb.birth hc hset
  · rw [heq]
    exact hb.allocate hc hset value now fun _ ↦ hw
  · have hl := (hp.allocate hc hset value now false).linked
    have hq := hb.allocate hc hset value now (by simp : false = true → pc.waiters ≠ 0)
    rw [heq]
    exact (hq.sweep hl (Pool.sweep_evictIfNeeded hl)).cache pc.key c

end Finish

end ResourcePool
