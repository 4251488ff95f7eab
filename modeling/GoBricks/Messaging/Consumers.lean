import GoBricks.Lib.StepSystem
import Mathlib.Data.List.Nodup
import Mathlib.Logic.Function.Basic

/-!
# Consumers of the messaging manager

`EnsureConsumers` sets up the consumers of a key once. Calls for one key that overlap are collapsed
into one **flight**: the first of them leads it with its own declarations, and all of them get its
answer. The setup runs under the manager's lock, creates a client and, stage by stage, a registry; a
stage may fail or panic. `Close` takes the entries out of the map under the lock and closes their
clients after it.

A client is in one place at a time: with a setup, in an entry, with a `Close`, or closed
(`State.Located`).
-/

namespace Consumers

/-- Where a call is. -/
inductive CallPC
  /-- Before the look at what is replayed already. -/
  | fast
  /-- Before `DoChan`. -/
  | ask
  | wait
  | returned (ok : Bool)
  deriving DecidableEq

/-- A call of `EnsureConsumers`. -/
structure Call where
  key : String
  hash : ℕ
  pc : CallPC
  deriving DecidableEq

/-- Where a setup is. -/
inductive Stage
  /-- Before the lock. -/
  | queued
  | creating
  | replaying (client : ℕ)
  | declaring (client : ℕ)
  | starting (client : ℕ)
  /-- The entry is installed; its log line is to be written. -/
  | logging
  | done (ok : Bool)
  deriving DecidableEq

/-- The client that a setup has not handed over. -/
def Stage.client : Stage → Option ℕ
  | .replaying c => some c
  | .declaring c => some c
  | .starting c => some c
  | _ => none

/-- Whether a setup holds the lock. -/
def Stage.running : Stage → Bool
  | .queued => false
  | .done _ => false
  | _ => true

/-- One call of the function that `DoChan` runs, with the calls that wait for it. -/
structure Flight where
  hash : ℕ
  stage : Stage
  waiters : List ℕ
  deriving DecidableEq

/-- Where a call of `Close` is. -/
inductive Closer
  /-- `closed` is set. -/
  | begun
  /-- The clients that it has still to close. -/
  | closing (clients : List ℕ)
  | returned
  deriving DecidableEq

/-- The manager with its setups, calls and clients. -/
structure State where
  closed : Bool := false
  /-- The key of the setup that holds `consMu`. -/
  locked : Option String := none
  /-- The map of entries: a key and its client. -/
  consumers : List (String × ℕ) := []
  replayedHashs : String → Option ℕ := fun _ ↦ none
  flights : String → Option Flight := fun _ ↦ none
  calls : ℕ → Option Call := fun _ ↦ none
  closers : ℕ → Option Closer := fun _ ↦ none
  /-- How many clients were created. -/
  created : ℕ := 0
  /-- How often each of them was closed. -/
  closes : ℕ → ℕ := fun _ ↦ 0
  /-- The setups that were completed, with the hash of their declarations: a history variable. -/
  setups : List (String × ℕ) := []

/-- What comes of `createAMQPClient`. -/
inductive Creation
  | client
  /-- No client: an error, or a panic before there is one. -/
  | none
  /-- The log line panics; the client is closed on the way out. -/
  | abandoned
  deriving DecidableEq

/-- What comes of a stage. -/
inductive Outcome
  | ok
  /-- An error; the rollback closes the client, and may panic after that. -/
  | fails (rollbackPanics : Bool)
  | panics
  deriving DecidableEq

/-- Who moves, and what the environment answers. -/
inductive Label
  /-- `EnsureConsumers`, up to its look at `closed`. -/
  | call (i : ℕ) (key : String) (hash : ℕ)
  /-- `consumersReplayed`, and whether it got the lock. -/
  | fast (i : ℕ) (locked : Bool)
  | ask (i : ℕ)
  /-- The context of the caller ends. -/
  | giveUp (i : ℕ)
  /-- The setup takes the lock and looks at what is there; the log line of a setup that skips may
  panic. -/
  | lock (key : String) (panics : Bool)
  | create (key : String) (c : Creation)
  | work (key : String) (o : Outcome)
  /-- The last log line of a setup. -/
  | log (key : String) (panics : Bool)
  /-- The flight ends. -/
  | deliver (key : String)
  | closeBegin (k : ℕ)
  | drain (k : ℕ)
  | closeNext (k : ℕ)
  | closeReturn (k : ℕ)

/-- Whether a `Close` begins. -/
def Label.closes : Label → Bool
  | .closeBegin _ => true
  | _ => false

variable {c : ℕ}

namespace State

variable (s : State)

/-- The setup of a key is set. -/
def setFlight (key : String) (f : Option Flight) : State :=
  { s with flights := Function.update s.flights key f }

theorem setFlight_self (key : String) (f : Option Flight) : (s.setFlight key f).flights key = f :=
  Function.update_self ..

theorem setFlight_of_ne {key key' : String} (h : key' ≠ key) (f : Option Flight) :
    (s.setFlight key f).flights key' = s.flights key' :=
  Function.update_of_ne h ..

/-- A call is set. -/
def setCall (i : ℕ) (c : Call) : State :=
  { s with calls := Function.update s.calls i (some c) }

theorem setCall_self (i : ℕ) (c : Call) : (s.setCall i c).calls i = some c :=
  Function.update_self ..

theorem setCall_of_ne {i j : ℕ} (h : j ≠ i) (c : Call) : (s.setCall i c).calls j = s.calls j :=
  Function.update_of_ne h ..

/-- A `Close` is set. -/
def setCloser (k : ℕ) (c : Closer) : State :=
  { s with closers := Function.update s.closers k (some c) }

theorem setCloser_self (k : ℕ) (c : Closer) : (s.setCloser k c).closers k = some c :=
  Function.update_self ..

theorem setCloser_of_ne {k k' : ℕ} (h : k' ≠ k) (c : Closer) :
    (s.setCloser k c).closers k' = s.closers k' :=
  Function.update_of_ne h ..

/-- A client is closed. -/
def closeClient (c times : ℕ) : State :=
  { s with closes := Function.update s.closes c (s.closes c + times) }

theorem closeClient_self (c times : ℕ) : (s.closeClient c times).closes c = s.closes c + times :=
  Function.update_self ..

theorem closeClient_zero (c : ℕ) : s.closeClient c 0 = s := by
  rw [closeClient, Nat.add_zero, Function.update_eq_self]

theorem closeClient_of_ne {c' : ℕ} (h : c' ≠ c) (times : ℕ) :
    (s.closeClient c times).closes c' = s.closes c' :=
  Function.update_of_ne h ..

/-- The setup returns. -/
def finish (key : String) (f : Flight) (ok : Bool) : State :=
  { s.setFlight key (some { f with stage := .done ok }) with locked := none }

/-- The checks under the lock. -/
def lockSetup (key : String) (f : Flight) (panics : Bool) : State :=
  if s.closed then s.finish key f false
  else match s.replayedHashs key with
  | some existingHash => s.finish key f (existingHash == f.hash && !panics)
  | none =>
    if (s.consumers.lookup key).isSome then
      { s.finish key f true with
        replayedHashs := Function.update s.replayedHashs key (some f.hash) }
    else { s.setFlight key (some { f with stage := .creating }) with locked := some key }

/-- The first stage of a setup: its client. -/
def createClient (key : String) (f : Flight) : Creation → State
  | .client =>
    { s.setFlight key (some { f with stage := .replaying s.created }) with
      created := s.created + 1 }
  | .none => s.finish key f false
  | .abandoned => { (s.finish key f false).closeClient s.created 1 with created := s.created + 1 }

/-- The entry is written, and then the hash. -/
def install (key : String) (f : Flight) (client : ℕ) : State :=
  { s.setFlight key (some { f with stage := .logging }) with
    consumers := (key, client) :: s.consumers.filter (·.1 ≠ key)
    replayedHashs := Function.update s.replayedHashs key (some f.hash)
    setups := (key, f.hash) :: s.setups }

/-- A stage with a client ends. -/
def workStage (key : String) (f : Flight) (client : ℕ) (next : State) : Outcome → State
  | .ok => next
  | .fails rollbackPanics =>
    -- The deferred close runs after a rollback that panics, too.
    (s.finish key f false).closeClient client (if rollbackPanics then 2 else 1)
  | .panics => (s.finish key f false).closeClient client 1

/-- A stage of a setup ends. -/
def work (key : String) (f : Flight) (o : Outcome) : Option State :=
  match f.stage with
  | .replaying c =>
    some (s.workStage key f c (s.setFlight key (some { f with stage := .declaring c })) o)
  | .declaring c =>
    some (s.workStage key f c (s.setFlight key (some { f with stage := .starting c })) o)
  | .starting c => some (s.workStage key f c (s.install key f c) o)
  | _ => none

/-- The answer of a flight for one call. -/
def answer (ok : Bool) (c : Call) : Call :=
  if c.pc = .wait then { c with pc := .returned ok } else c

/-- A step of the manager. -/
def step : Label → Option State
  | .call i key hash =>
    if s.calls i = none then
      some (s.setCall i ⟨key, hash, if s.closed then .returned false else .fast⟩)
    else none
  | .fast i locked =>
    (s.calls i).bind fun c ↦
      if c.pc = .fast ∧ (locked → s.locked = none) then
        some (s.setCall i { c with
          pc := if locked && s.replayedHashs c.key == some c.hash then .returned true else .ask })
      else none
  | .ask i =>
    (s.calls i).bind fun c ↦
      if c.pc = .ask then
        let f := match s.flights c.key with
          | some f => { f with waiters := i :: f.waiters }
          | none => ⟨c.hash, .queued, [i]⟩
        some ((s.setFlight c.key (some f)).setCall i { c with pc := .wait })
      else none
  | .giveUp i =>
    (s.calls i).bind fun c ↦
      if c.pc = .wait then some (s.setCall i { c with pc := .returned false }) else none
  | .lock key panics =>
    (s.flights key).bind fun f ↦
      if f.stage = .queued ∧ s.locked = none then some (s.lockSetup key f panics) else none
  | .create key c =>
    (s.flights key).bind fun f ↦
      if f.stage = .creating then some (s.createClient key f c) else none
  | .work key o => (s.flights key).bind fun f ↦ s.work key f o
  | .log key panics =>
    (s.flights key).bind fun f ↦
      if f.stage = .logging then some (s.finish key f !panics) else none
  | .deliver key =>
    (s.flights key).bind fun f ↦
      match f.stage with
      | .done ok =>
        some { s.setFlight key none with
          calls := fun i ↦ if i ∈ f.waiters then (s.calls i).map (answer ok) else s.calls i }
      | _ => none
  | .closeBegin k =>
    if s.closers k = none then some { s.setCloser k .begun with closed := true } else none
  | .drain k =>
    if s.closers k = some .begun ∧ s.locked = none then
      some { s.setCloser k (.closing (s.consumers.map Prod.snd)) with
        consumers := []
        replayedHashs := fun _ ↦ none }
    else none
  | .closeNext k =>
    match s.closers k with
    | some (.closing (c :: cs)) => some ((s.closeClient c 1).setCloser k (.closing cs))
    | _ => none
  | .closeReturn k =>
    if s.closers k = some (.closing []) then some (s.setCloser k .returned) else none

/-- A `Close` has begun and not returned. -/
def UnderWay (k : ℕ) : Prop :=
  s.closers k ≠ none ∧ s.closers k ≠ some .returned

/-- A call joins only a flight of its own declarations, and no rollback panics. -/
def Matched : Label → Prop
  | .ask i => ∀ c ∈ s.calls i, ∀ f ∈ s.flights c.key, f.hash = c.hash
  | .work _ o => o ≠ .fails true
  | _ => True

/-- A key has one flight at most, so that a request is compared with one hash. -/
instance (l : Label) : Decidable (s.Matched l) :=
  match l with
  | .ask i => inferInstanceAs (Decidable (∀ c ∈ s.calls i, ∀ f ∈ s.flights c.key, f.hash = c.hash))
  | .work _ o => inferInstanceAs (Decidable (o ≠ .fails true))
  | .call .. | .fast .. | .giveUp _ | .lock .. | .create .. | .log .. | .deliver _ | .closeBegin _
  | .drain _ | .closeNext _ | .closeReturn _ => .isTrue trivial

/-- Besides, no `Close` begins while another one is under way. -/
def Orderly (l : Label) : Prop :=
  s.Matched l ∧ (l.closes = true → ∀ k, ¬s.UnderWay k)

end State

/-- The manager, from its creation on. -/
def system : StepSystem State Label where
  init s := s = {}
  step := State.step

/-! ### Where a client is -/

/-- Where a client is: with a setup, in an entry of the map, with a `Close` that took it out, or
closed. -/
inductive Loc
  | setup (key : String)
  | entry (key : String)
  | closer (k : ℕ)
  | closed
  deriving DecidableEq

variable {l : Loc}

namespace State

variable {s t : State}

/-- A client is at a place. -/
def Place (s : State) : Loc → ℕ → Prop
  | .setup key, c => ∃ f, s.flights key = some f ∧ f.stage.client = some c
  | .entry key, c => (key, c) ∈ s.consumers
  | .closer k, c => ∃ cs, s.closers k = some (.closing cs) ∧ c ∈ cs
  | .closed, c => c < s.created ∧ s.closes c ≠ 0

/-- Each client is in one place. -/
structure Located (s : State) (loc : ℕ → Loc) : Prop where
  bound : ∀ l c, s.Place l c → c < s.created ∧ loc c = l
  placed : ∀ c < s.created, s.Place (loc c) c
  once : ∀ c, s.closes c ≤ 1
  fresh : ∀ c, s.created ≤ c → s.closes c = 0
  closing : ∀ k cs, s.closers k = some (.closing cs) → cs.Nodup
  keys : (s.consumers.map Prod.fst).Nodup

/-- A step that moves no client. -/
theorem Located.stay {loc : ℕ → Loc} (h : s.Located loc)
    (hplace : ∀ l c, t.Place l c ↔ s.Place l c) (hcreated : t.created = s.created)
    (hcloses : t.closes = s.closes)
    (hclosing : ∀ k cs, t.closers k = some (.closing cs) → cs.Nodup)
    (hkeys : (t.consumers.map Prod.fst).Nodup) : t.Located loc where
  bound l c hc := by
    rw [hcreated]
    exact h.bound l c ((hplace l c).mp hc)
  placed c hc := (hplace _ _).mpr (h.placed c (hcreated ▸ hc))
  once := hcloses ▸ h.once
  fresh := by
    rw [hcloses, hcreated]
    exact h.fresh
  closing := hclosing
  keys := hkeys

/-- One client moves, or is created. -/
theorem Located.move {loc : ℕ → Loc} (h : s.Located loc)
    (hplace : ∀ l' c', t.Place l' c' ↔ c' = c ∧ l' = l ∨ c' ≠ c ∧ s.Place l' c')
    (hcreated : ∀ c', c' < t.created ↔ c' = c ∨ c' < s.created)
    (hcloses : ∀ c', c' ≠ c → t.closes c' = s.closes c') (honce : t.closes c ≤ 1)
    (hclosing : ∀ k cs, t.closers k = some (.closing cs) → cs.Nodup)
    (hkeys : (t.consumers.map Prod.fst).Nodup) : t.Located (Function.update loc c l) where
  bound l' c' hc' := by
    rcases (hplace l' c').mp hc' with ⟨rfl, rfl⟩ | ⟨hne, hold⟩
    · exact ⟨(hcreated c').mpr (.inl rfl), Function.update_self ..⟩
    · obtain ⟨hlt, hloc⟩ := h.bound l' c' hold
      exact ⟨(hcreated c').mpr (.inr hlt), (Function.update_of_ne hne ..).trans hloc⟩
  placed c' hc' := by
    rw [hplace]
    by_cases hne : c' = c
    · subst hne
      exact .inl ⟨rfl, Function.update_self ..⟩
    · rw [Function.update_of_ne hne]
      exact .inr ⟨hne, h.placed c' (((hcreated c').mp hc').resolve_left hne)⟩
  once c' := by
    by_cases hne : c' = c
    · exact hne ▸ honce
    · exact (hcloses c' hne) ▸ h.once c'
  fresh c' hc' := by
    have hne : c' ≠ c := fun heq ↦ absurd ((hcreated c').mpr (.inl heq)) (Nat.not_lt.mpr hc')
    rw [hcloses c' hne]
    refine h.fresh c' (Nat.not_lt.mp fun hlt ↦ ?_)
    exact absurd ((hcreated c').mpr (.inr hlt)) (Nat.not_lt.mpr hc')
  closing := hclosing
  keys := hkeys

variable {loc : ℕ → Loc} {key : String} {f f' : Flight}

/-- Where the clients are after a flight moved. -/
theorem place_setFlight (fo : Option Flight) :
    (s.setFlight key fo).Place l c ↔
      l = .setup key ∧ fo.bind (·.stage.client) = some c ∨ l ≠ .setup key ∧ s.Place l c := by
  cases l with
  | setup key' =>
    rw [Place]
    by_cases hkey : key' = key
    · subst hkey
      rw [setFlight_self]
      simp [Option.bind_eq_some_iff]
    · rw [setFlight_of_ne s hkey]
      simp [hkey, Place]
  | entry key' | closer k | closed => simp [Place, State.setFlight]

/-- Where the clients are after one was closed. -/
theorem place_closeClient {c' : ℕ} (hlt : c < s.created) :
    (s.closeClient c 1).Place l c' ↔ s.Place l c' ∨ l = .closed ∧ c' = c := by
  cases l with
  | setup key' | entry key' | closer k => simp [Place, closeClient]
  | closed =>
    rw [Place, Place]
    by_cases hne : c' = c
    · subst hne
      rw [closeClient_self]
      exact iff_of_true ⟨hlt, Nat.succ_ne_zero _⟩ (.inr ⟨rfl, rfl⟩)
    · simp [hne, closeClient]

/-- A client that is in a place is in no other. -/
theorem Located.place_iff (h : s.Located loc) {l' : Loc} (hl : s.Place l c) :
    s.Place l' c ↔ l' = l := by
  constructor
  · intro hl'
    exact (h.bound l' c hl').2.symm.trans (h.bound l c hl).2
  · rintro rfl
    exact hl

/-- A client that is elsewhere is not closed. -/
theorem Located.closes_eq_zero (h : s.Located loc) (hl : s.Place l c) (hne : l ≠ .closed) :
    s.closes c = 0 := by
  by_contra hcloses
  have hclosed : s.Place .closed c := ⟨(h.bound l c hl).1, hcloses⟩
  exact hne ((h.place_iff hl).mp hclosed).symm

/-- A flight goes on without its client being moved. -/
theorem Located.setFlight (h : s.Located loc) (fo : Option Flight)
    (hclient : fo.bind (·.stage.client) = (s.flights key).bind (·.stage.client)) :
    (s.setFlight key fo).Located loc := by
  refine h.stay (fun l c ↦ ?_) rfl rfl h.closing h.keys
  rw [place_setFlight, hclient]
  by_cases hl : l = .setup key
  · subst hl
    simp [Place, Option.bind_eq_some_iff]
  · simp [hl]

/-- A client leaves the place it was in and is closed. -/
theorem Located.close (h : s.Located loc) (hc : s.Place l c) (hne : l ≠ .closed)
    (hplace : ∀ l' c', t.Place l' c' ↔
      (s.Place l' c' ∧ ¬(l' = l ∧ c' = c)) ∨ l' = .closed ∧ c' = c)
    (hcreated : t.created = s.created) (hcloses : t.closes = (s.closeClient c 1).closes)
    (hclosing : ∀ k cs, t.closers k = some (.closing cs) → cs.Nodup)
    (hkeys : (t.consumers.map Prod.fst).Nodup) : t.Located (Function.update loc c .closed) := by
  have hlt := (h.bound l c hc).1
  refine h.move (fun l' c' ↦ ?_) (fun c' ↦ ?_) (fun c' hne' ↦ ?_) ?_ hclosing hkeys
  · rw [hplace]
    by_cases hc' : c' = c
    · subst hc'
      simp [h.place_iff hc]
    · simp [hc']
  · rw [hcreated]
    exact ⟨.inr, fun h ↦ h.elim (· ▸ hlt) id⟩
  · rw [hcloses, closeClient_of_ne s hne']
  · have hzero := h.closes_eq_zero hc hne
    rw [hcloses, closeClient_self]
    omega

/-- A setup's client is closed when it returns. -/
theorem Located.closeSetup (h : s.Located loc) (hf : s.flights key = some f)
    (hc : f.stage.client = some c) (ok : Bool) :
    ((s.finish key f ok).closeClient c 1).Located (Function.update loc c .closed) := by
  have hplace : s.Place (.setup key) c := ⟨f, hf, hc⟩
  refine h.close hplace nofun (fun l c' ↦ ?_) rfl rfl h.closing h.keys
  have hlt : c < (s.finish key f ok).created := (h.bound _ c hplace).1
  have hfinish : (s.finish key f ok).Place l c' ↔
      (s.setFlight key (some { f with stage := .done ok })).Place l c' := by
    cases l with
    | setup key' | entry key' | closer k | closed => exact Iff.rfl
  rw [place_closeClient hlt, hfinish, place_setFlight]
  refine or_congr_left ?_
  simp only [Option.bind_some, Stage.client, reduceCtorEq, and_false, false_or]
  rw [and_comm]
  refine and_congr_right fun hl ↦ not_congr ⟨?_, fun h ↦ h.1⟩
  rintro rfl
  obtain ⟨f', hf', hc'⟩ := hl
  cases hf.symm.trans hf'
  exact ⟨rfl, Option.some.inj (hc'.symm.trans hc)⟩

/-- A client is created and is with the setup, or closed already. -/
theorem Located.create (h : s.Located loc) (hclient : (s.flights key).bind (·.stage.client) = none)
    (fo : Option Flight) {n : ℕ}
    (hl : l = .setup key ∧ n = 0 ∧ fo.bind (·.stage.client) = some s.created ∨
      l = .closed ∧ n = 1 ∧ fo.bind (·.stage.client) = none) (o : Option String) :
    { (s.setFlight key fo).closeClient s.created n with
      created := s.created + 1, locked := o }.Located (Function.update loc s.created l) := by
  -- The new client is in no place yet.
  have hnot : ∀ l', ¬s.Place l' s.created := fun l' hl' ↦ Nat.lt_irrefl _ (h.bound l' _ hl').1
  have hzero := h.fresh s.created (Nat.le_refl _)
  refine h.move (fun l' c' ↦ ?_) (fun c' ↦ ?_) (fun c' hne ↦ ?_) ?_ h.closing h.keys
  · by_cases hclosed : l' = .closed
    · subst hclosed
      by_cases hc' : c' = s.created
      · subst hc'
        have hcloses : ((s.setFlight key fo).closeClient s.created n).closes s.created = n := by
          rw [State.closeClient_self]
          show s.closes s.created + n = n
          rw [hzero, Nat.zero_add]
        show s.created < s.created + 1 ∧
          ((s.setFlight key fo).closeClient s.created n).closes s.created ≠ 0 ↔ _
        rw [hcloses]
        rcases hl with ⟨rfl, rfl, -⟩ | ⟨rfl, rfl, -⟩
        · simp
        · simp
      · show c' < s.created + 1 ∧ ((s.setFlight key fo).closeClient s.created n).closes c' ≠ 0 ↔ _
        rw [State.closeClient_of_ne _ hc']
        have hlt : c' < s.created + 1 ↔ c' < s.created := by omega
        simp only [hc', false_and, ne_eq, not_false_eq_true, true_and, false_or, hlt]
        exact Iff.rfl
    · have hsame : { (s.setFlight key fo).closeClient s.created n with
          created := s.created + 1, locked := o }.Place l' c' ↔
          (s.setFlight key fo).Place l' c' := by
        cases l' with
        | setup key' | entry key' | closer k => exact Iff.rfl
        | closed => exact absurd rfl hclosed
      rw [hsame, place_setFlight]
      have hsetup : ¬s.Place (.setup key) c' := by
        rintro ⟨f, hf, hc⟩
        rw [hf, Option.bind_some] at hclient
        exact nomatch hclient.symm.trans hc
      rcases hl with ⟨rfl, -, hfo⟩ | ⟨rfl, -, hfo⟩
      · rw [hfo]
        by_cases hl' : l' = .setup key
        · subst hl'
          simp [hsetup, eq_comm]
        · by_cases hc' : c' = s.created
          · subst hc'
            simp [hl', hnot]
          · simp [hl', hc']
      · rw [hfo]
        by_cases hl' : l' = .setup key
        · subst hl'
          simp [hsetup]
        · by_cases hc' : c' = s.created
          · subst hc'
            simp [hl', hnot, hclosed]
          · simp [hl', hc']
  · show c' < s.created + 1 ↔ _
    omega
  · exact State.closeClient_of_ne _ hne n
  · rw [State.closeClient_self]
    show s.closes s.created + n ≤ 1
    rcases hl with ⟨-, rfl, -⟩ | ⟨-, rfl, -⟩
    · omega
    · omega

/-- A setup's client goes into the map. -/
theorem Located.install (h : s.Located loc) (hf : s.flights key = some f)
    (hc : f.stage.client = some c) (habsent : ∀ c, (key, c) ∉ s.consumers) :
    (s.install key f c).Located (Function.update loc c (.entry key)) := by
  have hplace : s.Place (.setup key) c := ⟨f, hf, hc⟩
  have hlt := (h.bound _ c hplace).1
  have hfilter : s.consumers.filter (·.1 ≠ key) = s.consumers := by
    rw [List.filter_eq_self]
    rintro ⟨k, c'⟩ hp
    refine decide_eq_true fun hk ↦ habsent c' ?_
    rw [← show k = key from hk]
    exact hp
  have hconsumers : (s.install key f c).consumers = (key, c) :: s.consumers := by
    rw [State.install, hfilter]
  refine h.move (fun l c' ↦ ?_) (fun c' ↦ ?_) (fun c' _ ↦ rfl) (h.once c) h.closing ?_
  · cases l with
    | setup key' =>
      have hsame : (s.install key f c).Place (.setup key') c' ↔
          (s.setFlight key (some { f with stage := .logging })).Place (.setup key') c' := Iff.rfl
      rw [hsame, place_setFlight]
      simp only [Option.bind_some, Stage.client, reduceCtorEq, and_false, false_or]
      by_cases hc' : c' = c
      · subst hc'
        rw [h.place_iff hplace]
        simp
      · simp only [hc', ne_eq, not_false_eq_true, true_and]
        refine and_iff_right_of_imp fun hplace' heq ↦ ?_
        cases heq
        obtain ⟨g, hg, hcg⟩ := hplace'
        cases hf.symm.trans hg
        exact hc' (Option.some.inj (hcg.symm.trans hc))
    | entry key' =>
      rw [Place, hconsumers, List.mem_cons, Prod.mk.injEq, Place]
      by_cases hc' : c' = c
      · subst hc'
        have hnot : (key', c') ∉ s.consumers := fun hp ↦
          nomatch (h.place_iff hplace).mp (show s.Place (.entry key') c' from hp)
        simp [hnot]
      · simp [hc']
    | closer k =>
      have hsame : (s.install key f c).Place (.closer k) c' ↔ s.Place (.closer k) c' := Iff.rfl
      rw [hsame]
      by_cases hc' : c' = c
      · subst hc'
        rw [h.place_iff hplace]
        simp
      · simp [hc']
    | closed =>
      have hsame : (s.install key f c).Place .closed c' ↔ s.Place .closed c' := Iff.rfl
      rw [hsame]
      by_cases hc' : c' = c
      · subst hc'
        rw [h.place_iff hplace]
        simp
      · simp [hc']
  · exact ⟨.inr, fun h ↦ h.elim (· ▸ hlt) id⟩
  · rw [hconsumers, List.map_cons, List.nodup_cons]
    refine ⟨fun hmem ↦ ?_, h.keys⟩
    obtain ⟨⟨k, c'⟩, hp, rfl⟩ := List.mem_map.mp hmem
    exact habsent c' hp

/-! ### Clients of a `Close` -/

variable {k : ℕ}

theorem setCloser_closing {o : Closer} {k' : ℕ} {cs : List ℕ}
    (h : (s.setCloser k o).closers k' = some (.closing cs)) :
    k' = k ∧ o = .closing cs ∨ k' ≠ k ∧ s.closers k' = some (.closing cs) := by
  by_cases hne : k' = k
  · subst hne
    exact .inl ⟨rfl, Option.some.inj ((s.setCloser_self k' o).symm.trans h)⟩
  · exact .inr ⟨hne, (s.setCloser_of_ne hne o).symm.trans h⟩

/-- A `Close` that has no clients before and after a step. -/
theorem Located.setCloser (h : s.Located loc) {o : Closer} (ho : ∀ c cs, o ≠ .closing (c :: cs))
    (hk : ∀ c cs, s.closers k ≠ some (.closing (c :: cs))) (hflights : t.flights = s.flights)
    (hconsumers : t.consumers = s.consumers) (hclosers : t.closers = (s.setCloser k o).closers)
    (hcreated : t.created = s.created) (hcloses : t.closes = s.closes) : t.Located loc := by
  refine h.stay (fun l c ↦ ?_) hcreated hcloses (fun k' cs hcs ↦ ?_) (hconsumers ▸ h.keys)
  · cases l with
    | setup key => rw [Place, Place, hflights]
    | entry key => rw [Place, Place, hconsumers]
    | closed => rw [Place, Place, hcreated, hcloses]
    | closer k' =>
      rw [Place, Place, hclosers]
      by_cases hne : k' = k
      · subst hne
        rw [setCloser_self]
        refine iff_of_false ?_ ?_
        · rintro ⟨cs, hcs, hc⟩
          obtain ⟨c', cs', rfl⟩ := List.exists_cons_of_ne_nil (List.ne_nil_of_mem hc)
          exact ho c' cs' (Option.some.inj hcs)
        · rintro ⟨cs, hcs, hc⟩
          obtain ⟨c', cs', rfl⟩ := List.exists_cons_of_ne_nil (List.ne_nil_of_mem hc)
          exact hk c' cs' hcs
      · rw [setCloser_of_ne s hne]
  · rw [hclosers] at hcs
    rcases setCloser_closing hcs with ⟨-, rfl⟩ | ⟨-, hcs⟩
    · cases cs with
      | nil => exact List.nodup_nil
      | cons c cs => exact absurd rfl (ho c cs)
    · exact h.closing k' cs hcs

/-- The clients of the entries are different ones. -/
theorem Located.nodup_clients (h : s.Located loc) : (s.consumers.map Prod.snd).Nodup := by
  refine List.Nodup.map_on ?_ (List.Nodup.of_map _ h.keys)
  rintro ⟨key, c⟩ hp ⟨key', c'⟩ hp' (rfl : c = c')
  have hplace : s.Place (.entry key) c := hp
  have hplace' : s.Place (.entry key') c := hp'
  cases (h.place_iff hplace).mp hplace'
  rfl

/-- All entries of the map go to a `Close`. -/
theorem Located.drain (h : s.Located loc) (hk : s.closers k = some .begun) :
    { s.setCloser k (.closing (s.consumers.map Prod.snd)) with
      consumers := [], replayedHashs := fun _ ↦ none }.Located fun c ↦
        match loc c with
        | .entry _ => .closer k
        | l => l := by
  have hother : ∀ {k' cs}, k' ≠ k → s.closers k' = some (.closing cs) →
      (s.setCloser k (.closing (s.consumers.map Prod.snd))).closers k' = some (.closing cs) :=
    fun hne hcs ↦ (s.setCloser_of_ne hne _).trans hcs
  refine ⟨fun l c hc ↦ ?_, fun c hc ↦ ?_, h.once, h.fresh, fun k' cs hcs ↦ ?_, List.nodup_nil⟩
  · cases l with
    | setup key =>
      have hold : s.Place (.setup key) c := hc
      exact ⟨(h.bound _ c hold).1, by rw [(h.bound _ c hold).2]⟩
    | entry key => cases hc
    | closed =>
      have hold : s.Place .closed c := hc
      exact ⟨(h.bound _ c hold).1, by rw [(h.bound _ c hold).2]⟩
    | closer k' =>
      obtain ⟨cs, hcs, hmem⟩ := hc
      rcases setCloser_closing hcs with ⟨rfl, heq⟩ | ⟨-, hcs⟩
      · cases heq
        obtain ⟨⟨key, c'⟩, hp, rfl⟩ := List.mem_map.mp hmem
        have hold : s.Place (.entry key) c' := hp
        exact ⟨(h.bound _ c' hold).1, by rw [(h.bound _ c' hold).2]⟩
      · have hold : s.Place (.closer k') c := ⟨cs, hcs, hmem⟩
        exact ⟨(h.bound _ c hold).1, by rw [(h.bound _ c hold).2]⟩
  · have hold := h.placed c hc
    cases hloc : loc c with
    | setup key | closed =>
      rw [hloc] at hold
      exact hold
    | entry key =>
      rw [hloc] at hold
      exact ⟨_, State.setCloser_self .., List.mem_map_of_mem hold⟩
    | closer k' =>
      rw [hloc] at hold
      obtain ⟨cs, hcs, hmem⟩ := hold
      have hne : k' ≠ k := by
        rintro rfl
        cases hk.symm.trans hcs
      exact ⟨cs, hother hne hcs, hmem⟩
  · rcases setCloser_closing hcs with ⟨-, heq⟩ | ⟨-, hcs⟩
    · cases heq
      exact h.nodup_clients
    · exact h.closing k' cs hcs

/-- A `Close` closes its next client. -/
theorem Located.closeNext (h : s.Located loc) {cs : List ℕ}
    (hk : s.closers k = some (.closing (c :: cs))) :
    ((s.closeClient c 1).setCloser k (.closing cs)).Located (Function.update loc c .closed) := by
  have hplace : s.Place (.closer k) c := ⟨_, hk, List.mem_cons_self⟩
  have hlt := (h.bound _ c hplace).1
  obtain ⟨hnot, hnodup⟩ := List.nodup_cons.mp (h.closing k _ hk)
  refine h.close hplace nofun (fun l c' ↦ ?_) rfl rfl (fun k' cs' hcs ↦ ?_) h.keys
  · cases l with
    | setup key =>
      rw [show ((s.closeClient c 1).setCloser k (.closing cs)).Place (.setup key) c' ↔
        s.Place (.setup key) c' from Iff.rfl]
      simp
    | entry key =>
      rw [show ((s.closeClient c 1).setCloser k (.closing cs)).Place (.entry key) c' ↔
        s.Place (.entry key) c' from Iff.rfl]
      simp
    | closed =>
      rw [show ((s.closeClient c 1).setCloser k (.closing cs)).Place .closed c' ↔
        (s.closeClient c 1).Place .closed c' from Iff.rfl, place_closeClient hlt]
      simp
    | closer k' =>
      rw [Place, Place]
      by_cases hne : k' = k
      · subst hne
        rw [setCloser_self, hk]
        simp only [Option.some.injEq, Closer.closing.injEq, exists_eq_left', List.mem_cons,
          true_and, reduceCtorEq, false_and, or_false]
        refine ⟨fun hc' ↦ ⟨.inr hc', fun heq ↦ hnot (heq ▸ hc')⟩, fun hc' ↦ ?_⟩
        exact hc'.1.resolve_left hc'.2
      · rw [setCloser_of_ne _ hne]
        simp [hne, closeClient]
  · rcases setCloser_closing hcs with ⟨-, heq⟩ | ⟨-, hcs⟩
    · cases heq
      exact hnodup
    · exact h.closing k' cs' hcs

end State

end Consumers
