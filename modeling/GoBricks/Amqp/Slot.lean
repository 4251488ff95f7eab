import GoBricks.Amqp.Effect

/-!
# The publish slot

A call holds the slot from before it draws its tag until its frame is sent, and a reconnect while it
rotates the channel. So there is one handshake at most, and its key is the next one of the present
channel (`Slotted.current`).
-/

namespace Amqp

variable {maxPublishAttempts : ℤ} {s t u : State} {l : Label} {th : Thread} {pc pc' : Pc}

/-- Whether a thread is in the publish slot. -/
def Pc.inSlot : Pc → Bool
  | .snapshotting | .indexing .. | .storing .. | .sending .. | .sweeping _ | .installing
  | .untracking _ .sweep | .unindexing _ _ .sweep | .answering _ _ .sweep => true
  | _ => false

/-- The key of a handshake between the draw of the tag and the send. -/
def Pc.handshake : Pc → Option ConfirmKey
  | .indexing key _ | .storing key _ | .sending key _ => some key
  | _ => none

/-- The key the next publish gets. -/
def State.nextKey (s : State) : ConfirmKey :=
  ⟨s.generation, (s.channels s.generation).published + 1⟩

/-- Who is in the slot holds it, and the key of a handshake is the next one. -/
structure Slotted (s : State) : Prop where
  slot : ∀ th, (s.threads th).inSlot = true → s.publishSerial = some th
  current : ∀ th key, (s.threads th).handshake = some key → key = s.nextKey

theorem inSlot_of_handshake {key : ConfirmKey} (h : pc.handshake = some key) :
    pc.inSlot = true := by
  cases pc with
  | indexing | storing | sending => rfl
  | _ => contradiction

namespace Slotted

/-- The slot does not change hands. -/
theorem keep (hs : Slotted s) (hthreads : u.threads = s.threads)
    (hslot : u.publishSerial = s.publishSerial) (hkey : u.nextKey = s.nextKey)
    (hin : pc'.inSlot = true → (s.threads th).inSlot = true)
    (hhandshake : ∀ key, pc'.handshake = some key → key = s.nextKey) :
    Slotted (u.goto th pc') where
  slot := by
    change ∀ th', (Function.update u.threads th pc' th').inSlot = true → u.publishSerial = some th'
    rw [hthreads, hslot]
    exact (Function.forall_update_iff _ fun (th' : Thread) (pc : Pc) ↦ pc.inSlot = true →
      s.publishSerial = some th').2 ⟨fun h ↦ hs.slot th (hin h), fun th' _ ↦ hs.slot th'⟩
  current := by
    change ∀ th' key, (Function.update u.threads th pc' th').handshake = some key → key = u.nextKey
    rw [hthreads, hkey]
    exact (Function.forall_update_iff _ fun _ (pc : Pc) ↦ ∀ key, pc.handshake = some key →
      key = s.nextKey).2 ⟨hhandshake, fun th' _ ↦ hs.current th'⟩

/-- A thread takes the free slot. -/
theorem acquire (hs : Slotted s) (hfree : s.publishSerial = none)
    (hhandshake : pc'.handshake = none) :
    Slotted ({ s with publishSerial := some th }.goto th pc') := by
  have hout (th' : Thread) (h : (s.threads th').inSlot = true) : False := by
    have := hs.slot th' h
    simp [hfree] at this
  refine ⟨?_, ?_⟩
  · exact (Function.forall_update_iff _ fun (th' : Thread) (pc : Pc) ↦ pc.inSlot = true →
      some th = some th').2 ⟨fun _ ↦ rfl, fun th' _ h ↦ (hout th' h).elim⟩
  · refine (Function.forall_update_iff _ fun _ (pc : Pc) ↦ ∀ key, pc.handshake = some key →
      key = s.nextKey).2 ⟨fun key h ↦ ?_, fun th' _ ↦ hs.current th'⟩
    simp [hhandshake] at h

/-- The thread in the slot leaves it. -/
theorem release (hs : Slotted s) (hthreads : u.threads = s.threads)
    (hin : (s.threads th).inSlot = true) (hout : pc'.inSlot = false) : Slotted (u.goto th pc') := by
  -- Nobody else is in the slot.
  have hnone (th' : Thread) (hne : th' ≠ th) : (u.threads th').inSlot = false := by
    rw [hthreads]
    refine Bool.eq_false_iff.2 fun h ↦ hne ?_
    exact Option.some_inj.1 ((hs.slot th' h).symm.trans (hs.slot th hin))
  have hall : ∀ th', ((u.goto th pc').threads th').inSlot = false :=
    (Function.forall_update_iff _ fun _ (pc : Pc) ↦ pc.inSlot = false).2 ⟨hout, hnone⟩
  refine ⟨fun th' h ↦ ?_, fun th' key h ↦ ?_⟩
  · simp [hall th'] at h
  · have := inSlot_of_handshake h
    simp [hall th'] at this

/-- Neither the slot nor what it protects changes, and no thread moves. -/
theorem of_same (hs : Slotted s) (hthreads : t.threads = s.threads)
    (hslot : t.publishSerial = s.publishSerial) (hkey : t.nextKey = s.nextKey) : Slotted t where
  slot th h := by
    rw [hthreads] at h
    rw [hslot]
    exact hs.slot th h
  current th key h := by
    rw [hthreads] at h
    rw [hkey]
    exact hs.current th key h

end Slotted

theorem resume_inSlot {key : ConfirmKey} {by' : Untracker} (s : State) (th : Thread)
    (h : (s.resume th key by').inSlot = true) : by' = .sweep := by
  cases by' with
  | sweep => rfl
  | _ => contradiction

/-- A thread that resumes is past the handshake. -/
theorem resume_handshake (s : State) (th : Thread) (key : ConfirmKey) (by' : Untracker) :
    (s.resume th key by').handshake = none := by
  cases by' <;> rfl

namespace Moves

/-- No move enters the slot. -/
theorem inSlot (h : Moves s th pc pc') (hin : pc'.inSlot = true) : pc.inSlot = true := by
  cases h with
  | missing hnone =>
    rw [resume_inSlot s th hin]
    rfl
  | @drained g next hempty | @unmatched g ret next hnone => cases next <;> contradiction
  | sweep | swept => rfl
  | _ => contradiction

theorem handshake (h : Moves s th pc pc') : pc'.handshake = none := by
  cases h with
  | missing hnone => exact resume_handshake ..
  | @drained g next hempty | @unmatched g ret next hnone => cases next <;> rfl
  | _ => rfl

end Moves

/-- A change of one channel other than a publish leaves the next key as it is. -/
theorem nextKey_setChannel {g : ℕ} {ch : Channel}
    (h : ch.published = (s.channels g).published) : (s.setChannel g ch).nextKey = s.nextKey := by
  have : ((s.setChannel g ch).channels s.generation).published =
      (s.channels s.generation).published := by grind
  exact congrArg (fun n ↦ ConfirmKey.mk s.generation (n + 1)) this

/-- Every step keeps the slot to one call. -/
theorem Slotted.step (hs : Slotted s) (h : (system maxPublishAttempts).step s l = some t) :
    Slotted t := by
  have hquiet {pc' : Pc} (hnone : pc'.handshake = none) (key : ConfirmKey)
      (h : pc'.handshake = some key) : key = s.nextKey := by simp [hnone] at h
  cases act_of_step h with
  | begin hpc _ _ | attempt hpc =>
    exact hs.keep rfl rfl rfl (fun h ↦ nomatch h) fun _ h ↦ nomatch h
  | move hpc hmoves =>
    exact hs.keep rfl rfl rfl (fun h ↦ by rw [hpc]; exact hmoves.inSlot h)
      (hquiet hmoves.handshake)
  | acquire hpc hfree => exact hs.acquire hfree rfl
  | notReady hpc => exact hs.release rfl (by rw [hpc]; rfl) rfl
  | snapshot hpc hkey hp =>
    refine hs.keep rfl rfl rfl (fun _ ↦ by rw [hpc]; rfl) fun key h ↦ ?_
    exact (Option.some_inj.1 h).symm.trans hkey
  | index hpc hindex | store hpc =>
    refine hs.keep rfl rfl rfl (fun _ ↦ by rw [hpc]; rfl) fun key h ↦ ?_
    exact hs.current _ key ((congrArg Pc.handshake hpc).trans h)
  | send hpc hf hpc' =>
    refine hs.release rfl (by rw [hpc]; rfl) ?_
    rcases hpc' with rfl | rfl <;> rfl
  | succeed hpc ha _ _ | unroutable hpc ha _ | nacked hpc ha =>
    exact hs.keep rfl rfl rfl (fun h ↦ nomatch h) fun _ h ↦ nomatch h
  | retry hpc hcall hpc' =>
    rcases hpc' with rfl | ⟨rfl, -⟩ <;>
      exact hs.keep rfl rfl rfl (fun h ↦ nomatch h) fun _ h ↦ nomatch h
  | @take th key e by' hpc he =>
    refine hs.keep rfl rfl rfl (fun h ↦ ?_) nofun
    rw [hpc]
    cases by' with
    | sweep => rfl
    | _ => contradiction
  | @unindex th key e by' pendingMandatory hpc hindex =>
    refine hs.keep rfl rfl rfl (fun h ↦ ?_) (hquiet (by cases by' <;> rfl))
    rw [hpc]
    cases by' with
    | sweep => rfl
    | _ => contradiction
  | answer hpc hp =>
    refine hs.keep rfl rfl rfl (fun h ↦ ?_) (hquiet (resume_handshake ..))
    rw [hpc, resume_inSlot _ _ h]
    rfl
  | @brokerConfirm key _ _ ch hf hch | @brokerReturn key _ _ _ ch hf _ hch =>
    exact hs.of_same rfl rfl (@nextKey_setChannel s key.generation ch (by rw [hch]))
  | takeReturn hpc hreturns | takeConfirm hpc hconfirms =>
    exact hs.keep rfl rfl (nextKey_setChannel rfl) (fun h ↦ nomatch h) fun _ h ↦ nomatch h
  | @attach g e ret next hpc =>
    refine hs.keep rfl rfl rfl (fun h ↦ ?_) (hquiet (by cases next <;> rfl))
    cases next <;> contradiction
  | acquireUncond hpc hfree => exact hs.acquire hfree rfl
  | discard hpc => exact hs.release rfl (by rw [hpc]; rfl) rfl
  | install hpc =>
    refine .keep ?_ rfl rfl rfl (fun h ↦ nomatch h) fun _ h ↦ nomatch h
    exact hs.release rfl (by rw [hpc]; rfl) rfl
  | environment => exact hs.of_same rfl rfl rfl

/-- The slot has one call at most, along every run. -/
theorem slotted_of_reachable (hs : (system maxPublishAttempts).Reachable s) : Slotted s := by
  refine hs.invariant ?_ fun _ _ _ _ _ hslotted h ↦ hslotted.step h
  rintro s rfl
  exact ⟨nofun, nofun⟩

/-! ### Dispatchers of generations to come -/

/-- The dispatchers of generations to come have not started. -/
def State.Unstarted (s : State) : Prop :=
  ∀ g, s.generation < g → s.threads (.dispatcher g) = .idle

/-- A thread that has started moves. -/
theorem State.Unstarted.goto (hs : s.Unstarted) (hthreads : u.threads = s.threads)
    (hgeneration : u.generation = s.generation)
    (hidle : ∀ g, th = .dispatcher g → s.threads th ≠ .idle) : (u.goto th pc').Unstarted := by
  intro g hg
  have hold := hs g (hgeneration ▸ hg)
  rcases threads_goto u th pc' (.dispatcher g) with heq | ⟨rfl, -⟩
  · rw [heq, hthreads, hold]
  · exact absurd hold (hidle g rfl)

/-- A dispatcher starts with its generation. -/
theorem State.Unstarted.step (hs : s.Unstarted)
    (h : (system maxPublishAttempts).step s l = some t) : t.Unstarted := by
  cases act_of_step h with
  | move hpc hmoves =>
    refine hs.goto rfl rfl fun g hg ↦ ?_
    subst hg
    rw [hpc]
    cases hmoves <;> exact nofun
  | take hpc _ | unindex hpc _ | answer hpc _ | takeConfirm hpc _ | attach hpc =>
    exact hs.goto rfl rfl fun _ _ ↦ hpc ▸ nofun
  | takeReturn hpc _ =>
    refine hs.goto rfl rfl fun _ _ ↦ ?_
    rcases hpc with ⟨hpc, -⟩ | hpc <;> exact hpc ▸ nofun
  | install hpc =>
    intro g hg
    have hlt : s.generation + 1 < g := hg
    have hne : Thread.dispatcher g ≠ .dispatcher (s.generation + 1) := fun heq ↦
      absurd (Thread.dispatcher.inj heq) (ne_of_gt hlt)
    exact (Function.update_of_ne hne ..).trans (hs g (Nat.lt_of_succ_lt hlt))
  | brokerConfirm _ _ | brokerReturn _ _ _ | environment => exact hs
  | _ => exact hs.goto rfl rfl nofun

/-- The dispatchers of later generations are idle, along every run. -/
theorem unstarted_of_reachable (hs : (system maxPublishAttempts).Reachable s) : s.Unstarted := by
  refine hs.invariant ?_ fun _ _ _ _ _ hunstarted h ↦ hunstarted.step h
  rintro s rfl
  exact fun _ _ ↦ rfl

end Amqp
