import Mathlib.Data.List.Basic

/-!
# History variables

A model records what happened in a list of events, newest first. Most statements about a history
speak of what happened **since** the last event of some kind.
-/

namespace History

variable {ε : Type*} {p : ε → Bool} {e : ε} {history : List ε}

/-- The events since the last one that satisfies `p`; all of them if none does. -/
def since (p : ε → Bool) (history : List ε) : List ε :=
  history.takeWhile fun e ↦ !p e

theorem since_cons_of_false (h : p e = false) : since p (e :: history) = e :: since p history := by
  simp [since, h]

theorem since_cons_of_true (h : p e = true) : since p (e :: history) = [] := by
  simp [since, h]

/-- What happened since an event is not forgotten until the next one. -/
theorem mem_since_cons {e' : ε} (h : p e = false) (hmem : e' ∈ since p history) :
    e' ∈ since p (e :: history) := by
  rw [since_cons_of_false h]
  exact List.mem_cons_of_mem e hmem

end History
