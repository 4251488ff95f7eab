import Mathlib.Data.List.Basic
import Mathlib.Data.List.Nodup

/-!
# A doubly linked list with element identity

The list type of Go's `container/list`, as far as its observable behaviour goes: `pushFront` returns
a handle to the new element, and `moveToFront` and `remove` take a handle rather than a position. A
handle names its element for as long as the element is in the list, so handles are natural numbers
drawn from a counter and **never reused**.

The well-formedness is carried by the structure: handles do not repeat, and every handle in the list
was drawn before the counter's next value. A handle that is not in the list leaves `moveToFront` and
`remove` without effect, as an element of another list does in Go.
-/

/-- A list of values, front first, each under its own handle. -/
structure ElementList (α : Type*) where
  /-- Handle and value of every element, front first. -/
  nodes : List (ℕ × α)
  /-- The next handle to be drawn. -/
  next : ℕ
  /-- No handle occurs twice. -/
  nodup : (nodes.map Prod.fst).Nodup
  /-- Every handle was drawn already. -/
  lt_next : ∀ x ∈ nodes, x.1 < next

namespace ElementList

variable {α : Type*} (l : ElementList α)

/-- `list.New()`. -/
def empty : ElementList α :=
  ⟨[], 0, by simp, by simp⟩

/-- The values, front first. -/
def values : List α :=
  l.nodes.map Prod.snd

/-- `Remove`: drop the element with this handle. -/
def remove (n : ℕ) : ElementList α where
  nodes := l.nodes.filter (·.1 ≠ n)
  next := l.next
  nodup := l.nodup.sublist (List.filter_sublist.map _)
  lt_next x hx := l.lt_next x (List.mem_of_mem_filter hx)

/-- `PushFront`: a new element at the front, and its handle. -/
def pushFront (v : α) : ElementList α × ℕ :=
  (⟨(l.next, v) :: l.nodes, l.next + 1, by
      refine List.nodup_cons.2 ⟨fun h ↦ ?_, l.nodup⟩
      obtain ⟨x, hx, hn⟩ := List.mem_map.1 h
      exact absurd (l.lt_next x hx) (by omega), by
      intro x hx
      rcases List.mem_cons.1 hx with rfl | hx
      · exact Nat.lt_succ_self _
      · exact Nat.lt_succ_of_lt (l.lt_next x hx)⟩, l.next)

/-- `MoveToFront`: the element with this handle comes first, the others keep their order. -/
def moveToFront (n : ℕ) : ElementList α :=
  match h : l.nodes.find? (·.1 = n) with
  | none => l
  | some x =>
    { nodes := x :: l.nodes.filter (·.1 ≠ n)
      next := l.next
      nodup := by
        have hxn : x.1 = n := by simpa using List.find?_some h
        refine List.nodup_cons.2 ⟨fun hm ↦ ?_, (l.remove n).nodup⟩
        obtain ⟨y, hy, hyx⟩ := List.mem_map.1 hm
        exact absurd (hyx.trans hxn) (by simpa using (List.mem_filter.1 hy).2)
      lt_next := by
        intro y hy
        rcases List.mem_cons.1 hy with rfl | hy
        · exact l.lt_next _ (List.mem_of_find?_eq_some h)
        · exact l.lt_next y (List.mem_of_mem_filter hy) }

/-- `Back`: the last element, if any. -/
def back : Option (ℕ × α) :=
  l.nodes.getLast?

/-! ### Membership -/

@[simp] theorem nodes_empty : (empty : ElementList α).nodes = [] := rfl

variable {l}

/-- A handle determines its element. -/
theorem eq_of_mem {n : ℕ} {v w : α} (hv : (n, v) ∈ l.nodes) (hw : (n, w) ∈ l.nodes) : v = w := by
  have h := List.inj_on_of_nodup_map l.nodup hv hw rfl
  exact (Prod.mk.inj h).2

@[simp] theorem mem_remove {n : ℕ} {x : ℕ × α} :
    x ∈ (l.remove n).nodes ↔ x ∈ l.nodes ∧ x.1 ≠ n := by
  simp [remove]

@[simp] theorem mem_pushFront {v : α} {x : ℕ × α} :
    x ∈ (l.pushFront v).1.nodes ↔ x = (l.next, v) ∨ x ∈ l.nodes := by
  simp [pushFront]

/-- Moving an element that is in the list puts it in front of the rest. -/
theorem nodes_moveToFront {n : ℕ} {v : α} (h : (n, v) ∈ l.nodes) :
    (l.moveToFront n).nodes = (n, v) :: l.nodes.filter (·.1 ≠ n) := by
  have hfind : l.nodes.find? (·.1 = n) = some (n, v) := by
    obtain ⟨x, hx⟩ := Option.isSome_iff_exists.1
      (List.find?_isSome.2 ⟨(n, v), h, by simp⟩ : (l.nodes.find? (·.1 = n)).isSome)
    have hxn : x.1 = n := by simpa using List.find?_some hx
    have hxv : x = (n, v) := by
      obtain ⟨m, w⟩ := x
      obtain rfl : m = n := hxn
      rw [eq_of_mem h (List.mem_of_find?_eq_some hx)]
    rw [hx, hxv]
  rw [moveToFront]
  split
  · next hnone => rw [hfind] at hnone; exact absurd hnone (by simp)
  · next x hx =>
    rw [hfind, Option.some_inj] at hx
    exact congrArg (· :: l.nodes.filter (·.1 ≠ n)) hx.symm

/-- Moving never adds or drops an element. -/
@[simp] theorem mem_moveToFront {n : ℕ} {x : ℕ × α} :
    x ∈ (l.moveToFront n).nodes ↔ x ∈ l.nodes := by
  by_cases h : ∃ v, (n, v) ∈ l.nodes
  · obtain ⟨v, hv⟩ := h
    rw [nodes_moveToFront hv, List.mem_cons, List.mem_filter]
    constructor
    · rintro (rfl | ⟨hx, -⟩)
      · exact hv
      · exact hx
    · intro hx
      by_cases hxn : x.1 = n
      · left
        obtain ⟨m, w⟩ := x
        obtain rfl : m = n := hxn
        rw [eq_of_mem hv hx]
      · exact Or.inr ⟨hx, by simpa using hxn⟩
  · rw [moveToFront]
    split
    · rfl
    · next y hy =>
      refine absurd ⟨y.2, ?_⟩ h
      have hyn : y.1 = n := by simpa using List.find?_some hy
      rw [← hyn]
      exact List.mem_of_find?_eq_some hy

/-- The order among the elements other than `n` survives both edits of `n`. -/
theorem values_remove_sublist (n : ℕ) : (l.remove n).values.Sublist l.values :=
  List.filter_sublist.map _

end ElementList
