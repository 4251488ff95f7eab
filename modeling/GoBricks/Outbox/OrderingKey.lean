import GoBricks.Lib.Segments
import GoBricks.Outbox.HoldBack

/-!
# The ordering keys of the AMQP lane

A stamped row is keyed `amqp:tenant:<stamp>`, any other row `amqp:<exchange>:<routing key>`. The
parts are joined as they are, so the two kinds of key share one namespace, and the colon between
exchange and routing key is not the only one there may be: `amqpPlan_key_collides` has a collision
of either kind.

`KeysApart` says for which pairs of rows neither can happen, and `amqpPlan_key_iff` that these are
exactly the pairs whose keys are equal when the rows compete.
-/

open Segments

namespace Outbox

/-- The stamp of a row; empty when it carries none. -/
def stampOf (headers : Headers) : String :=
  (takeFrameworkStamps headers).1

/-- Two rows compete: they have the same stamp, or no stamp and the same destination. -/
def SameScope (r₁ : Record) (h₁ : Headers) (r₂ : Record) (h₂ : Headers) : Prop :=
  (stampOf h₁ ≠ "" ∧ stampOf h₁ = stampOf h₂) ∨
    (stampOf h₁ = "" ∧ stampOf h₂ = "" ∧ r₁.exchange = r₂.exchange ∧ r₁.routingKey = r₂.routingKey)

/-- The second pair cuts the joined text at a later colon. -/
def ShiftedText (exchange₁ key₁ exchange₂ key₂ : String) : Prop :=
  Shifted ':' exchange₁.toList key₁.toList exchange₂.toList key₂.toList

/-- The destination of an unstamped row reads like the key of a stamp. -/
def ReadsAsStamp (r : Record) (stamp : String) : Prop :=
  (r.exchange = "tenant" ∧ r.routingKey = stamp) ∨
    ShiftedText "tenant" stamp r.exchange r.routingKey

/-- The keys of two rows do not collide: of two unstamped rows, neither cuts the text of the other's
destination at a later colon, and the destination of an unstamped row does not read like the other's
stamp. -/
def KeysApart (r₁ : Record) (h₁ : Headers) (r₂ : Record) (h₂ : Headers) : Prop :=
  if stampOf h₁ = "" then
    if stampOf h₂ = "" then
      ¬ShiftedText r₁.exchange r₁.routingKey r₂.exchange r₂.routingKey ∧
        ¬ShiftedText r₂.exchange r₂.routingKey r₁.exchange r₁.routingKey
    else ¬ReadsAsStamp r₁ (stampOf h₂)
  else if stampOf h₂ = "" then ¬ReadsAsStamp r₂ (stampOf h₁)
  else True

/-- A row with a tenant's stamp is ordered by the tenant. -/
theorem amqpPlan_key_of_stamp {r : Record} {h : Headers} (hs : stampOf h ≠ "") :
    (amqpPlan r h).key = "amqp:" ++ ("tenant" ++ (":" ++ stampOf h)) := by
  have : (amqpPlan r h).key = "amqp:tenant:" ++ stampOf h := if_pos hs
  rw [this, ← String.append_assoc, ← String.append_assoc]
  rfl

/-- A row without one is ordered by its route. -/
theorem amqpPlan_key_of_no_stamp {r : Record} {h : Headers} (hs : stampOf h = "") :
    (amqpPlan r h).key = "amqp:" ++ (r.exchange ++ (":" ++ r.routingKey)) := by
  have : (amqpPlan r h).key = "amqp:" ++ r.exchange ++ ":" ++ r.routingKey := if_neg (not_not.2 hs)
  rw [this, String.append_assoc, String.append_assoc]

/-- Joined texts, by their parts. -/
theorem join_eq_iff {a b c d : String} :
    "amqp:" ++ (a ++ (":" ++ b)) = "amqp:" ++ (c ++ (":" ++ d)) ↔
    (a = c ∧ b = d) ∨ ShiftedText a b c d ∨ ShiftedText c d a b := by
  have hjoin (x y : String) : (x ++ (":" ++ y)).toList = x.toList ++ ':' :: y.toList := by
    rw [String.toList_append, String.toList_append]
    rfl
  rw [String.append_right_inj, ← String.toList_inj, hjoin, hjoin, append_cons_eq_iff,
    String.toList_inj, String.toList_inj]
  rfl

/-- There is no colon in the word of a stamp's key. -/
theorem not_shiftedText_tenant (exchange routingKey stamp : String) :
    ¬ShiftedText exchange routingKey "tenant" stamp := by
  rintro ⟨m, hm, -⟩
  have hcolon : ':' ∈ "tenant".toList := hm ▸ List.mem_append_right _ (List.mem_cons_self ..)
  revert hcolon
  decide

/-- An unstamped row has the key of a stamp when its destination reads like it. -/
theorem join_eq_stamp_iff {r : Record} {stamp : String} :
    "amqp:" ++ (r.exchange ++ (":" ++ r.routingKey)) = "amqp:" ++ ("tenant" ++ (":" ++ stamp)) ↔
      ReadsAsStamp r stamp := by
  rw [join_eq_iff]
  constructor
  · rintro (h | h | h)
    · exact .inl h
    · exact absurd h (not_shiftedText_tenant _ _ _)
    · exact .inr h
  · rintro (h | h)
    · exact .inl h
    · exact .inr (.inr h)

/-- A pair cannot cut its own text later. -/
theorem not_shiftedText_self (a b : String) : ¬ShiftedText a b a b := by
  rintro ⟨m, hm, -⟩
  have := congrArg List.length hm
  rw [List.length_append, List.length_cons] at this
  omega

/-- **The keys separate scopes.** Two rows of the AMQP lane have the same key exactly when they
compete, if and only if their keys do not collide. -/
theorem amqpPlan_key_iff (r₁ r₂ : Record) (h₁ h₂ : Headers) :
    ((amqpPlan r₁ h₁).key = (amqpPlan r₂ h₂).key ↔ SameScope r₁ h₁ r₂ h₂) ↔
      KeysApart r₁ h₁ r₂ h₂ := by
  unfold KeysApart SameScope
  by_cases hs₁ : stampOf h₁ = "" <;> by_cases hs₂ : stampOf h₂ = ""
  · -- two destinations
    rw [amqpPlan_key_of_no_stamp hs₁, amqpPlan_key_of_no_stamp hs₂, join_eq_iff, if_pos hs₁,
      if_pos hs₂]
    constructor
    · intro h
      refine ⟨fun hshift ↦ ?_, fun hshift ↦ ?_⟩
      · rcases h.1 (.inr (.inl hshift)) with ⟨hne, -⟩ | ⟨-, -, hex, hrk⟩
        · exact hne hs₁
        · rw [hex, hrk] at hshift
          exact not_shiftedText_self _ _ hshift
      · rcases h.1 (.inr (.inr hshift)) with ⟨hne, -⟩ | ⟨-, -, hex, hrk⟩
        · exact hne hs₁
        · rw [hex, hrk] at hshift
          exact not_shiftedText_self _ _ hshift
    · rintro ⟨hn₁, hn₂⟩
      constructor
      · rintro (heq | h | h)
        · exact .inr ⟨hs₁, hs₂, heq⟩
        · exact absurd h hn₁
        · exact absurd h hn₂
      · rintro (⟨hne, -⟩ | ⟨-, -, heq⟩)
        · exact absurd hs₁ hne
        · exact .inl heq
  · -- a destination and a stamp never compete
    rw [amqpPlan_key_of_no_stamp hs₁, amqpPlan_key_of_stamp hs₂, join_eq_stamp_iff, if_pos hs₁,
      if_neg hs₂]
    have hscope : ¬SameScope r₁ h₁ r₂ h₂ := by
      rintro (⟨hne, -⟩ | ⟨-, heq, -⟩)
      · exact hne hs₁
      · exact hs₂ heq
    exact ⟨fun h hread ↦ hscope (h.1 hread), fun h ↦ ⟨fun hread ↦ absurd hread h,
      fun hsame ↦ absurd hsame hscope⟩⟩
  · rw [amqpPlan_key_of_stamp hs₁, amqpPlan_key_of_no_stamp hs₂, eq_comm, join_eq_stamp_iff,
      if_neg hs₁, if_pos hs₂]
    have hscope : ¬SameScope r₁ h₁ r₂ h₂ := by
      rintro (⟨-, heq⟩ | ⟨heq, -⟩)
      · exact hs₁ (heq.trans hs₂)
      · exact hs₁ heq
    exact ⟨fun h hread ↦ hscope (h.1 hread), fun h ↦ ⟨fun hread ↦ absurd hread h,
      fun hsame ↦ absurd hsame hscope⟩⟩
  · -- two stamps
    rw [amqpPlan_key_of_stamp hs₁, amqpPlan_key_of_stamp hs₂, if_neg hs₁, if_neg hs₂,
      String.append_right_inj, String.append_right_inj, String.append_right_inj]
    refine ⟨fun _ ↦ trivial, fun _ ↦ ⟨fun heq ↦ .inl ⟨hs₁, heq⟩, ?_⟩⟩
    rintro (⟨-, heq⟩ | ⟨heq, -⟩)
    · exact heq
    · exact absurd heq hs₁

/-- Rows that do not compete and share a key: a row to the exchange `tenant` with a stamped row, and
rows to the exchanges `a:b` and `a`. -/
theorem amqpPlan_key_collides :
    let stamped : Headers := (∅ : Headers).insert tenantStampHeader (.str "acme")
    ((amqpPlan (amqpRow "1" "tenant" "acme" 1) ∅).key =
        (amqpPlan (amqpRow "2" "e" "k" 2) stamped).key ∧
      ¬SameScope (amqpRow "1" "tenant" "acme" 1) ∅ (amqpRow "2" "e" "k" 2) stamped) ∧
    ((amqpPlan (amqpRow "1" "a:b" "c" 1) ∅).key = (amqpPlan (amqpRow "2" "a" "b:c" 2) ∅).key ∧
      ¬SameScope (amqpRow "1" "a:b" "c" 1) ∅ (amqpRow "2" "a" "b:c" 2) ∅) := by
  refine ⟨⟨rfl, ?_⟩, rfl, ?_⟩
  · rintro (⟨hne, -⟩ | ⟨-, heq, -⟩)
    · exact hne rfl
    · exact absurd heq (by decide)
  · rintro (⟨hne, -⟩ | ⟨-, -, heq, -⟩)
    · exact hne rfl
    · exact absurd heq (by decide)

end Outbox
