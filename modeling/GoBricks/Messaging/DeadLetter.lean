import GoBricks.Lib.Wildcard
import GoBricks.Messaging.Declarations

/-!
# Where dead letters go

`topic_match.go` and `dead_letter_topology.go`: whether a binding of a topic exchange delivers a
message, and whether the declaration set shows that the dead letters of a queue are dropped.

`topicMatches` is the scan of `Wildcard` on the words of a text. For a routing key that is given and
an exchange whose routing can be seen, there is no error if and only if some binding delivers a
message with that key (`deadLetterRouteError_iff`).
-/

open Text

namespace Topology

/-! ### Topics -/

/-- What separates words. -/
def dot : UInt8 := 0x2E

/-- The words of a routing key or a pattern. The empty text has none. -/
def topicWords (s : Bytes) : List Bytes :=
  if s = [] then [] else s.splitOn dot

/-- The word for any number of words. -/
def isHash (word : Bytes) : Bool :=
  word = ascii "#"

/-- A word of a pattern and one of a key: a star, or the same. -/
def wordMatches (word key : Bytes) : Bool :=
  word = ascii "*" || word = key

/-- `topicWordsMatch` walks the pattern one word at a time. -/
def topicWordsMatch (pattern key : List Bytes) : Bool :=
  Wildcard.scan isHash wordMatches pattern key

/-- A key matches a pattern. -/
def topicMatches (pattern key : Bytes) : Bool :=
  topicWordsMatch (topicWords pattern) (topicWords key)

/-- The words of a key that a word of a pattern can be assigned. -/
inductive TopicTakes : Bytes → List Bytes → Prop
  | hash (words : List Bytes) : TopicTakes (ascii "#") words
  | star (word : Bytes) : TopicTakes (ascii "*") [word]
  | word {word : Bytes} : word ≠ ascii "#" → word ≠ ascii "*" → TopicTakes word [word]

/-- The words of a key can be assigned to the words of a pattern in order. -/
def TopicAssigned (pattern key : List Bytes) : Prop :=
  ∃ parts : List (List Bytes), parts.flatten = key ∧ List.Forall₂ TopicTakes pattern parts

/-- What a word of a pattern takes. -/
theorem takes_iff (word : Bytes) (part : List Bytes) :
    Wildcard.Takes isHash wordMatches word part ↔ TopicTakes word part := by
  constructor
  · rintro (hhash | ⟨hhash, a, rfl, hfits⟩)
    · rw [of_decide_eq_true hhash]
      exact .hash part
    · have hne : word ≠ ascii "#" := of_decide_eq_false hhash
      by_cases hstar : word = ascii "*"
      · rw [hstar]
        exact .star a
      · have hsame : word = a := by simpa [wordMatches, hstar] using hfits
        rw [← hsame]
        exact .word hne hstar
  · intro h
    cases h with
    | hash => exact .inl (by decide)
    | star a => exact .inr ⟨by decide, a, rfl, by simp [wordMatches]⟩
    | word hne _ => exact .inr ⟨decide_eq_false hne, word, rfl, by simp [wordMatches]⟩

/-- The match of topics is an assignment of the words. -/
theorem topicWordsMatch_iff (pattern key : List Bytes) :
    topicWordsMatch pattern key = true ↔ TopicAssigned pattern key := by
  rw [topicWordsMatch, Wildcard.scan_iff, Wildcard.Matches, TopicAssigned]
  have htakes : Wildcard.Takes isHash wordMatches = TopicTakes :=
    funext fun word ↦ funext fun part ↦ propext (takes_iff word part)
  rw [htakes]

/-! ### Dead letters -/

/-- `direct` -/
def exchangeTypeDirect : Bytes := ascii "direct"

/-- `topic` -/
def exchangeTypeTopic : Bytes := ascii "topic"

/-- `fanout` -/
def exchangeTypeFanout : Bytes := ascii "fanout"

/-- The argument that names the dead letter exchange. -/
def argDeadLetterExchange : Bytes := ascii "x-dead-letter-exchange"

/-- The argument that replaces the routing key. -/
def argDeadLetterRoutingKey : Bytes := ascii "x-dead-letter-routing-key"

/-- The argument that names an exchange for what is not routed. -/
def argAlternateExchange : Bytes := ascii "alternate-exchange"

/-- Why the dead letters of a queue are dropped, by the number of the rule. -/
inductive RouteError
  /-- Rule 2: the exchange is not declared. -/
  | absent (queue dlx : Bytes)
  /-- Rule 4: nothing is bound to the exchange. -/
  | unbound (queue type dlx : Bytes)
  /-- Rule 5: no binding matches the routing key. -/
  | unmatched (queue type dlx key : Bytes)
  /-- Rule 6: there is no routing key, and every binding has the empty one. -/
  | keyless (queue type dlx : Bytes)
  deriving DecidableEq

section DeadLetter

variable {O : Type}

/-- `absentReference` for an exchange. -/
def absentExchange (quote : Bytes → Bytes) (kind name suffix : Bytes) : Bytes :=
  kind ++ ascii " references exchange " ++ quote name ++
    ascii (", absent from this declaration set (a local check; the broker was not contacted): " ++
      "declare it, or mark it external with DeclareExternalExchange when another service owns " ++
      "it") ++ suffix

/-- The text of an error. -/
def RouteError.text (quote : Bytes → Bytes) : RouteError → Bytes
  | .absent queue dlx =>
    absentExchange quote (ascii "queue " ++ quote queue ++ ascii "'s x-dead-letter-exchange") dlx
      (ascii " (dead-letter rule 2)")
  | .unbound queue type dlx =>
    deadLetters queue type dlx ++
      ascii (", which has no binding in this declaration set (dead-letter rule 4), so every " ++
        "dead-lettered message is dropped: declare the parking queue and its binding, or let " ++
        "DeclareQueueWithDLQ own the route; when another service owns the parking side, it " ++
        "declares the exchange and this service marks it external with DeclareExternalExchange")
  | .unmatched queue type dlx key =>
    deadLetters queue type dlx ++ ascii " with routing key " ++ quote key ++
      ascii (", which no binding to it matches (dead-letter rule 5): bind a key that matches " ++
        "it, or declare the exchange fanout")
  | .keyless queue type dlx =>
    deadLetters queue type dlx ++
      ascii (" with no x-dead-letter-routing-key, and every binding to it has the key \"\" " ++
        "(dead-letter rule 6): a dead-lettered message keeps its original routing key, so it is " ++
        "dropped unless that key is \"\"; declare the exchange fanout, bind a key the messages " ++
        "carry, or set x-dead-letter-routing-key to a bound key")
where
  deadLetters (queue type dlx : Bytes) : Bytes :=
    ascii "queue " ++ quote queue ++ ascii " dead-letters to " ++ type ++ ascii " exchange " ++
      quote dlx

/-- The declarations alone say where messages go. -/
def routingIsVisible (exchange : ExchangeDeclaration (Args O)) : Bool :=
  if (exchange.args.lookup argAlternateExchange).isSome then false
  else exchange.type = exchangeTypeFanout || exchange.type = exchangeTypeDirect ||
    exchange.type = exchangeTypeTopic

/-- The keys of the bindings of an exchange. -/
def bindingKeysTo (d : Declarations (Args O)) (exchange : Bytes) : List Bytes :=
  (d.bindings.filter (·.exchange = exchange)).map (·.routingKey)

/-- Whether a binding of a direct or a topic exchange delivers a message. -/
def bindingMatches (exchangeType bound key : Bytes) : Bool :=
  if exchangeType = exchangeTypeTopic then topicMatches bound key else bound = key

/-- The error of a route whose exchange is declared and whose routing can be seen. -/
def visibleRouteError (d : Declarations (Args O)) (queue dlx : Bytes) (key : Option Bytes)
    (exchange : ExchangeDeclaration (Args O)) : Option RouteError :=
  let keys := bindingKeysTo d dlx
  if keys = [] then some (.unbound queue exchange.type dlx)
  else if exchange.type = exchangeTypeFanout then none
  else
    match key with
    | some key =>
      if keys.any (bindingMatches exchange.type · key) then none
      else some (.unmatched queue exchange.type dlx key)
    | none => if keys.any (· ≠ []) then none else some (.keyless queue exchange.type dlx)

/-- The dead-letter route of one queue. What is not a text is not judged. -/
def deadLetterRouteError (d : Declarations (Args O)) (queue : Bytes) (args : Args O) :
    Option RouteError :=
  match args.lookup argDeadLetterExchange with
  | some (.string dlx) =>
    if dlx = [] then none
    else
      match args.lookup argDeadLetterRoutingKey with
      | none => judge dlx none
      | some (.string key) => judge dlx (some key)
      | some _ => none
  | _ => none
where
  judge (dlx : Bytes) (key : Option Bytes) : Option RouteError :=
    match d.exchanges.lookup dlx with
    | none => some (.absent queue dlx)
    | some exchange =>
      if routingIsVisible exchange then visibleRouteError d queue dlx key exchange else none

/-- What a binding to an exchange delivers, by the type of the exchange. -/
def Delivers (type bound key : Bytes) : Prop :=
  type = exchangeTypeFanout ∨ type = exchangeTypeDirect ∧ bound = key ∨
    type = exchangeTypeTopic ∧ TopicAssigned (topicWords bound) (topicWords key)

/-- What a binding matches is what the broker delivers. -/
theorem bindingMatches_iff {type bound key : Bytes} (hfanout : type ≠ exchangeTypeFanout)
    (htype : type = exchangeTypeDirect ∨ type = exchangeTypeTopic) :
    bindingMatches type bound key = true ↔ Delivers type bound key := by
  rw [bindingMatches, Delivers]
  rcases htype with rfl | rfl
  · have hne : exchangeTypeDirect ≠ exchangeTypeTopic := by decide
    simp [hfanout, hne]
  · have hne : exchangeTypeTopic ≠ exchangeTypeDirect := by decide
    rw [if_pos rfl, topicMatches, topicWordsMatch_iff]
    simp [hfanout, hne]

/-- The keys that are bound to an exchange. -/
theorem mem_bindingKeysTo {d : Declarations (Args O)} {exchange key : Bytes} :
    key ∈ bindingKeysTo d exchange ↔
      ∃ b ∈ d.bindings, b.exchange = exchange ∧ b.routingKey = key := by
  simp [bindingKeysTo, and_assoc]

/-- A route with a routing key to an exchange whose routing can be seen. -/
theorem visibleRouteError_eq_none_iff {d : Declarations (Args O)} {queue dlx key : Bytes}
    {exchange : ExchangeDeclaration (Args O)} (hvisible : routingIsVisible exchange) :
    visibleRouteError d queue dlx (some key) exchange = none ↔
      ∃ b ∈ d.bindings, b.exchange = dlx ∧ Delivers exchange.type b.routingKey key := by
  have hexists : (∃ bound ∈ bindingKeysTo d dlx, Delivers exchange.type bound key) ↔
      ∃ b ∈ d.bindings, b.exchange = dlx ∧ Delivers exchange.type b.routingKey key := by
    simp only [mem_bindingKeysTo]
    constructor
    · rintro ⟨_, ⟨b, hb, hdlx, rfl⟩, hdelivers⟩
      exact ⟨b, hb, hdlx, hdelivers⟩
    · rintro ⟨b, hb, hdlx, hdelivers⟩
      exact ⟨_, ⟨b, hb, hdlx, rfl⟩, hdelivers⟩
  rw [← hexists, visibleRouteError]
  split
  · next hnil => simp [hnil]
  · next hkeys =>
    split
    · next hfanout =>
      obtain ⟨bound, hbound⟩ := List.exists_mem_of_ne_nil _ hkeys
      exact iff_of_true rfl ⟨bound, hbound, .inl hfanout⟩
    · next hfanout =>
      have htype : exchange.type = exchangeTypeDirect ∨ exchange.type = exchangeTypeTopic := by
        rw [routingIsVisible] at hvisible
        split at hvisible
        · cases hvisible
        · simpa [hfanout] using hvisible
      have hany : (bindingKeysTo d dlx).any (bindingMatches exchange.type · key) = true ↔
          ∃ bound ∈ bindingKeysTo d dlx, Delivers exchange.type bound key := by
        simp only [List.any_eq_true, bindingMatches_iff hfanout htype]
      rw [← hany]
      split
      · next hmatch => exact iff_of_true rfl hmatch
      · next hmatch => exact iff_of_false (Option.some_ne_none _) hmatch

end DeadLetter

/-- `topicMatches` holds if and only if the words of the key can be assigned to those of the
pattern. So the dead letters that a queue sends with a given routing key to an exchange whose
routing can be seen are found to be routed if and only if some binding delivers a message with that
key. -/
theorem deadLetterRouteError_iff :
    (∀ pattern key : Bytes, topicMatches pattern key = true ↔
      TopicAssigned (topicWords pattern) (topicWords key)) ∧
    ∀ {O : Type} (d : Declarations (Args O)) (queue dlx key : Bytes) (args : Args O)
      (exchange : ExchangeDeclaration (Args O)),
      args.lookup argDeadLetterExchange = some (.string dlx) → dlx ≠ [] →
      args.lookup argDeadLetterRoutingKey = some (.string key) →
      d.exchanges.lookup dlx = some exchange →
      (exchange.type = exchangeTypeFanout ∨ exchange.type = exchangeTypeDirect ∨
        exchange.type = exchangeTypeTopic) →
      exchange.args.lookup argAlternateExchange = none →
      (deadLetterRouteError d queue args = none ↔
        ∃ b ∈ d.bindings, b.exchange = dlx ∧ Delivers exchange.type b.routingKey key) := by
  refine ⟨fun pattern key ↦ topicWordsMatch_iff _ _, ?_⟩
  intro O d queue dlx key args exchange hdlx hne hkey hexchange htype halternate
  have hvisible : routingIsVisible exchange := by
    rw [routingIsVisible, halternate]
    simpa [or_assoc] using htype
  have hjudge : deadLetterRouteError d queue args =
      visibleRouteError d queue dlx (some key) exchange := by
    rw [deadLetterRouteError, hdlx]
    dsimp only
    rw [if_neg hne, hkey]
    dsimp only
    rw [deadLetterRouteError.judge, hexchange]
    exact if_pos hvisible
  rw [hjudge, visibleRouteError_eq_none_iff hvisible]

/-- A queue that parks its dead letters under `dead.orders` with a topic exchange. -/
theorem deadLetterRouteError_iff_topic :
    let args : Args Empty := AList.insert argDeadLetterExchange (.string (ascii "dlx"))
      (AList.insert argDeadLetterRoutingKey (.string (ascii "dead.orders")) ∅)
    let dlx : ExchangeDeclaration (Args Empty) :=
      ⟨ascii "dlx", exchangeTypeTopic, true, false, false, false, ∅, false⟩
    let d : Declarations (Args Empty) :=
      { exchanges := AList.insert (ascii "dlx") dlx ∅
        bindings := [⟨ascii "parked", ascii "dlx", ascii "#.orders", false, ∅⟩] }
    deadLetterRouteError d (ascii "orders") args = none ∧
      ∃ b ∈ d.bindings, b.exchange = ascii "dlx" ∧
        Delivers dlx.type b.routingKey (ascii "dead.orders") := by
  intro args dlx d
  have hnone : deadLetterRouteError d (ascii "orders") args = none := by decide +kernel
  refine ⟨hnone, ?_⟩
  exact (deadLetterRouteError_iff.2 d (ascii "orders") (ascii "dlx") (ascii "dead.orders") args dlx
    rfl (by decide) rfl rfl (.inr (.inr rfl)) rfl).1 hnone

end Topology
