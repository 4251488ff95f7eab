import GoBricks.Lib.Segments
import GoBricks.Lib.Text

/-!
# Route templates

Routes are registered under path templates with parameters and a wildcard. `routeNodeKey` names the
node of echo's router that a method and a template land on: parameters lose their names, and nothing
counts after the wildcard.

`underPrefix` says that a template is at or below another one: `underPrefix_iff`.
-/

open Text List

namespace Server

/-! ### Paths -/

/-- What separates segments. -/
def slash : UInt8 := 0x2F

/-- A path starts with a slash. -/
def ensureLeadingSlash (path : Bytes) : Bytes :=
  if path = [] then [slash] else if path.head? = some slash then path else slash :: path

/-- A prefix starts with a slash and does not end with one. -/
def normalizePrefix (pre : Bytes) : Bytes :=
  if pre = [] ∨ pre = [slash] then []
  else
    let pre := if pre.head? = some slash then pre else slash :: pre
    (pre.reverse.dropWhile (· == slash)).reverse

/-- What follows a prefix in a path that is under it. -/
def stripPathPrefix (path pre : Bytes) : Option Bytes :=
  if pre = [] then none
  else if !pre.isPrefixOf path then none
  else
    let remainder := path.drop pre.length
    if remainder = [] then some []
    else if remainder.head? = some slash then some remainder
    else none

/-- A path is at or below a prefix. -/
def underPrefix (path pre : Bytes) : Bool :=
  (stripPathPrefix path pre).isSome

/-- A path is at or below another one. -/
def AtOrBelow (path pre : Bytes) : Prop :=
  pre ≠ [] ∧ Segments.Below slash path pre

/-- What the comparison of prefixes decides. -/
theorem underPrefix_iff {path pre : Bytes} : underPrefix path pre ↔ AtOrBelow path pre := by
  rw [underPrefix, stripPathPrefix, AtOrBelow, Segments.below_iff]
  by_cases hne : pre = []
  · simp [hne]
  · by_cases hpre : pre.isPrefixOf path
    · obtain ⟨rest, rfl⟩ := isPrefixOf_iff_prefix.mp hpre
      cases rest with
      | nil => simp [hne]
      | cons c rest =>
        by_cases hc : c = slash
        · simp [hne, hc]
        · simp [hne, hc]
    · have hpre' : ¬pre <+: path := fun h ↦ hpre ( isPrefixOf_iff_prefix.mpr h)
      have hnot : ¬(path = pre ∨ ∃ rest, path = pre ++ slash :: rest) := by
        rintro (rfl | ⟨rest, rfl⟩)
        · exact hpre' (prefix_refl _)
        · exact hpre' (prefix_append _ _)
      simp [hpre, hnot]

/-! ### Templates -/

/-- What a part of a template is. -/
inductive RoutePartKind
  | static
  | param
  | wildcard
  deriving DecidableEq

/-- A colon that no backslash escapes opens a parameter. -/
def isParamStart (before : Option UInt8) (text : Bytes) : Bool :=
  text.head? == some 0x3A && before != some 0x5C

/-- Whether the text after an escaped colon stays static to the end of its segment. -/
def isInlineVerb (before : Option UInt8) : Bytes → Bool
  | [] => true
  | c :: text =>
    if c = slash then true
    else if c = 0x2A || isParamStart before (c :: text) then false
    else isInlineVerb (some c) text

/-- The length of a parameter's name, which so far holds no colon and no star if it is `plain`. -/
def paramNameEnd (plain : Bool) : Bytes → ℕ
  | [] => 0
  | c :: text =>
    if c = slash then 0
    else if c = 0x5C && plain && text.head? == some 0x3A && isInlineVerb none (text.drop 1) then 0
    else paramNameEnd (plain && c != 0x3A && c != 0x2A) text + 1

/-- The length of the static text at a position. -/
def staticEnd (before : UInt8) : Bytes → ℕ
  | [] => 0
  | c :: text =>
    if c = 0x2A || isParamStart (some before) (c :: text) then 0 else staticEnd c text + 1

/-- The parts of a template from a position on. -/
def walkRouteTemplate (before : Option UInt8) : Bytes → List (RoutePartKind × Bytes)
  | [] => []
  | c :: text =>
    if isParamStart before (c :: text) then
      let n := paramNameEnd true text
      (.param, c :: text.take n) :: walkRouteTemplate (c :: text.take n).getLast? (text.drop n)
    else if c = 0x2A then [(.wildcard, [c])]
    else
      let n := staticEnd c text
      (.static, c :: text.take n) :: walkRouteTemplate (c :: text.take n).getLast? (text.drop n)
  termination_by text => text.length
  decreasing_by
  all_goals
    rw [List.length_drop, List.length_cons]
    omega

/-- The parts of a path's template. -/
def routeParts (path : Bytes) : List (RoutePartKind × Bytes) :=
  walkRouteTemplate none (ensureLeadingSlash path)

/-- The method and the parts, parameters without their names. -/
def routeNodeKey (method path : Bytes) : Bytes :=
  method ++ ascii " " ++
    (routeParts path).flatMap fun part ↦ if part.1 = .param then [0x3A] else part.2

/-- A template without parameters and wildcard. -/
def isStaticTemplate (path : Bytes) : Bool :=
  (routeParts path).all fun part ↦ part.1 = .static

/-! ### Node keys -/

/-- A part without the name of its parameter. -/
def eraseName (part : RoutePartKind × Bytes) : RoutePartKind × Bytes :=
  if part.1 = .param then (.param, [0x3A]) else part

/-- The parts are those of a template up to and including its first wildcard, which is the first
star outside of parameters. -/
def UpToWildcard (template : Bytes) (parts : List (RoutePartKind × Bytes)) : Prop :=
  ∃ before rest, template = parts.flatMap Prod.snd ++ rest ∧
    (parts = before ∧ rest = [] ∨ parts = before ++ [(.wildcard, [0x2A])]) ∧
    ∀ part ∈ before, part.1 ≠ .wildcard ∧ (part.1 = .static → 0x2A ∉ part.2)

/-- A part in front that is no wildcard. -/
theorem UpToWildcard.cons {template : Bytes} {parts : List (RoutePartKind × Bytes)}
    (h : UpToWildcard template parts) (part : RoutePartKind × Bytes)
    (hpart : part.1 ≠ .wildcard ∧ (part.1 = .static → 0x2A ∉ part.2)) :
    UpToWildcard (part.2 ++ template) (part :: parts) := by
  obtain ⟨before, rest, rfl, hparts, hbefore⟩ := h
  refine ⟨part :: before, rest, ?_, ?_, forall_mem_cons.mpr ⟨hpart, hbefore⟩⟩
  · rw [flatMap_cons, append_assoc]
  · exact hparts.imp (And.imp_left (congrArg _)) (congrArg _)

theorem star_notMem_static (before : UInt8) (text : Bytes) :
    0x2A ∉ text.take (staticEnd before text) := by
  induction text generalizing before with
  | nil => exact not_mem_nil
  | cons c text ih =>
    rw [staticEnd]
    split_ifs with hc
    · exact not_mem_nil
    · rw [take_succ_cons, mem_cons, not_or]
      exact ⟨fun h ↦ hc (by simp [← h]), ih c⟩

/-- The walk covers the template up to its wildcard. -/
theorem upToWildcard_walkRouteTemplate (before : Option UInt8) (template : Bytes) :
    UpToWildcard template (walkRouteTemplate before template) := by
  fun_induction walkRouteTemplate before template with
  | case1 => exact ⟨[], [], rfl, .inl ⟨rfl, rfl⟩, nofun⟩
  | case2 before c text hparam n ih =>
    have h := ih.cons (.param, c :: text.take n) ⟨nofun, nofun⟩
    rwa [cons_append, take_append_drop] at h
  | case3 before text hparam => exact ⟨[], text, rfl, .inr rfl, nofun⟩
  | case4 before c text hparam hstar n ih =>
    have hnot : 0x2A ∉ c :: text.take n :=
      mt mem_cons.mp (not_or.mpr ⟨Ne.symm hstar, star_notMem_static c text⟩)
    have h := ih.cons (.static, c :: text.take n) ⟨nofun, fun _ ↦ hnot⟩
    rwa [cons_append, take_append_drop] at h

/-- The parts of a template from a position on, without the names of parameters. -/
def erasedParts (before : Option UInt8) (template : Bytes) : List (RoutePartKind × Bytes) :=
  (walkRouteTemplate before template).map eraseName

variable {before : Option UInt8} {c : UInt8} {text : Bytes}

/-- Only a colon asks for what stands before it. -/
theorem erasedParts_eq_none (h : text.head? ≠ some 0x3A) :
    erasedParts before text = erasedParts none text := by
  have hparam (b : Option UInt8) : isParamStart b text = false := by simp [isParamStart, h]
  cases text with
  | nil => rw [erasedParts, erasedParts, walkRouteTemplate, walkRouteTemplate]
  | cons c text =>
    rw [erasedParts, erasedParts, walkRouteTemplate, walkRouteTemplate, hparam, hparam]

/-- A name ends where no parameter can begin. -/
theorem head_drop_paramNameEnd (plain : Bool) (text : Bytes) :
    (text.drop (paramNameEnd plain text)).head? ≠ some 0x3A := by
  induction text generalizing plain with
  | nil => exact nofun
  | cons c text ih =>
    rw [paramNameEnd]
    split_ifs with hslash hverb
    · simp [hslash, slash]
    · simp only [Bool.and_eq_true, decide_eq_true_eq] at hverb
      simp [hverb.1.1.1]
    · exact ih _

/-- A parameter is erased to its colon. -/
theorem erasedParts_param (h : isParamStart before (c :: text)) : erasedParts before (c :: text) =
    (.param, [0x3A]) :: erasedParts none (text.drop (paramNameEnd true text)) := by
  rw [← erasedParts_eq_none (head_drop_paramNameEnd true text), erasedParts, walkRouteTemplate,
    if_pos h]
  rfl

/-- A static part is kept. -/
theorem erasedParts_static (h : ¬isParamStart before (c :: text)) (hc : c ≠ 0x2A) :
    erasedParts before (c :: text) = (.static, c :: text.take (staticEnd c text)) ::
      erasedParts (c :: text.take (staticEnd c text)).getLast? (text.drop (staticEnd c text)) := by
  rw [erasedParts, walkRouteTemplate, if_neg h, if_neg hc]
  rfl

/-- A wildcard ends the walk. -/
theorem erasedParts_star : erasedParts before (0x2A :: text) = [(.wildcard, [0x2A])] := by
  rw [erasedParts, walkRouteTemplate, if_neg (by simp [isParamStart]), if_pos rfl]
  rfl

/-- Erasing keeps the first byte. -/
theorem head_erasedParts (before : Option UInt8) (template : Bytes) :
    ((erasedParts before template).flatMap Prod.snd).head? = template.head? := by
  cases template with
  | nil => rw [erasedParts, walkRouteTemplate]; rfl
  | cons c text =>
    by_cases h : isParamStart before (c :: text)
    · have hc : c = 0x3A := by simp_all [isParamStart]
      rw [erasedParts_param h, hc]
      rfl
    · by_cases hc : c = 0x2A
      · rw [hc, erasedParts_star]
        rfl
      · rw [erasedParts_static h hc]
        rfl

/-- Static text ends at the same place whatever follows, so long as it begins alike. -/
theorem staticEnd_take_append {r : Bytes} (before : UInt8)
    (h : r.head? = (text.drop (staticEnd before text)).head?) :
    staticEnd before (text.take (staticEnd before text) ++ r) =
      (text.take (staticEnd before text)).length := by
  induction text generalizing before with
  | nil =>
    rw [List.head?_eq_none_iff.mp h]
    rfl
  | cons c text ih =>
    rw [staticEnd] at h ⊢
    split_ifs at h ⊢ with hc
    · obtain ⟨r, rfl⟩ := List.head?_eq_some_iff.mp h
      exact if_pos hc
    · rw [take_succ_cons, cons_append, length_cons, ← ih c h]
      exact if_neg hc

/-- **The text of a key has its parts.** -/
theorem erasedParts_inj (before : Option UInt8) (template template' : Bytes)
    (h : (erasedParts before template).flatMap Prod.snd =
      (erasedParts before template').flatMap Prod.snd) :
    erasedParts before template = erasedParts before template' := by
  have hhead := (head_erasedParts before template).symm.trans
    ((congrArg _ h).trans (head_erasedParts before template'))
  match template with
  | [] => rw [List.head?_eq_none_iff.mp hhead.symm]
  | c :: text =>
    obtain ⟨text', rfl⟩ := List.head?_eq_some_iff.mp hhead.symm
    by_cases hparam : isParamStart before (c :: text)
    · have hparam' : isParamStart before (c :: text') := hparam
      rw [erasedParts_param hparam, erasedParts_param hparam'] at h ⊢
      rw [erasedParts_inj none _ _ (List.cons.inj h).2]
    · have hparam' : ¬isParamStart before (c :: text') := hparam
      by_cases hc : c = 0x2A
      · rw [hc, erasedParts_star, erasedParts_star]
      · rw [erasedParts_static hparam hc, erasedParts_static hparam' hc] at h ⊢
        have hkey := (List.cons.inj h).2
        have hend := staticEnd_take_append c (head_erasedParts
          (c :: text.take (staticEnd c text)).getLast? (text.drop (staticEnd c text)))
        have hend' := staticEnd_take_append c (head_erasedParts
          (c :: text'.take (staticEnd c text')).getLast? (text'.drop (staticEnd c text')))
        obtain ⟨htake, hrest⟩ := append_inj hkey
          (hend.symm.trans ((congrArg (staticEnd c) hkey).trans hend'))
        rw [htake] at hrest ⊢
        rw [erasedParts_inj _ _ _ hrest]
  termination_by template.length
  decreasing_by
  all_goals
    rw [length_drop, length_cons]
    omega

/-- The key of a route. -/
theorem routeNodeKey_eq (method path : Bytes) : routeNodeKey method path =
    method ++ 0x20 :: (erasedParts none (ensureLeadingSlash path)).flatMap Prod.snd := by
  rw [routeNodeKey, erasedParts, flatMap_map, append_assoc]
  refine congrArg (method ++ 0x20 :: ·) (flatMap_congr fun part _ ↦ ?_)
  rw [eraseName]
  split <;> rfl

/-- **A node key has the method and the parts.** The texts of the parts are the template up to its
first wildcard; and two keys are the same if and only if the methods are, and the parts but for the
names of parameters. -/
theorem routeNodeKey_identifies :
    (∀ path, UpToWildcard (ensureLeadingSlash path) (routeParts path)) ∧
    ∀ method method' path path' : Bytes, 0x20 ∉ method → 0x20 ∉ method' →
      (routeNodeKey method path = routeNodeKey method' path' ↔
        method = method' ∧ (routeParts path).map eraseName = (routeParts path').map eraseName) := by
  refine ⟨fun path ↦ upToWildcard_walkRouteTemplate none _, ?_⟩
  intro method method' path path' hmethod hmethod'
  rw [routeNodeKey_eq, routeNodeKey_eq]
  constructor
  · intro h
    have hcut := congrArg (cut 0x20) h
    rw [cut_append hmethod, cut_append hmethod'] at hcut
    obtain ⟨rfl, hkey⟩ := Prod.mk.inj (Option.some.inj hcut)
    exact ⟨rfl, erasedParts_inj none _ _ hkey⟩
  · rintro ⟨rfl, hparts⟩
    change erasedParts none _ = erasedParts none _ at hparts
    rw [hparts]

/-- The names of parameters do not matter to the router. -/
theorem routeNodeKey_identifies_users : 0x20 ∉ ascii "GET" ∧
    routeNodeKey (ascii "GET") (ascii "/users/:id/*") =
      routeNodeKey (ascii "GET") (ascii "users/:uid/*rest") := by
  have hmethod : 0x20 ∉ ascii "GET" := by decide
  refine ⟨hmethod, (routeNodeKey_identifies.2 _ _ _ _ hmethod hmethod).mpr ⟨rfl, ?_⟩⟩
  decide +kernel

end Server
