import GoBricks.Server.Admission
import Mathlib.Data.List.Nodup
import Mathlib.Data.List.Pairwise

/-!
# Admission does not depend on the order

Each pair of registrations is judged when the second one comes. `Clean` says of the registrations as
a whole, in no order, that none is refused; `admission_sound` says that `seal` returns no conflict
exactly then, that families are apart from each other, and that after the seal nothing trespasses.
-/

open Text List Option

namespace Server

/-! ### What is refused -/

namespace Call

/-- The path of a call. -/
def path : Call → Bytes
  | .route r => r.path
  | .group path _ => path
  | .family full _ => full

/-- A registration of the framework, or a probe. -/
def OfFramework (cfg : Config) : Call → Prop
  | .route r => r.registrant.package ∈ frameworkRootPackages ∨
      r.method ∈ probeMethods ∧ r.registrant.package = serverPackagePath ∧ r.path ∈ cfg.probePaths
  | .group _ pkg => pkg ∈ frameworkRootPackages
  | .family _ pkg => pkg ∈ frameworkRootPackages

/-- A route or a group that is not of a family. -/
def Outside (f : Bytes) : Call → Prop
  | .route r => r.family ≠ some f
  | .group _ _ => True
  | .family _ _ => False

/-- The route of a call. -/
def route? : Call → Option AdmittedRoute
  | .route r => some r
  | _ => none

/-- The conflict of a registration under a family, without the family. -/
def conflict : Call → RouteConflict
  | .route r => tenantOwnedConflict r.method r.path r.registrant
  | .group path pkg => tenantOwnedConflict [] path ⟨"", pkg⟩
  | .family full pkg => tenantOwnedConflict [] full ⟨"", pkg⟩

/-- Routes and groups are recorded for later families. -/
def isRecorded : Call → Bool
  | .family _ _ => false
  | _ => true

theorem conflict_path (c : Call) : c.conflict.path = c.path := by
  cases c <;> rfl

end Call

/-- The key of a route. -/
def AdmittedRoute.key (r : AdmittedRoute) : Bytes :=
  routeNodeKey r.method r.path

/-- The keys of the routes. -/
def routeKeys (calls : List Call) : List Bytes :=
  (calls.filterMap Call.route?).map AdmittedRoute.key

/-- None of the registrations is refused, given the families that were claimed. -/
structure Clean (cfg : Config) (calls : List Call) (families : List Bytes) : Prop where
  methods : ∀ r, .route r ∈ calls → r.method ∉ reservedMethods
  nodes : (routeKeys calls).Nodup
  /-- Only a family's own routes are at or below its prefix. -/
  families : ∀ f ∈ families, ∀ c ∈ calls, c.Outside f → ¬AtOrBelow c.path f
  /-- Only the framework is at or below a framework root. -/
  roots : ∀ c ∈ calls, ∀ root ∈ cfg.frameworkRoots, AtOrBelow c.path root → c.OfFramework cfg

variable {cfg : Config} {calls : List Call} {families : List Bytes}

theorem routeKeys_append (calls : List Call) (c : Call) :
    routeKeys (calls ++ [c]) = routeKeys calls ++ (c.route?.map AdmittedRoute.key).toList := by
  rw [routeKeys, routeKeys, filterMap_append, map_append]
  cases c with
  | route r | group path pkg | family full pkg => rfl

theorem mem_routeKeys {key : Bytes} :
    key ∈ routeKeys calls ↔ ∃ r, .route r ∈ calls ∧ r.key = key := by
  rw [routeKeys, List.mem_map]
  refine exists_congr fun r ↦ and_congr_left fun _ ↦ ?_
  rw [List.mem_filterMap]
  constructor
  · rintro ⟨c, hc, hr⟩
    cases c with
    | route r' =>
      cases hr
      exact hc
    | group path pkg | family full pkg => cases hr
  · exact fun h ↦ ⟨_, h, rfl⟩

/-- Without its last call a clean registration is clean. -/
theorem Clean.of_append {c : Call} (h : Clean cfg (calls ++ [c]) families) :
    Clean cfg calls families where
  methods r hr := h.methods r (mem_append_left _ hr)
  nodes := by
    have := h.nodes
    rw [routeKeys_append] at this
    exact this.of_append_left
  families f hf c hc := h.families f hf c (mem_append_left _ hc)
  roots c hc := h.roots c (mem_append_left _ hc)

/-- Without its last family a clean registration is clean. -/
theorem Clean.of_family {f : Bytes} (h : Clean cfg calls (families ++ [f])) :
    Clean cfg calls families :=
  ⟨h.methods, h.nodes, fun g hg ↦ h.families g (mem_append_left _ hg), h.roots⟩

/-- One more registration, with nothing against it. -/
structure Fits (cfg : Config) (calls : List Call) (families : List Bytes) (c : Call) : Prop where
  method : ∀ r, c = .route r → r.method ∉ reservedMethods
  node : ∀ r, c = .route r → r.key ∉ routeKeys calls
  families : ∀ f ∈ families, c.Outside f → ¬AtOrBelow c.path f
  roots : ∀ root ∈ cfg.frameworkRoots, AtOrBelow c.path root → c.OfFramework cfg

/-- One call more is clean when it fits. -/
theorem clean_append_iff {c : Call} :
    Clean cfg (calls ++ [c]) families ↔ Clean cfg calls families ∧ Fits cfg calls families c := by
  have hlast : c ∈ calls ++ [c] := mem_append_right _ mem_cons_self
  constructor
  · intro h
    refine ⟨h.of_append, fun r hr ↦ ?_, fun r hr ↦ ?_, fun f hf ↦ h.families f hf c hlast,
      h.roots c hlast⟩
    · exact h.methods r (hr ▸ hlast)
    · have hnodes := h.nodes
      rw [routeKeys_append, hr] at hnodes
      intro hmem
      exact (nodup_append.mp hnodes).2.2 _ hmem _ mem_cons_self rfl
  · rintro ⟨h, hfits⟩
    refine ⟨fun r hr ↦ ?_, ?_, fun f hf c' hc' ↦ ?_, fun c' hc' ↦ ?_⟩
    · rcases mem_append.mp hr with hr | hr
      · exact h.methods r hr
      · exact hfits.method r (mem_singleton.mp hr).symm
    · rw [routeKeys_append]
      cases hc : c.route? with
      | none =>
        rw [map_none, toList_none, append_nil]
        exact h.nodes
      | some r =>
        have hcr : c = .route r := by
          cases c with
          | route r' =>
            cases hc
            rfl
          | group path pkg | family full pkg => cases hc
        refine nodup_append.mpr ⟨h.nodes, nodup_singleton _, fun k hk k' hk' heq ↦ ?_⟩
        rw [map_some, toList_some, mem_singleton] at hk'
        exact hfits.node r hcr (hk' ▸ heq ▸ hk)
    · rcases mem_append.mp hc' with hc' | hc'
      · exact h.families f hf c' hc'
      · rw [mem_singleton.mp hc']
        exact hfits.families f hf
    · rcases mem_append.mp hc' with hc' | hc'
      · exact h.roots c' hc'
      · rw [mem_singleton.mp hc']
        exact hfits.roots

/-! ### What the functions do -/

namespace Admission

variable {a : Admission} {c : Call}

/-- One more conflict. -/
def addConflict (a : Admission) (c : RouteConflict) : Admission :=
  { a with conflicts := a.conflicts ++ [c] }

/-- A path without a covering prefix is below none. -/
theorem coveringPrefix_eq_none {path : Bytes} {prefixes : List Bytes} :
    coveringPrefix path prefixes = none ↔ ∀ p ∈ prefixes, ¬AtOrBelow path p := by
  rw [coveringPrefix, List.find?_eq_none]
  exact forall₂_congr fun p _ ↦ not_congr underPrefix_iff

theorem atOrBelow_of_coveringPrefix {path p : Bytes} {prefixes : List Bytes}
    (h : coveringPrefix path prefixes = some p) : p ∈ prefixes ∧ AtOrBelow path p :=
  ⟨mem_of_find?_eq_some h, underPrefix_iff.mp (List.find?_some h)⟩

/-- Who may register under a framework root. -/
theorem exempt_iff : (frameworkRootPackages.contains c.conflict.duplicate.package ||
    isProbe cfg c.conflict) = true ↔ c.OfFramework cfg := by
  have hempty : ([] : Bytes) ∉ probeMethods := by decide
  cases c with
  | route r =>
    simp only [Call.conflict, tenantOwnedConflict, isProbe, Call.OfFramework, Bool.or_eq_true,
      Bool.and_eq_true, List.contains_iff_mem, beq_iff_eq, and_assoc]
  | group path pkg | family full pkg =>
    simp only [Call.conflict, tenantOwnedConflict, isProbe, Call.OfFramework, Bool.or_eq_true,
      Bool.and_eq_true, List.contains_iff_mem, hempty, false_and, or_false]

/-- A refusal is a conflict, or a panic once the server has started. -/
def Refused (a : Admission) (x : Except RouteConflict (Option Admission)) : Prop :=
  a.started = false ∧ (∃ c, x = .ok (some (a.addConflict c))) ∨ a.started ∧ ∃ c, x = .error c

theorem refused_refuseUnder (a : Admission) (c : RouteConflict) (p : Bytes) :
    a.Refused ((a.refuseUnder c p).map some) := by
  rw [refuseUnder]
  by_cases hstarted : a.started
  · exact .inr ⟨hstarted, _, by rw [if_pos hstarted]; rfl⟩
  · exact .inl ⟨Bool.eq_false_of_not_eq_true hstarted, _, by rw [if_neg hstarted]; rfl⟩

/-- A path below a root of the framework is refused to others. -/
theorem refuseFrameworkRoot_cases (cfg : Config) (a : Admission) (c : Call) :
    (∀ root ∈ cfg.frameworkRoots, AtOrBelow c.path root → c.OfFramework cfg) ∧
        a.refuseFrameworkRoot cfg c.conflict = .ok none ∨
      (¬∀ root ∈ cfg.frameworkRoots, AtOrBelow c.path root → c.OfFramework cfg) ∧
        a.Refused (a.refuseFrameworkRoot cfg c.conflict) := by
  rw [refuseFrameworkRoot, c.conflict_path]
  cases hcover : coveringPrefix c.path cfg.frameworkRoots with
  | none =>
    have hnone := coveringPrefix_eq_none.mp hcover
    exact .inl ⟨fun root hroot hbelow ↦ absurd hbelow (hnone root hroot), rfl⟩
  | some root =>
    obtain ⟨hroot, hbelow⟩ := atOrBelow_of_coveringPrefix hcover
    dsimp only
    split
    · next hexempt => exact .inl ⟨fun _ _ _ ↦ exempt_iff.mp hexempt, rfl⟩
    · next hexempt =>
      exact .inr ⟨fun h ↦ hexempt (exempt_iff.mpr (h root hroot hbelow)),
        a.refused_refuseUnder _ root⟩

/-- A path below a family is refused to others. -/
theorem refuseTrespass_cases (a : Admission) (c : Call) :
    (∀ f ∈ a.families, ¬AtOrBelow c.path f) ∧ a.refuseTrespass c.conflict = .ok none ∨
      (∃ f ∈ a.families, AtOrBelow c.path f) ∧ a.Refused (a.refuseTrespass c.conflict) := by
  rw [refuseTrespass, c.conflict_path]
  cases hcover : coveringPrefix c.path a.families with
  | none => exact .inl ⟨coveringPrefix_eq_none.mp hcover, rfl⟩
  | some f => exact .inr ⟨⟨f, atOrBelow_of_coveringPrefix hcover⟩, a.refused_refuseUnder _ f⟩

/-- A route that `claim` admits. -/
structure Admits (cfg : Config) (a : Admission) (r : AdmittedRoute) : Prop where
  method : r.method ∉ reservedMethods
  roots : ∀ root ∈ cfg.frameworkRoots, AtOrBelow r.path root → (Call.route r).OfFramework cfg
  families : r.family = none → ∀ f ∈ a.families, ¬AtOrBelow r.path f
  node : r.key ∉ a.seen.map Prod.fst

/-- The admission with a route. -/
def addRoute (a : Admission) (r : AdmittedRoute) : Admission :=
  { a with
    seen := a.seen ++ [(r.key, ⟨r.registrant, r.path⟩)]
    registered := if a.started then a.registered else a.registered ++ [(Call.route r).conflict] }

theorem mem_seen_addRoute {r : AdmittedRoute} {key : Bytes} :
    key ∈ (a.addRoute r).seen.map Prod.fst ↔
      key ∈ a.seen.map Prod.fst ∨ ∃ r', Call.route r = .route r' ∧ r'.key = key := by
  rw [addRoute, map_append, mem_append, map_singleton, mem_singleton]
  refine or_congr_right ⟨fun h ↦ ⟨r, rfl, h.symm⟩, ?_⟩
  rintro ⟨r', hr, h⟩
  cases hr
  exact h.symm

theorem lookup_eq_none {key : Bytes} : a.lookup key = none ↔ key ∉ a.seen.map Prod.fst := by
  rw [lookup, Option.map_eq_none_iff, List.find?_eq_none, List.mem_map]
  simp only [beq_iff_eq, not_exists, not_and]

/-- What is recorded before the seal, with one more registration. -/
theorem mem_registered_append {x : RouteConflict} (hstarted : a.started = false)
    (hrecorded : c.isRecorded) :
    x ∈ (if a.started then a.registered else a.registered ++ [c.conflict]) ↔
      x ∈ a.registered ∨ c.isRecorded ∧ c.conflict = x := by
  rw [hstarted, if_neg Bool.false_ne_true, List.mem_append, List.mem_singleton,
    and_iff_right hrecorded, eq_comm]

/-- What `claim` does: it admits the route, or refuses it. -/
theorem claim_cases (cfg : Config) (a : Admission) (r : AdmittedRoute) :
    a.Admits cfg r ∧ a.claim cfg r = .ok (a.addRoute r, true) ∨
      ¬a.Admits cfg r ∧ ((∃ c, a.claim cfg r = .ok (a.addConflict c, false)) ∨
        a.started ∧ ∃ c, a.claim cfg r = .error c) := by
  rw [claim]
  split
  · next hmethod => exact .inr ⟨fun h ↦ h.method hmethod, .inl ⟨_, rfl⟩⟩
  · next hmethod =>
    have hconflict : tenantOwnedConflict r.method r.path r.registrant = (Call.route r).conflict :=
      rfl
    simp only [hconflict]
    rcases a.refuseFrameworkRoot_cases cfg (.route r) with ⟨hroots, hok⟩ | ⟨hroots, hno⟩
    · rw [hok]
      -- A route of a family is not asked about families.
      obtain ⟨hfamilies, hok'⟩ | ⟨hfamilies, hno'⟩ :
          (r.family = none → ∀ f ∈ a.families, ¬AtOrBelow r.path f) ∧
            (if r.family.isNone then a.refuseTrespass (Call.route r).conflict else .ok none) =
              .ok none ∨
          (¬(r.family = none → ∀ f ∈ a.families, ¬AtOrBelow r.path f)) ∧
            a.Refused (if r.family.isNone then a.refuseTrespass (Call.route r).conflict
              else .ok none) := by
        cases hfamily : r.family with
        | some f => exact .inl ⟨fun h ↦ absurd h (some_ne_none f), rfl⟩
        | none =>
          rcases a.refuseTrespass_cases (.route r) with ⟨h, hok'⟩ | ⟨⟨f, hf, hbelow⟩, hno'⟩
          · exact .inl ⟨fun _ ↦ h, hok'⟩
          · exact .inr ⟨fun h ↦ h rfl f hf hbelow, hno'⟩
      · rw [hok']
        cases hlookup : a.lookup (routeNodeKey r.method r.path) with
        | none => exact .inl ⟨⟨hmethod, hroots, hfamilies, lookup_eq_none.mp hlookup⟩, rfl⟩
        | some first =>
          refine .inr ⟨fun h ↦ ?_, .inl ⟨_, rfl⟩⟩
          exact nomatch hlookup.symm.trans (lookup_eq_none.mpr h.node)
      · refine .inr ⟨fun h ↦ hfamilies h.families, ?_⟩
        rcases hno' with ⟨-, c, hc⟩ | ⟨hstarted, c, hc⟩
        · exact .inl ⟨c, by rw [hc]⟩
        · exact .inr ⟨hstarted, c, by rw [hc]⟩
    · refine .inr ⟨fun h ↦ hroots h.roots, ?_⟩
      rcases hno with ⟨-, c, hc⟩ | ⟨hstarted, c, hc⟩
      · exact .inl ⟨c, by rw [hc]⟩
      · exact .inr ⟨hstarted, c, by rw [hc]⟩

/-- The admission with a group. -/
def addGroup (a : Admission) (c : Call) : Admission :=
  { a with registered := if a.started then a.registered else a.registered ++ [c.conflict] }

/-- What `admitGroup` does: it records the group, and a conflict if it is refused. -/
theorem admitGroup_cases (cfg : Config) (a : Admission) (path : Bytes) (pkg : String) :
    let c := Call.group path pkg
    let fits := (∀ root ∈ cfg.frameworkRoots, AtOrBelow path root → c.OfFramework cfg) ∧
      ∀ f ∈ a.families, ¬AtOrBelow path f
    fits ∧ a.admitGroup cfg path pkg = .ok (a.addGroup c) ∨
      ¬fits ∧ (a.started = false ∧ (∃ c', a.admitGroup cfg path pkg = .ok (a.addConflict c') ∨
          a.admitGroup cfg path pkg = .ok ((a.addGroup c).addConflict c')) ∨
        a.started ∧ ∃ c', a.admitGroup cfg path pkg = .error c') := by
  have hconflict : tenantOwnedConflict [] path ⟨"", pkg⟩ = (Call.group path pkg).conflict := rfl
  simp only [admitGroup, hconflict]
  rcases a.refuseFrameworkRoot_cases cfg (.group path pkg) with ⟨hroots, hok⟩ | ⟨hroots, hno⟩
  · rw [hok]
    rcases (a.addGroup (.group path pkg)).refuseTrespass_cases (.group path pkg) with
      ⟨hfamilies, hok'⟩ | ⟨⟨f, hf, hbelow⟩, hno'⟩
    · refine .inl ⟨⟨hroots, hfamilies⟩, ?_⟩
      rw [addGroup] at hok'
      simp only [hok']
      rfl
    · refine .inr ⟨fun h ↦ h.2 f hf hbelow, ?_⟩
      rcases hno' with ⟨hstarted, c, hc⟩ | ⟨hstarted, c, hc⟩
      · refine .inl ⟨hstarted, c, .inr ?_⟩
        rw [addGroup] at hc
        simp only [hc]
        rfl
      · refine .inr ⟨hstarted, c, ?_⟩
        rw [addGroup] at hc
        simp only [hc]
  · refine .inr ⟨fun h ↦ hroots h.1, ?_⟩
    rcases hno with ⟨hstarted, c, hc⟩ | ⟨hstarted, c, hc⟩
    · exact .inl ⟨hstarted, c, .inl (by rw [hc])⟩
    · exact .inr ⟨hstarted, c, by rw [hc]⟩

/-- What `claimFamily` does before the seal. -/
theorem claimFamily_eq_ok {full : Bytes} {a' : Admission} (h : a.claimFamily full = .ok a') :
    a.started = false ∧ (∀ f ∈ a.families, ¬AtOrBelow full f ∧ ¬AtOrBelow f full) ∧
      a' = { a with
        families := a.families ++ [full]
        conflicts := a.conflicts ++ a.trespasses full } := by
  rw [claimFamily] at h
  split at h
  · cases h
  · next hstarted =>
    split at h
    · cases h
    · next hnone =>
      refine ⟨Bool.eq_false_of_not_eq_true hstarted, fun f hf ↦ ?_, (Except.ok.inj h).symm⟩
      have := List.find?_eq_none.mp hnone f hf
      rw [Bool.or_eq_true, not_or, underPrefix_iff, underPrefix_iff] at this
      exact this

end Admission

/-! ### Before the seal -/

/-- Families that are apart from each other. -/
def Apart (families : List Bytes) : Prop :=
  families.Pairwise fun f g ↦ ¬AtOrBelow f g ∧ ¬AtOrBelow g f

/-- A path is at or below one family only. -/
theorem AtOrBelow.eq_of_apart {path f g : Bytes} (hapart : Apart families) (hf : f ∈ families)
    (hg : g ∈ families) (hpf : AtOrBelow path f) (hpg : AtOrBelow path g) : f = g := by
  by_contra hne
  have : Std.Symm fun f g : Bytes ↦ ¬AtOrBelow f g ∧ ¬AtOrBelow g f := ⟨fun _ _ h ↦ ⟨h.2, h.1⟩⟩
  obtain ⟨hfg, hgf⟩ := hapart.forall hf hg hne
  rcases hpf.2.comparable hpg.2 with h | h
  · exact hfg ⟨hpg.1, h⟩
  · exact hgf ⟨hpf.1, h⟩

/-- Routes of families are below them. -/
def Owned (calls : List Call) (families : List Bytes) : Prop :=
  ∀ r f, .route r ∈ calls → r.family = some f → f ∈ families ∧ AtOrBelow r.path f

/-- What the admission knows of the registrations before the seal. -/
structure Judged (cfg : Config) (a : Admission) (calls : List Call) : Prop where
  registered : ∀ c ∈ a.registered, ∃ call ∈ calls, call.isRecorded ∧ call.conflict = c
  seen : ∀ key ∈ a.seen.map Prod.fst, key ∈ routeKeys calls
  /-- As long as nothing was refused, everything is known. -/
  clean : a.conflicts = [] → Clean cfg calls a.families ∧
    (∀ key ∈ routeKeys calls, key ∈ a.seen.map Prod.fst) ∧
      ∀ call ∈ calls, call.isRecorded → call.conflict ∈ a.registered
  unclean : a.conflicts ≠ [] → ¬Clean cfg calls a.families

namespace Judged

variable {a a' : Admission} {c : Call}

/-- The admission learns of a registration only by what it records. -/
structure Learns (a a' : Admission) (c : Call) : Prop where
  families : a'.families = a.families
  registered : ∀ x ∈ a'.registered, x ∈ a.registered ∨ c.isRecorded ∧ c.conflict = x
  seen : ∀ key ∈ a'.seen.map Prod.fst, key ∈ a.seen.map Prod.fst ∨
    ∃ r, c = .route r ∧ r.key = key

theorem mem_routeKeys_append {key : Bytes} :
    key ∈ routeKeys (calls ++ [c]) ↔ key ∈ routeKeys calls ∨ ∃ r, c = .route r ∧ r.key = key := by
  simp only [mem_routeKeys, mem_append, mem_singleton, or_and_right, exists_or]
  refine or_congr_right (exists_congr fun r ↦ and_congr_left fun _ ↦ eq_comm)

/-- What is registered comes from a call. -/
theorem learns_registered (h : Judged cfg a calls) (hl : Learns a a' c) :
    ∀ x ∈ a'.registered, ∃ call ∈ calls ++ [c], call.isRecorded ∧ call.conflict = x := by
  intro x hx
  rcases hl.registered x hx with hold | hnew
  · obtain ⟨call, hcall, hx⟩ := h.registered x hold
    exact ⟨call, mem_append_left _ hcall, hx⟩
  · exact ⟨c, mem_append_right _ mem_cons_self, hnew⟩

/-- What is seen comes from a route. -/
theorem learns_seen (h : Judged cfg a calls) (hl : Learns a a' c) :
    ∀ key ∈ a'.seen.map Prod.fst, key ∈ routeKeys (calls ++ [c]) := by
  intro key hkey
  rw [mem_routeKeys_append]
  rcases hl.seen key hkey with hold | hnew
  · exact .inl (h.seen key hold)
  · exact .inr hnew

/-- A registration is refused. -/
theorem refuse (h : Judged cfg a calls) (hl : Learns a a' c)
    (hfits : ¬Fits cfg calls a.families c) (hconflicts : a'.conflicts ≠ []) :
    Judged cfg a' (calls ++ [c]) where
  registered := h.learns_registered hl
  seen := h.learns_seen hl
  clean hnil := absurd hnil hconflicts
  unclean _ hclean := by
    rw [hl.families] at hclean
    exact hfits (clean_append_iff.mp hclean).2

/-- A registration is admitted. -/
theorem accept (h : Judged cfg a calls) (hl : Learns a a' c)
    (hfits : a.conflicts = [] → Fits cfg calls a.families c)
    (hconflicts : a'.conflicts = a.conflicts)
    (hseen : ∀ key, key ∈ a.seen.map Prod.fst ∨ (∃ r, c = .route r ∧ r.key = key) →
      key ∈ a'.seen.map Prod.fst)
    (hregistered : ∀ x, x ∈ a.registered ∨ c.isRecorded ∧ c.conflict = x → x ∈ a'.registered) :
    Judged cfg a' (calls ++ [c]) where
  registered := h.learns_registered hl
  seen := h.learns_seen hl
  clean hnil := by
    rw [hconflicts] at hnil
    obtain ⟨hclean, hkeys, hcalls⟩ := h.clean hnil
    refine ⟨?_, fun key hkey ↦ hseen key ?_, fun call hcall hrecorded ↦ hregistered _ ?_⟩
    · rw [hl.families]
      exact clean_append_iff.mpr ⟨hclean, hfits hnil⟩
    · rcases mem_routeKeys_append.mp hkey with hold | hnew
      · exact .inl (hkeys key hold)
      · exact .inr hnew
    · rcases mem_append.mp hcall with hold | hnew
      · exact .inl (hcalls call hold hrecorded)
      · obtain rfl := mem_singleton.mp hnew
        exact .inr ⟨hrecorded, rfl⟩
  unclean hne hclean := by
    rw [hconflicts] at hne
    rw [hl.families] at hclean
    exact h.unclean hne hclean.of_append

/-- A route is judged by the calls before it. -/
theorem route (h : Judged cfg a calls) (hstarted : a.started = false) (hapart : Apart a.families)
    {r : AdmittedRoute}
    (howned : ∀ f, r.family = some f → f ∈ a.families ∧ AtOrBelow r.path f) :
    ∃ a' b, a.claim cfg r = .ok (a', b) ∧ a'.started = false ∧ a'.families = a.families ∧
      Judged cfg a' (calls ++ [.route r]) := by
  rcases a.claim_cases cfg r with ⟨hadmits, hclaim⟩ | ⟨hadmits, ⟨c, hclaim⟩ | ⟨h', -⟩⟩
  · refine ⟨_, _, hclaim, hstarted, rfl,
      h.accept ⟨rfl, fun x hx ↦ ?_, fun key hkey ↦ ?_⟩ ?_ rfl ?_ ?_⟩
    · exact (Admission.mem_registered_append hstarted rfl).mp hx
    · exact Admission.mem_seen_addRoute.mp hkey
    · intro hnil
      refine ⟨?_, ?_, fun f hf houtside hbelow ↦ ?_, hadmits.roots⟩
      · rintro r' ⟨⟩
        exact hadmits.method
      · rintro r' ⟨⟩ hkey
        exact hadmits.node ((h.clean hnil).2.1 _ hkey)
      · -- A route of another family is not below this one.
        cases hfamily : r.family with
        | none => exact hadmits.families hfamily f hf hbelow
        | some g =>
          obtain ⟨hg, hbelow'⟩ := howned g hfamily
          obtain rfl := hbelow'.eq_of_apart hapart hg hf hbelow
          exact houtside hfamily
    · exact fun key ↦ Admission.mem_seen_addRoute.mpr
    · exact fun x ↦ (Admission.mem_registered_append hstarted rfl).mpr
  · refine ⟨_, _, hclaim, hstarted, rfl,
      h.refuse ⟨rfl, fun x hx ↦ .inl hx, fun key hkey ↦ .inl hkey⟩ (fun hfits ↦ hadmits ?_) (by
      simp [Admission.addConflict])⟩
    refine ⟨hfits.method r rfl, hfits.roots, fun hnone f hf ↦ hfits.families f hf ?_, fun hkey ↦ ?_⟩
    · rw [Call.Outside, hnone]
      exact nofun
    · exact hfits.node r rfl (h.seen _ hkey)
  · rw [hstarted] at h'
    cases h'

/-- A group is judged by the calls before it. -/
theorem group (h : Judged cfg a calls) (hstarted : a.started = false) (path : Bytes)
    (pkg : String) :
    ∃ a', a.admitGroup cfg path pkg = .ok a' ∧ a'.started = false ∧ a'.families = a.families ∧
      Judged cfg a' (calls ++ [.group path pkg]) := by
  have hlearns : ∀ x ∈ (a.addGroup (.group path pkg)).registered, x ∈ a.registered ∨
      (Call.group path pkg).isRecorded ∧ (Call.group path pkg).conflict = x :=
    fun x ↦ (Admission.mem_registered_append hstarted rfl).mp
  rcases a.admitGroup_cases cfg path pkg with
    ⟨⟨hroots, hfamilies⟩, hgroup⟩ | ⟨hfit, ⟨-, c, hgroup | hgroup⟩ | ⟨h', -⟩⟩
  · refine ⟨_, hgroup, hstarted, rfl, h.accept ⟨rfl, hlearns, fun key hkey ↦ .inl hkey⟩
      (fun _ ↦ ?_) rfl (fun key hkey ↦ ?_) fun x hx ↦ ?_⟩
    · exact ⟨fun r hr ↦ (nomatch hr), fun r hr ↦ (nomatch hr), fun f hf _ ↦ hfamilies f hf, hroots⟩
    · rcases hkey with hkey | ⟨r, hr, -⟩
      · exact hkey
      · cases hr
    · exact (Admission.mem_registered_append hstarted rfl).mpr hx
  · refine ⟨_, hgroup, hstarted, rfl, h.refuse ⟨rfl, fun x hx ↦ .inl hx, fun key hkey ↦ .inl hkey⟩
      (fun hfits ↦ hfit ⟨hfits.roots, fun f hf ↦ hfits.families f hf trivial⟩)
      (by simp [Admission.addConflict])⟩
  · refine ⟨_, hgroup, hstarted, rfl, h.refuse ⟨rfl, hlearns, fun key hkey ↦ .inl hkey⟩
      (fun hfits ↦ hfit ⟨hfits.roots, fun f hf ↦ hfits.families f hf trivial⟩)
      (by simp [Admission.addConflict])⟩
  · rw [hstarted] at h'
    cases h'

/-- A family is judged by the calls before it. -/
theorem family (h : Judged cfg a calls) (hstarted : a.started = false) (full : Bytes)
    (pkg : String) :
    (∃ a', a.refuseFamilyUnderFrameworkRoot cfg full pkg = .ok (some a') ∧
        a'.started = false ∧ a'.families = a.families ∧
          Judged cfg a' (calls ++ [.family full pkg])) ∨
      a.refuseFamilyUnderFrameworkRoot cfg full pkg = .ok none ∧
        Judged cfg a (calls ++ [.family full pkg]) := by
  have hsame : Learns a a (.family full pkg) :=
    ⟨rfl, fun x hx ↦ .inl hx, fun key hkey ↦ .inl hkey⟩
  rcases a.refuseFrameworkRoot_cases cfg (.family full pkg) with
    ⟨hroots, hok⟩ | ⟨hroots, ⟨-, c, hc⟩ | ⟨h', -⟩⟩
  · refine .inr ⟨hok, h.accept hsame (fun _ ↦ ?_) rfl (fun key hkey ↦ ?_) fun x hx ↦ ?_⟩
    · exact ⟨fun r hr ↦ (nomatch hr), fun r hr ↦ (nomatch hr), fun f hf h ↦ h.elim, hroots⟩
    · rcases hkey with hkey | ⟨r, hr, -⟩
      · exact hkey
      · cases hr
    · rcases hx with hx | ⟨hr, -⟩
      · exact hx
      · cases hr
  · exact .inl ⟨_, hc, hstarted, rfl, h.refuse ⟨rfl, hsame.registered, hsame.seen⟩
      (fun hfits ↦ hroots hfits.roots) (by simp [Admission.addConflict])⟩
  · rw [hstarted] at h'
    cases h'

/-- A claimed family is judged against everything that was recorded. -/
theorem claimFamily {full : Bytes} (h : Judged cfg a calls) (howned : Owned calls a.families)
    (hfull : full ≠ []) (hclaim : a.claimFamily full = .ok a') : Judged cfg a' calls := by
  obtain ⟨-, hapart, rfl⟩ := Admission.claimFamily_eq_ok hclaim
  have hnew : full ∉ a.families := fun hmem ↦ (hapart full hmem).1 ⟨hfull, .refl _⟩
  refine ⟨h.registered, h.seen, fun hnil ↦ ?_, fun hne hclean ↦ ?_⟩
  · obtain ⟨hnil, htrespasses⟩ := append_eq_nil_iff.mp hnil
    obtain ⟨hclean, hkeys, hcalls⟩ := h.clean hnil
    refine ⟨⟨hclean.methods, hclean.nodes, fun f hf c hc houtside hbelow ↦ ?_, hclean.roots⟩,
      hkeys, hcalls⟩
    rcases mem_append.mp hf with hf | hf
    · exact hclean.families f hf c hc houtside hbelow
    · obtain rfl := mem_singleton.mp hf
      have hrecorded : c.isRecorded := by
        cases c with
        | route r | group path pkg => rfl
        | family full pkg => exact houtside.elim
      rw [Admission.trespasses, map_eq_nil_iff, filter_eq_nil_iff] at htrespasses
      refine htrespasses _ (hcalls c hc hrecorded) ?_
      rw [Call.conflict_path]
      exact underPrefix_iff.mpr hbelow
  · by_cases hnil : a.conflicts = []
    · rw [hnil, nil_append] at hne
      obtain ⟨x, hx⟩ := exists_mem_of_ne_nil _ hne
      obtain ⟨x, hx, -⟩ := mem_map.mp hx
      obtain ⟨hx, hunder⟩ := mem_filter.mp hx
      obtain ⟨c, hc, hrecorded, rfl⟩ := h.registered x hx
      rw [Call.conflict_path] at hunder
      refine hclean.families full (mem_append_right _ mem_cons_self) c hc ?_
        (underPrefix_iff.mp hunder)
      cases c with
      | route r => exact fun hfamily ↦ hnew (howned r full hc hfamily).1
      | group path pkg => trivial
      | family full pkg => cases hrecorded
    · exact h.unclean hnil hclean.of_family

end Judged

/-! ### Runs -/

/-- A path through a family's registrar is at or below the family. -/
theorem atOrBelow_fullPath {base family : Bytes} (path : Bytes) (h : AtOrBelow base family) :
    AtOrBelow (fullPathFromRelative base (relativePath base path)) family := by
  have hbase : base ≠ [] := by
    rintro rfl
    rcases Segments.below_iff.mp h.2 with hnil | ⟨rest, hrest⟩
    · exact h.1 hnil.symm
    · exact absurd hrest.symm (append_ne_nil_of_right_ne_nil _ (cons_ne_nil _ _))
  refine ⟨h.1, Segments.Below.trans ?_ h.2⟩
  have hleading : ∃ rest, ensureLeadingSlash path = slash :: rest := by
    rw [ensureLeadingSlash]
    split
    · exact ⟨[], rfl⟩
    · split
      · next hslash => exact ⟨path.tail, eq_cons_of_mem_head? hslash⟩
      · exact ⟨path, rfl⟩
  have hrelative : relativePath base path = [] ∨
      ∃ rest, relativePath base path = slash :: rest := by
    rw [relativePath]
    split
    · exact .inl rfl
    · rw [stripPathPrefix, if_neg hbase]
      split
      · exact .inr hleading
      · dsimp only
        split
        · exact .inl rfl
        · split
          · next hslash => exact .inr ⟨_, eq_cons_of_mem_head? hslash⟩
          · exact .inr hleading
  rw [fullPathFromRelative]
  rcases hrelative with hnil | ⟨rest, hrest⟩
  · rw [if_pos hnil, if_neg hbase]
    exact .refl _
  · rw [if_neg (hrest ▸ cons_ne_nil _ _), hrest]
    exact Segments.below_iff.mpr (.inr ⟨rest, rfl⟩)

/-- What holds in every state of a run. -/
structure Inv (cfg : Config) (s : State) : Prop where
  apart : Apart s.admission.families
  owned : Owned s.calls s.admission.families
  building : ∀ f ∈ s.building, f ≠ []
  judged : s.admission.started = false → Judged cfg s.admission s.calls ∧ s.sealed = none
  sealed : s.admission.started → ∃ cs, s.sealed = some cs ∧
    (cs = [] ↔ Clean cfg s.calls s.admission.families)

namespace Inv

variable {s t : State}

theorem init : Inv cfg {} where
  apart := List.Pairwise.nil
  owned _ _ h := nomatch h
  building _ h := nomatch h
  judged _ := by
    refine ⟨⟨fun _ h ↦ (nomatch h), fun _ h ↦ (nomatch h), fun _ ↦ ⟨?_, ?_, ?_⟩,
      fun h ↦ absurd rfl h⟩, rfl⟩
    · exact ⟨fun _ h ↦ (nomatch h), nodup_nil, fun _ h ↦ (nomatch h), fun _ h ↦ (nomatch h)⟩
    · exact nofun
    · exact nofun
  sealed h := nomatch h

/-- After the seal neither the calls nor the families change. -/
theorem of_started (h : Inv cfg s) (hstarted : s.admission.started) (hcalls : t.calls = s.calls)
    (hfamilies : t.admission.families = s.admission.families)
    (hstarted' : t.admission.started) (hsealed : t.sealed = s.sealed)
    (hbuilding : ∀ f ∈ t.building, f ≠ []) : Inv cfg t where
  apart := hfamilies ▸ h.apart
  owned := hcalls ▸ hfamilies ▸ h.owned
  building := hbuilding
  judged hnot := by
    rw [hstarted'] at hnot
    cases hnot
  sealed _ := by
    rw [hcalls, hfamilies, hsealed]
    exact h.sealed hstarted

/-- A registration before the seal. -/
theorem log {a : Admission} {c : Call} (h : Inv cfg s) (hstarted : s.admission.started = false)
    (hstarted' : a.started = false) (hfamilies : a.families = s.admission.families)
    (hjudged : Judged cfg a (s.calls ++ [c]))
    (howned : ∀ r f, c = .route r → r.family = some f →
      f ∈ s.admission.families ∧ AtOrBelow r.path f) :
    Inv cfg ((s.log c).set a) := by
  rw [State.log, if_neg (hstarted ▸ Bool.false_ne_true)]
  refine ⟨hfamilies ▸ h.apart, ?_, h.building, fun _ ↦ ⟨hjudged, (h.judged hstarted).2⟩,
    fun h' ↦ absurd (hstarted'.symm.trans h') Bool.false_ne_true⟩
  intro r f hr hf
  change f ∈ a.families ∧ _
  rw [hfamilies]
  rcases mem_append.mp hr with hr | hr
  · exact h.owned r f hr hf
  · exact howned r f (mem_singleton.mp hr).symm hf

/-- After the start a call that is refused changes nothing that counts. -/
theorem log_started {a : Admission} (h : Inv cfg s) (hstarted : s.admission.started) (c : Call)
    (hstarted' : a.started) (hfamilies : a.families = s.admission.families) :
    Inv cfg ((s.log c).set a) := by
  rw [State.log, if_pos hstarted]
  exact h.of_started hstarted rfl hfamilies hstarted' rfl h.building

theorem log_same (h : Inv cfg s) (hstarted : s.admission.started) (c : Call) :
    Inv cfg (s.log c) := by
  rw [State.log, if_pos hstarted]
  exact h

/-- A route keeps the invariant. -/
theorem claimRoute (h : Inv cfg s) {r : AdmittedRoute}
    (howned : ∀ f, r.family = some f → f ∈ s.admission.families ∧ AtOrBelow r.path f) :
    Inv cfg (s.claimRoute cfg r) := by
  rw [State.claimRoute]
  cases hstarted : s.admission.started with
  | false =>
    obtain ⟨a, b, hclaim, hstarted', hfamilies, hjudged⟩ :=
      (h.judged hstarted).1.route hstarted h.apart howned
    rw [hclaim]
    refine h.log hstarted hstarted' hfamilies hjudged ?_
    rintro _ f ⟨⟩ hf
    exact howned f hf
  | true =>
    rcases s.admission.claim_cases cfg r with ⟨-, hclaim⟩ | ⟨-, ⟨c, hclaim⟩ | ⟨-, c, hclaim⟩⟩
    · rw [hclaim]
      exact h.log_started hstarted _ hstarted rfl
    · rw [hclaim]
      exact h.log_started hstarted _ hstarted rfl
    · rw [hclaim]
      exact h.log_same hstarted _

/-- A group keeps the invariant. -/
theorem admitGroup (h : Inv cfg s) (path : Bytes) (pkg : String) :
    Inv cfg (s.admitGroup cfg path pkg) := by
  rw [State.admitGroup]
  cases hstarted : s.admission.started with
  | false =>
    obtain ⟨a, hgroup, hstarted', hfamilies, hjudged⟩ :=
      (h.judged hstarted).1.group hstarted path pkg
    rw [hgroup]
    exact h.log hstarted hstarted' hfamilies hjudged nofun
  | true =>
    rcases s.admission.admitGroup_cases cfg path pkg with
      ⟨-, hgroup⟩ | ⟨-, ⟨hnot, -⟩ | ⟨-, c, hgroup⟩⟩
    · rw [hgroup]
      exact h.log_started hstarted _ hstarted rfl
    · exact absurd (hnot.symm.trans hstarted) Bool.false_ne_true
    · rw [hgroup]
      exact h.log_same hstarted _

/-- So does a family under construction. -/
theorem buildFamily (h : Inv cfg s) {full : Bytes} (hfull : full ≠ []) (pkg : String) :
    Inv cfg (s.buildFamily cfg full pkg) := by
  have hbuild : ∀ t, Inv cfg t → Inv cfg { t with building := full :: t.building } := by
    refine fun t ht ↦ ⟨ht.apart, ht.owned, fun f hf ↦ ?_, ht.judged, ht.sealed⟩
    rcases mem_cons.mp hf with rfl | hf
    · exact hfull
    · exact ht.building f hf
  have hlog : ∀ t : State, t.building = s.building →
      { t with building := full :: s.building } = { t with building := full :: t.building } :=
    fun t ht ↦ by rw [ht]
  have hbuilding : (s.log (.family full pkg)).building = s.building := by
    rw [State.log]
    split <;> rfl
  rw [State.buildFamily, hlog _ hbuilding]
  cases hstarted : s.admission.started with
  | false =>
    rcases (h.judged hstarted).1.family hstarted full pkg with
      ⟨a, hrefuse, hstarted', hfamilies, hjudged⟩ | ⟨hok, hjudged⟩
    · rw [hrefuse]
      exact h.log hstarted hstarted' hfamilies hjudged nofun
    · rw [hok]
      refine hbuild _ ?_
      have := h.log hstarted hstarted rfl hjudged nofun
      rw [State.log, if_neg (hstarted ▸ Bool.false_ne_true)] at this ⊢
      exact this
  | true =>
    have hsame := h.log_same hstarted (.family full pkg)
    rcases s.admission.refuseFrameworkRoot_cases cfg (.family full pkg) with
      ⟨-, hok⟩ | ⟨-, ⟨hnot, -⟩ | ⟨-, c, hc⟩⟩
    · rw [Admission.refuseFamilyUnderFrameworkRoot]
      rw [Call.conflict] at hok
      rw [hok]
      exact hbuild _ hsame
    · exact absurd (hnot.symm.trans hstarted) Bool.false_ne_true
    · rw [Admission.refuseFamilyUnderFrameworkRoot]
      rw [Call.conflict] at hc
      rw [hc]
      exact hsame

/-- So does one that is claimed. -/
theorem claimFamily (h : Inv cfg s) {full : Bytes} (hfull : full ≠ []) :
    Inv cfg (s.claimFamily full) := by
  have hbuilding : ∀ f ∈ s.building.erase full, f ≠ [] :=
    fun f hf ↦ h.building f (mem_of_mem_erase hf)
  rw [State.claimFamily]
  cases hclaim : s.admission.claimFamily full with
  | error e => exact ⟨h.apart, h.owned, hbuilding, h.judged, h.sealed⟩
  | ok a =>
    obtain ⟨hstarted, hapart, ha⟩ := Admission.claimFamily_eq_ok hclaim
    have hjudged := (h.judged hstarted).1.claimFamily h.owned hfull hclaim
    refine ⟨?_, ?_, hbuilding, fun _ ↦ ⟨hjudged, (h.judged hstarted).2⟩, fun h' ↦ ?_⟩
    · subst ha
      refine pairwise_append.mpr ⟨h.apart, pairwise_singleton _ _, fun f hf g hg ↦ ?_⟩
      obtain rfl := mem_singleton.mp hg
      exact ⟨(hapart f hf).2, (hapart f hf).1⟩
    · intro r f hr hf
      obtain ⟨hmem, hbelow⟩ := h.owned r f hr hf
      subst ha
      exact ⟨mem_append_left _ hmem, hbelow⟩
    · subst ha
      exact absurd (hstarted.symm.trans h') Bool.false_ne_true

/-- Every step keeps the invariant. -/
theorem step (h : Inv cfg s) {l : Label} (hstep : s.step cfg l = some t) : Inv cfg t := by
  cases l with
  | route method path reg =>
    cases hstep
    exact h.claimRoute nofun
  | familyRoute family base method path reg =>
    rw [State.step, ite_none_right_eq_some] at hstep
    obtain ⟨hfamily, hstep⟩ := hstep
    cases hstep
    rw [State.ofFamily, Bool.and_eq_true, decide_eq_true_iff, underPrefix_iff] at hfamily
    refine h.claimRoute fun f hf ↦ ?_
    cases hf
    exact ⟨hfamily.1, atOrBelow_fullPath path hfamily.2⟩
  | group path pkg =>
    cases hstep
    exact h.admitGroup path pkg
  | family base pre pkg =>
    rw [State.step, map_eq_some_iff] at hstep
    obtain ⟨full, hfull, rfl⟩ := hstep
    refine h.buildFamily ?_ pkg
    rw [familyPrefix] at hfull
    split at hfull
    · cases hfull
    · next hrelative =>
      rw [ite_none_left_eq_some, ite_none_left_eq_some] at hfull
      obtain ⟨-, -, hfull⟩ := hfull
      cases hfull
      exact append_ne_nil_of_right_ne_nil _ hrelative
  | claim full =>
    rw [State.step, ite_none_right_eq_some] at hstep
    obtain ⟨hmem, hstep⟩ := hstep
    cases hstep
    exact h.claimFamily (h.building full hmem)
  | «seal» =>
    cases hstep
    refine ⟨h.apart, h.owned, h.building, fun h' ↦ (nomatch h'), fun _ ↦ ?_⟩
    cases hstarted : s.admission.started with
    | false =>
      obtain ⟨hjudged, hnone⟩ := h.judged hstarted
      refine ⟨s.admission.conflicts, by rw [hnone]; rfl, fun hnil ↦ (hjudged.clean hnil).1, ?_⟩
      exact fun hclean ↦ by_contra fun hne ↦ hjudged.unclean hne hclean
    | true =>
      obtain ⟨cs, hcs, hclean⟩ := h.sealed hstarted
      exact ⟨cs, by rw [hcs]; rfl, hclean⟩

/-- The invariant holds along every run. -/
theorem of_reachable (h : (system cfg).Reachable s) : Inv cfg s :=
  h.invariant (fun _ hinit ↦ hinit ▸ init) fun _ _ _ _ _ hinv hstep ↦ hinv.step hstep

end Inv

/-- Who calls in which order does not matter. -/
theorem Clean.perm {calls' : List Call} {families' : List Bytes} (hcalls : calls.Perm calls')
    (hfamilies : families.Perm families') (h : Clean cfg calls families) :
    Clean cfg calls' families' where
  methods r hr := h.methods r (hcalls.mem_iff.mpr hr)
  nodes := ((hcalls.filterMap Call.route?).map AdmittedRoute.key).nodup_iff.mp h.nodes
  families f hf c hc := h.families f (hfamilies.mem_iff.mpr hf) c (hcalls.mem_iff.mpr hc)
  roots c hc := h.roots c (hcalls.mem_iff.mpr hc)

/-- A registration under a family or a framework root that is not of it. -/
def Trespasses (cfg : Config) (families : List Bytes) (c : Call) : Prop :=
  (∃ f ∈ families, c.Outside f ∧ AtOrBelow c.path f) ∨
    ∃ root ∈ cfg.frameworkRoots, AtOrBelow c.path root ∧ ¬c.OfFramework cfg

/-- What comes through a family is below it. -/
def State.Offers (s : State) (r : AdmittedRoute) : Prop :=
  ∀ f, r.family = some f → f ∈ s.admission.families ∧ AtOrBelow r.path f

/-- In every run, `seal` returns no conflict exactly if the registrations before it are clean, in
whatever order they came; families are apart from each other; and after the seal no route or group
that trespasses, and no family, is admitted. -/
theorem admission_sound {s : State} (h : (system cfg).Reachable s) :
    (∀ cs, s.sealed = some cs → (cs = [] ↔ Clean cfg s.calls s.admission.families) ∧
      ∀ t cs', (system cfg).Reachable t → t.sealed = some cs' → s.calls.Perm t.calls →
        s.admission.families.Perm t.admission.families → (cs = [] ↔ cs' = [])) ∧
    Apart s.admission.families ∧
    (s.admission.started →
      (∀ r, s.Offers r → Trespasses cfg s.admission.families (.route r) →
        ∀ a, s.admission.claim cfg r ≠ .ok (a, true)) ∧
      (∀ path pkg, Trespasses cfg s.admission.families (.group path pkg) →
        ∃ c, s.admission.admitGroup cfg path pkg = .error c) ∧
      ∀ full, ∃ e, s.admission.claimFamily full = .error e) := by
  have hclean : ∀ {s cs}, Inv cfg s → s.sealed = some cs →
      (cs = [] ↔ Clean cfg s.calls s.admission.families) := by
    intro s cs hinv hcs
    cases hstarted : s.admission.started with
    | false => exact nomatch hcs.symm.trans (hinv.judged hstarted).2
    | true =>
      obtain ⟨cs', hcs', hclean⟩ := hinv.sealed hstarted
      cases hcs.symm.trans hcs'
      exact hclean
  have hinv := Inv.of_reachable h
  refine ⟨fun cs hcs ↦ ⟨hclean hinv hcs, fun t cs' ht hcs' hcalls hfamilies ↦ ?_⟩, hinv.apart,
    fun hstarted ↦ ⟨fun r hoffers htrespass a hclaim ↦ ?_, fun path pkg htrespass ↦ ?_,
      fun full ↦ ?_⟩⟩
  · rw [hclean hinv hcs, hclean (Inv.of_reachable ht) hcs']
    exact ⟨.perm hcalls hfamilies, .perm hcalls.symm hfamilies.symm⟩
  · rcases s.admission.claim_cases cfg r with ⟨hadmits, -⟩ | ⟨-, ⟨c, hno⟩ | ⟨-, c, hno⟩⟩
    · rcases htrespass with ⟨f, hf, houtside, hbelow⟩ | ⟨root, hroot, hbelow, hnot⟩
      · cases hfamily : r.family with
        | none => exact hadmits.families hfamily f hf hbelow
        | some g =>
          obtain ⟨hg, hbelow'⟩ := hoffers g hfamily
          obtain rfl := hbelow'.eq_of_apart hinv.apart hg hf hbelow
          exact houtside hfamily
      · exact hnot (hadmits.roots root hroot hbelow)
    · exact nomatch hclaim.symm.trans hno
    · exact nomatch hclaim.symm.trans hno
  · rcases s.admission.admitGroup_cases cfg path pkg with
      ⟨⟨hroots, hfamilies⟩, -⟩ | ⟨-, ⟨hnot, -⟩ | ⟨-, c, hc⟩⟩
    · rcases htrespass with ⟨f, hf, -, hbelow⟩ | ⟨root, hroot, hbelow, hnot⟩
      · exact absurd hbelow (hfamilies f hf)
      · exact absurd (hroots root hroot hbelow) hnot
    · exact absurd (hnot.symm.trans hstarted) Bool.false_ne_true
    · exact ⟨c, hc⟩
  · exact ⟨.started, by rw [Admission.claimFamily, if_pos hstarted]⟩

/-- Registers a route, then a family that it is under. -/
def lateFamily : List Label :=
  [.route (ascii "GET") (ascii "/acme/orders/:id") ⟨"show", "shop"⟩,
    .family [] (ascii "/acme/") "tenants", .claim (ascii "/acme"), .seal]

/-- A route is refused at the seal although the family was claimed after it. -/
theorem admission_sound_late : ∃ s, (system ⟨[], []⟩).run {} lateFamily = some s ∧
    s.sealed.map List.length = some 1 ∧ ¬Clean ⟨[], []⟩ s.calls s.admission.families := by
  have hrun : ((system ⟨[], []⟩).run {} lateFamily).any
      (fun s ↦ s.sealed.map List.length == some 1) := by decide +kernel
  obtain ⟨s, hrun, hlength⟩ := (any_eq_true _ _).mp hrun
  have hlength := eq_of_beq hlength
  obtain ⟨cs, hcs, hone⟩ := map_eq_some_iff.mp hlength
  have hsound := (admission_sound (StepSystem.reach_of_run (.init rfl) hrun)).1 cs hcs
  refine ⟨s, hrun, hlength, fun hclean ↦ ?_⟩
  rw [hsound.1.mpr hclean] at hone
  cases hone

end Server
