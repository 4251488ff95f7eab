import GoBricks.Lib.Segments
import GoBricks.Lib.Text
import Mathlib.Logic.Function.Basic

/-!
# Cache key namespaces

Caches that share an endpoint send their keys behind a **prefix**: a base, which is one segment, and
the id of the tenant, if there is one. A key of the caller follows, and it may have separators of
its own.

Two caches of different bases, and two tenants of one base, never send the same key. The root cache
of a base and a cache of one of its tenants do, when the caller's key of the root is the tenant and
the other's key (`key_eq_iff`): the root has all of what is behind its base.
-/

open Text

namespace Cache

/-! ### Prefixes -/

/-- What separates segments. -/
def sep : UInt8 := 0x3A

/-- The runes of `*?[]{}\`. -/
def forbidden : List ℕ := [0x2A, 0x3F, 0x5B, 0x5D, 0x7B, 0x7D, 0x5C]

/-- `unicode.IsSpace` -/
def isSpace (r : ℕ) : Bool :=
  0x09 ≤ r && r ≤ 0x0D || r == 0x20 || r == 0x85 || r == 0xA0 || r == 0x1680 ||
    0x2000 ≤ r && r ≤ 0x200A || r == 0x2028 || r == 0x2029 || r == 0x202F || r == 0x205F || r ==
    0x3000

/-- Why a prefix is refused. -/
inductive PrefixFault
  | whitespace
  | forbidden
  | separator
  | emptySegment
  deriving DecidableEq

/-- A base is one segment without white space and the bytes of patterns. -/
def validate (pre : Bytes) : Except PrefixFault Unit :=
  if pre = [] then .ok ()
  else match (Utf8.runes pre).find? fun r ↦ isSpace r || forbidden.contains r with
  | some r => .error (if isSpace r then .whitespace else .forbidden)
  | none => if pre.contains sep then .error .separator else .ok ()

/-- The loop of `validateNamespace`. -/
def validateSegments : List Bytes → Except PrefixFault Unit
  | [] => .ok ()
  | segment :: rest =>
    if segment = [] then .error .emptySegment
    else match validate segment with
    | .error e => .error e
    | .ok () => validateSegments rest

/-- A prefix is segments that are each accepted. -/
def validateNamespace (ns : Bytes) : Except PrefixFault Unit :=
  if ns = [] then .ok () else validateSegments (ns.splitOn sep)

/-- The segments that are not empty, with separators between them. -/
def joinSegments (segments : List Bytes) : Bytes :=
  join [sep] (segments.filter (· ≠ []))

/-! ### Caches behind a prefix -/

/-- What the callers get: an instance by itself, or behind a prefix. -/
inductive View (ι : Type)
  | bare (c : ι)
  | prefixed (inner : ι) (pre : Bytes)

variable {ι E : Type}

/-- The key that is sent for a caller's key. -/
def View.key : View ι → Bytes → Bytes
  | .bare _, key => key
  | .prefixed _ pre, key => pre ++ sep :: key

/-- Why a cache is not put behind a prefix. -/
inductive KeyPrefixError
  | nilCache
  | invalid (pre : Bytes) (fault : PrefixFault)
  deriving DecidableEq

/-- `WithKeyPrefix`; no instance is a nil cache. -/
def withKeyPrefix (c : Option ι) (pre : Bytes) : Except KeyPrefixError (View ι) :=
  match c with
  | none => .error .nilCache
  | some c =>
    match validateNamespace pre with
    | .error fault => .error (.invalid pre fault)
    | .ok () => .ok (if pre = [] then .bare c else .prefixed c pre)

/-! ### The connector -/

/-- A section of the configuration, of which the prefix counts. -/
structure CacheConfig where
  keyPrefix : Option Bytes

/-- What the store of sections says. -/
inductive StoreAnswer (E : Type)
  | noStore
  | answer (cfg : Option CacheConfig)
  /-- No section is declared. -/
  | configError
  | failed (e : E)

/-- The section of a store; a section that is not declared is none. -/
def readCacheSectionForNamespace : StoreAnswer E → Except E (Option CacheConfig)
  | .noStore => .ok none
  | .answer cfg => .ok cfg
  | .configError => .ok none
  | .failed e => .error e

/-- The base, and whether a section delivered it. -/
def cacheKeyPrefixBase (appName : Bytes) (resolved : Option CacheConfig) (store : StoreAnswer E) :
    Except E (Bytes × Bool) :=
  let resolved : Except E (Option CacheConfig) :=
    match resolved with
    | some cfg => .ok (some cfg)
    | none => readCacheSectionForNamespace store
  resolved.map fun resolved ↦
    match resolved.bind CacheConfig.keyPrefix with
    | some pre => (pre, true)
    | none => (appName, false)

/-- Why the connector fails. -/
inductive ConnectorError (E : Type)
  | inner (e : E)
  | unreadable (e : E)
  | invalidBase (base : Bytes) (fault : PrefixFault)
  | unusable (e : KeyPrefixError)
  | unresolvedNamespace

/-- What the connector returns, and whether it closes the instance that was dialed. -/
structure Connected (ι E : Type) where
  result : Except (ConnectorError E) (View ι)
  closes : Bool

/-- The connector dials, resolves the base and puts the cache behind it. -/
def namespacedCacheConnector (appName : Bytes) (inner : Except E (Option ι × Option CacheConfig))
    (store : StoreAnswer E) (key : Bytes) : Connected ι E :=
  match inner with
  | .error e => ⟨.error (.inner e), false⟩
  | .ok (instance?, resolved) =>
    match cacheKeyPrefixBase appName resolved store with
    | .error e => ⟨.error (.unreadable e), true⟩
    | .ok (base, explicit) =>
      -- The base is judged before the tenant is joined to it.
      match validate base with
      | .error fault => ⟨.error (.invalidBase base fault), true⟩
      | .ok () =>
        let pre := joinSegments [base, key]
        match withKeyPrefix instance? pre with
        | .error e => ⟨.error (.unusable e), e ≠ .nilCache⟩
        | .ok namespaced =>
          if pre = [] ∧ explicit = false then ⟨.error .unresolvedNamespace, true⟩
          else ⟨.ok namespaced, false⟩

/-- The connector builds the cache for a base and a resource key. -/
def IsBuilt (view : View ι) (base key : Bytes) : Prop :=
  ∃ (E : Type) (appName : Bytes) (instance? : Option ι) (resolved : Option CacheConfig)
    (store : StoreAnswer E) (explicit : Bool),
    cacheKeyPrefixBase appName resolved store = .ok (base, explicit) ∧
      (namespacedCacheConnector appName (.ok (instance?, resolved)) store key).result = .ok view

/-! ### Keys -/

/-- A valid prefix has no separator. -/
theorem sep_not_mem_of_validate {pre : Bytes} (h : validate pre = .ok ()) : sep ∉ pre := by
  rw [validate] at h
  split at h
  · next hnil =>
    rw [hnil]
    exact List.not_mem_nil
  · split at h
    · cases h
    · split at h
      · cases h
      · next hsep => simpa using hsep

/-- A view with a prefix puts it before its keys. -/
theorem withKeyPrefix_eq_ok {c : Option ι} {pre : Bytes} {view : View ι}
    (h : withKeyPrefix c pre = .ok view) (hpre : pre ≠ []) :
    ∃ inner, view = .prefixed inner pre := by
  cases c with
  | none => cases h
  | some inner =>
    rw [withKeyPrefix] at h
    split at h
    · cases h
    · cases h
      rw [if_neg hpre]
      exact ⟨inner, rfl⟩

/-- What follows the base in a key. -/
def behindBase (key c : Bytes) : Bytes :=
  if key = [] then c else key ++ sep :: c

/-- A key begins with the base, and the base is one segment. -/
theorem IsBuilt.key_eq {view : View ι} {base key : Bytes} (h : IsBuilt view base key)
    (hbase : base ≠ []) (c : Bytes) :
    sep ∉ base ∧ view.key c = base ++ sep :: behindBase key c := by
  obtain ⟨E, appName, instance?, resolved, store, explicit, hresolve, hview⟩ := h
  rw [namespacedCacheConnector] at hview
  rw [hresolve] at hview
  dsimp only at hview
  split at hview
  · cases hview
  · next hvalid =>
    refine ⟨sep_not_mem_of_validate hvalid, ?_⟩
    have hpre : joinSegments [base, key] = if key = [] then base else base ++ sep :: key := by
      by_cases hkey : key = []
      · simp [joinSegments, hkey, hbase, join_cons]
      · simp [joinSegments, hkey, hbase, join_cons]
    have hpre_ne : joinSegments [base, key] ≠ [] := by
      rw [hpre]
      split
      · exact hbase
      · simp [hbase]
    split at hview
    · cases hview
    · next namespaced hwith =>
      obtain ⟨inner, rfl⟩ := withKeyPrefix_eq_ok hwith hpre_ne
      rw [if_neg fun h ↦ hpre_ne h.1] at hview
      cases hview
      rw [View.key, hpre, behindBase]
      split
      · rfl
      · rw [List.append_assoc, List.cons_append]

/-! ### The server -/

/-- The entries of a server. -/
abbrev Server := Bytes → Option Bytes

/-- The operations that a server has on a key, of any kind. They leave the other keys alone. -/
structure Backend (Op : Type) where
  after (op : Op) (key : Bytes) (s : Server) : Server
  after_of_ne {key key' : Bytes} (op : Op) (s : Server) : key' ≠ key → after op key s key' = s key'

/-- An operation of a cache. -/
def View.run {Op : Type} (B : Backend Op) (view : View ι) (op : Op) (key : Bytes) (s : Server) :
    Server :=
  B.after op (view.key key) s

/-! ### Isolation -/

section

variable {view₁ view₂ : View ι} {base₁ base₂ key₁ key₂ : Bytes}

/-- What is behind one base is told apart by the tenants, but for the root's. -/
theorem behindBase_eq_iff (hkey₁ : sep ∉ key₁) (hkey₂ : sep ∉ key₂) (hne : key₁ ≠ key₂)
    (c₁ c₂ : Bytes) : behindBase key₁ c₁ = behindBase key₂ c₂ ↔
      key₁ = [] ∧ c₁ = key₂ ++ sep :: c₂ ∨ key₂ = [] ∧ c₂ = key₁ ++ sep :: c₁ := by
  rw [behindBase, behindBase]
  by_cases h₁ : key₁ = []
  · have h₂ : key₂ ≠ [] := fun h ↦ hne (h₁.trans h.symm)
    simp [h₁, h₂]
  · by_cases h₂ : key₂ = []
    · simp only [h₁, h₂, if_true, if_false, false_and, true_and, false_or]
      exact eq_comm
    · simp only [h₁, h₂, if_false, false_and, or_false, iff_false]
      intro heq
      have hcut := congrArg (cut sep) heq
      rw [cut_append hkey₁, cut_append hkey₂] at hcut
      exact hne (Prod.mk.inj (Option.some.inj hcut)).1

/-- Two caches that are built for different bases or resource keys send the same key exactly if they
have one base, one of them is the root, and the caller's key of the root is the tenant and the
caller's key of the other; whenever the keys differ, no operation of the one changes what the other
has. -/
theorem key_eq_iff (h₁ : IsBuilt view₁ base₁ key₁) (h₂ : IsBuilt view₂ base₂ key₂)
    (hbase₁ : base₁ ≠ []) (hbase₂ : base₂ ≠ []) (hkey₁ : sep ∉ key₁) (hkey₂ : sep ∉ key₂)
    (hne : (base₁, key₁) ≠ (base₂, key₂)) (c₁ c₂ : Bytes) :
    (view₁.key c₁ = view₂.key c₂ ↔ base₁ = base₂ ∧
      (key₁ = [] ∧ c₁ = key₂ ++ sep :: c₂ ∨ key₂ = [] ∧ c₂ = key₁ ++ sep :: c₁)) ∧
    (view₁.key c₁ ≠ view₂.key c₂ → ∀ {Op : Type} (B : Backend Op) (op : Op) (s : Server),
      view₁.run B op c₁ s (view₂.key c₂) = s (view₂.key c₂)) := by
  obtain ⟨hsep₁, hview₁⟩ := h₁.key_eq hbase₁ c₁
  obtain ⟨hsep₂, hview₂⟩ := h₂.key_eq hbase₂ c₂
  refine ⟨?_, fun hkeys _ B op s ↦ B.after_of_ne op s hkeys.symm⟩
  rw [hview₁, hview₂]
  constructor
  · intro heq
    have hcut := congrArg (cut sep) heq
    rw [cut_append hsep₁, cut_append hsep₂] at hcut
    obtain ⟨rfl, hbehind⟩ := Prod.mk.inj (Option.some.inj hcut)
    have hkeys : key₁ ≠ key₂ := fun h ↦ hne (h ▸ rfl)
    exact ⟨rfl, (behindBase_eq_iff hkey₁ hkey₂ hkeys c₁ c₂).mp hbehind⟩
  · rintro ⟨rfl, hcases⟩
    have hkeys : key₁ ≠ key₂ := fun h ↦ hne (h ▸ rfl)
    rw [(behindBase_eq_iff hkey₁ hkey₂ hkeys c₁ c₂).mpr hcases]

end

/-- A cache of the base `orders`. -/
def ordersCache (key : Bytes) : Connected ℕ Unit :=
  namespacedCacheConnector (ascii "orders") (.ok (some 0, none)) .noStore key

theorem isBuilt_ordersCache {key : Bytes} {view : View ℕ}
    (h : (ordersCache key).result = .ok view) : IsBuilt view (ascii "orders") key :=
  ⟨Unit, ascii "orders", some 0, none, .noStore, false, rfl, h⟩

/-- The root cache and the cache of a tenant overwrite each other. -/
theorem key_root_eq_tenant :
    ∃ root tenant : View ℕ, IsBuilt root (ascii "orders") [] ∧
      IsBuilt tenant (ascii "orders") (ascii "acme") ∧
      root.key (ascii "acme:user:1") = tenant.key (ascii "user:1") :=
  ⟨.prefixed 0 (ascii "orders"), .prefixed 0 (ascii "orders:acme"), isBuilt_ordersCache rfl,
    isBuilt_ordersCache rfl, by decide⟩

/-- A server that stores values. -/
def storing : Backend Bytes where
  after value key s := Function.update s key (some value)
  after_of_ne value s h := Function.update_of_ne h (some value) s

/-- Two tenants of one base. -/
theorem key_eq_iff_tenants : ∃ acme blue : View ℕ,
    IsBuilt acme (ascii "orders") (ascii "acme") ∧ IsBuilt blue (ascii "orders") (ascii "blue") ∧
    acme.key (ascii "blue:x") ≠ blue.key (ascii "x") ∧ ∀ value s,
      acme.run storing value (ascii "blue:x") s (blue.key (ascii "x")) =
        s (blue.key (ascii "x")) := by
  have hacme : IsBuilt (.prefixed 0 (ascii "orders:acme")) (ascii "orders") (ascii "acme") :=
    isBuilt_ordersCache rfl
  have hblue : IsBuilt (.prefixed 0 (ascii "orders:blue")) (ascii "orders") (ascii "blue") :=
    isBuilt_ordersCache rfl
  obtain ⟨hiff, hframe⟩ := key_eq_iff hacme hblue (by decide) (by decide) (by decide) (by decide)
    (by decide) (ascii "blue:x") (ascii "x")
  have hne : (View.prefixed 0 (ascii "orders:acme")).key (ascii "blue:x") ≠
      (View.prefixed 0 (ascii "orders:blue")).key (ascii "x") := by
    intro heq
    rcases (hiff.mp heq).2 with ⟨hnil, -⟩ | ⟨hnil, -⟩
    · exact absurd hnil (by decide)
    · exact absurd hnil (by decide)
  exact ⟨_, _, hacme, hblue, hne, hframe hne storing⟩

end Cache
