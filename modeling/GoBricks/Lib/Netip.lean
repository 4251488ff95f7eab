import GoBricks.Lib.Text
import Mathlib.Data.List.TakeWhile

/-!
# Addresses in Go

The parts of package `net` that read addresses: `ParseIP`, `SplitHostPort`, `IPNet.Contains` and the
classes of addresses. An address is a slice of four or sixteen bytes; `parseIP` returns sixteen,
with an IPv4 address mapped.

What `parseIP` and `splitHostPort` with a port accept is made of hexadecimal digits, points, colons
and brackets (`parseIP_bytes`, `splitHostPort_bytes`), so that no list separator is in it.
-/

open Text List Option

namespace Netip

/-! ### Reading addresses -/

/-- A decimal digit. -/
def isDigit (c : UInt8) : Bool :=
  0x30 ≤ c && c ≤ 0x39

/-- The value of a hexadecimal digit. -/
def hexDigit (c : UInt8) : Option ℕ :=
  if isDigit c then some (c.toNat - 0x30)
  else if 0x61 ≤ c && c ≤ 0x66 then some (c.toNat - 0x61 + 10)
  else if 0x41 ≤ c && c ≤ 0x46 then some (c.toNat - 0x41 + 10)
  else none

/-- The fields of a dotted address, given the complete ones and the value and the number of digits
of the one that is being read. -/
def parseIPv4Fields (fields : Bytes) (val digits : ℕ) : Bytes → Option Bytes
  | [] => if fields.length < 3 then none else some (fields ++ [.ofNat val])
  | c :: s =>
    if isDigit c then
      -- A field has no leading zero.
      if digits = 1 ∧ val = 0 then none
      else
        let val := val * 10 + (c.toNat - 0x30)
        if 255 < val then none else parseIPv4Fields fields val (digits + 1) s
    else if c = 0x2E then
      if digits = 0 ∨ s = [] then none
      else if fields.length = 3 then none
      else parseIPv4Fields (fields ++ [.ofNat val]) 0 0 s
    else none

/-- The bytes of up to `n` groups and where the ellipsis stands among them. -/
def parseGroups : ℕ → Bytes → Option ℕ → Bytes → Option (Bytes × Option ℕ)
  | 0, ip, ellipsis, s => if s = [] then some (ip, ellipsis) else none
  | n + 1, ip, ellipsis, s =>
    let digits := s.takeWhile fun c ↦ (hexDigit c).isSome
    if digits = [] ∨ 4 < digits.length then none
    else match s.dropWhile fun c ↦ (hexDigit c).isSome with
    | [] => some (ip ++ group digits, ellipsis)
    | c :: s' =>
      if c = 0x2E then
        if ellipsis = none ∧ ip.length ≠ 12 then none
        else if 16 < ip.length + 4 then none
        else (parseIPv4Fields [] 0 0 s).map fun v4 ↦ (ip ++ v4, ellipsis)
      else if c ≠ 0x3A then none
      else match s' with
      | [] => none
      | d :: s'' =>
        let ip := ip ++ group digits
        if d = 0x3A then
          if ellipsis.isSome then none
          else if s'' = [] then some (ip, some ip.length)
          else parseGroups n ip (some ip.length) s''
        else parseGroups n ip ellipsis s'
where
  /-- The two bytes of a group. -/
  group (digits : Bytes) : Bytes :=
    let acc := digits.foldl (fun acc c ↦ acc * 16 + (hexDigit c).getD 0) 0
    [.ofNat (acc / 256), .ofNat (acc % 256)]

/-- The sixteen bytes of an IPv6 address, with `::` for zeros and IPv4 at its end. -/
def parseIPv6 (s : Bytes) : Option Bytes :=
  let leading := [0x3A, 0x3A].isPrefixOf s
  let rest := if leading then s.drop 2 else s
  if leading ∧ rest = [] then some (.replicate 16 0)
  else
    (parseGroups 8 [] (if leading then some 0 else none) rest).bind fun (ip, ellipsis) ↦
      if ip.length < 16 then
        ellipsis.map fun e ↦ ip.take e ++ .replicate (16 - ip.length) 0 ++ ip.drop e
      else if ellipsis.isSome then none
      else some ip

/-- What an IPv4 address has before it in sixteen bytes. -/
def v4InV6Prefix : Bytes :=
  [0, 0, 0, 0, 0, 0, 0, 0, 0, 0, 0xFF, 0xFF]

/-- `ParseIP`. A zone is refused, as a percent sign is in neither form. -/
def parseIP (s : Bytes) : Option Bytes :=
  match s.find? fun c ↦ c == 0x2E || c == 0x3A || c == 0x25 with
  | some c =>
    if c = 0x2E then (parseIPv4Fields [] 0 0 s).map (v4InV6Prefix ++ ·)
    else if c = 0x3A then parseIPv6 s
    else none
  | none => none

/-- `SplitHostPort`: the host and the port of a text, by the last colon. -/
def splitHostPort (hostport : Bytes) : Option (Bytes × Bytes) :=
  match cutLast 0x3A hostport with
  | none => none
  | some (host, port) =>
    if hostport.head? = some 0x5B then
      -- The first closing bracket stands right before the last colon, and no bracket comes again.
      if host.idxOf 0x5D + 1 ≠ host.length then none
      else if 0x5B ∈ hostport.drop 1 ∨ 0x5D ∈ port then none
      else some ((host.drop 1).dropLast, port)
    else if 0x3A ∈ host ∨ 0x5B ∈ hostport ∨ 0x5D ∈ hostport then none
    else some (host, port)

/-- `strconv.ParseUint` for a decimal number of sixteen bits. -/
def parseUint16 (s : Bytes) : Option ℕ :=
  if s = [] ∨ ¬s.all isDigit then none
  else
    let n := s.foldl (fun n c ↦ n * 10 + (c.toNat - 0x30)) 0
    if 65535 < n then none else some n

/-! ### Networks and classes -/

/-- The four bytes of an IPv4 address. -/
def to4 (ip : Bytes) : Option Bytes :=
  if ip.length = 4 then some ip
  else if ip.length = 16 ∧ v4InV6Prefix.isPrefixOf ip then some (ip.drop 12)
  else none

/-- A range of addresses. -/
structure IPNet where
  ip : Bytes
  mask : Bytes
  deriving DecidableEq

/-- The number of a network and its mask, of one length. -/
def IPNet.networkNumberAndMask (n : IPNet) : Option (Bytes × Bytes) :=
  let ip := (to4 n.ip).getD n.ip
  if ip.length ≠ 4 ∧ ip.length ≠ 16 then none
  else if n.mask.length = 4 then if ip.length = 4 then some (ip, n.mask) else none
  else if n.mask.length = 16 then
    some (ip, if ip.length = 4 then n.mask.drop 12 else n.mask)
  else none

/-- An address is in the network. -/
def IPNet.contains (n : IPNet) (ip : Bytes) : Bool :=
  match n.networkNumberAndMask with
  | none => false
  | some (number, mask) =>
    let ip := (to4 ip).getD ip
    ip.length = number.length ∧
      List.zipWith (· &&& ·) number mask = List.zipWith (· &&& ·) ip mask

/-- Equal, an IPv4 address in either form. -/
def ipEqual (ip x : Bytes) : Bool :=
  ip = x || (to4 ip).isSome && to4 ip = to4 x

/-- `::1` -/
def ipv6Loopback : Bytes :=
  .replicate 15 0 ++ [1]

/-- `IsLoopback` -/
def isLoopback (ip : Bytes) : Bool :=
  match to4 ip with
  | some ip4 => ip4[0]? == some 127
  | none => ipEqual ip ipv6Loopback

/-- `IsUnspecified` -/
def isUnspecified (ip : Bytes) : Bool :=
  ipEqual ip [0, 0, 0, 0] || ipEqual ip (.replicate 16 0)

/-- `IsMulticast` -/
def isMulticast (ip : Bytes) : Bool :=
  match to4 ip with
  | some ip4 => ip4[0]?.map (· &&& 0xF0) == some 0xE0
  | none => ip.length = 16 && ip[0]? == some 0xFF

/-- `IsLinkLocalMulticast` -/
def isLinkLocalMulticast (ip : Bytes) : Bool :=
  match to4 ip with
  | some ip4 => [224, 0, 0].isPrefixOf ip4
  | none => ip.length = 16 && ip[0]? == some 0xFF && ip[1]?.map (· &&& 0x0F) == some 0x02

/-- `IsLinkLocalUnicast` -/
def isLinkLocalUnicast (ip : Bytes) : Bool :=
  match to4 ip with
  | some ip4 => [169, 254].isPrefixOf ip4
  | none => ip.length = 16 && ip[0]? == some 0xFE && ip[1]?.map (· &&& 0xC0) == some 0x80

/-! ### The bytes of an address -/

/-- A byte of an address, or a bracket. -/
def isAddressByte (c : UInt8) : Bool :=
  (hexDigit c).isSome || [0x2E, 0x3A, 0x5B, 0x5D].contains c

theorem isAddressByte_of_isDigit {c : UInt8} (h : isDigit c) : isAddressByte c := by
  rw [isAddressByte, hexDigit, if_pos h]
  rfl

theorem parseIPv4Fields_bytes {fields s v4 : Bytes} {val digits : ℕ}
    (h : parseIPv4Fields fields val digits s = some v4) : ∀ c ∈ s, isAddressByte c := by
  induction s generalizing fields val digits with
  | nil => exact nofun
  | cons c s ih =>
    rw [parseIPv4Fields] at h
    rw [forall_mem_cons]
    split at h
    · next hdigit =>
      rw [ite_none_left_eq_some, ite_none_left_eq_some] at h
      exact ⟨isAddressByte_of_isDigit hdigit, ih h.2.2⟩
    · split at h
      · next hc =>
        rw [ite_none_left_eq_some, ite_none_left_eq_some] at h
        exact ⟨hc ▸ rfl, ih h.2.2⟩
      · cases h

theorem parseGroups_bytes {n : ℕ} {ip s : Bytes} {ellipsis : Option ℕ} {r : Bytes × Option ℕ}
    (h : parseGroups n ip ellipsis s = some r) : ∀ c ∈ s, isAddressByte c := by
  induction n generalizing ip ellipsis s with
  | zero =>
    rw [parseGroups, ite_none_right_eq_some] at h
    rw [h.1]
    exact nofun
  | succ n ih =>
    rw [parseGroups, ite_none_left_eq_some] at h
    obtain ⟨-, h⟩ := h
    have hdigits : ∀ c ∈ s.takeWhile fun c ↦ (hexDigit c).isSome, isAddressByte c := by
      intro c hc
      rw [isAddressByte, mem_takeWhile_imp hc]
      rfl
    -- What follows the digits is the rest of the address, or a dotted one that starts with them.
    suffices hrest : (∀ c ∈ s.dropWhile fun c ↦ (hexDigit c).isSome, isAddressByte c) ∨
        ∀ c ∈ s, isAddressByte c by
      rcases hrest with hrest | hall
      · intro c hc
        rw [← takeWhile_append_dropWhile (p := fun c ↦ (hexDigit c).isSome) (l := s),
          mem_append] at hc
        exact hc.elim (hdigits c) (hrest c)
      · exact hall
    split at h
    · next hnil => exact .inl (hnil ▸ nofun)
    · next c s' hcons =>
      rw [hcons]
      split at h
      · rw [ite_none_left_eq_some, ite_none_left_eq_some, map_eq_some_iff] at h
        obtain ⟨-, -, v4, hv4, -⟩ := h
        exact .inr (parseIPv4Fields_bytes hv4)
      · rw [ite_none_left_eq_some, not_not] at h
        obtain ⟨rfl, h⟩ := h
        refine .inl (forall_mem_cons.mpr ⟨rfl, ?_⟩)
        split at h
        · exact nofun
        · next d s'' =>
          split at h
          · next hd =>
            rw [ite_none_left_eq_some] at h
            refine forall_mem_cons.mpr ⟨hd ▸ rfl, ?_⟩
            split at h
            · next hnil => exact hnil ▸ nofun
            · exact ih h.2
          · exact ih h

/-- An address consists of the bytes of one. -/
theorem parseIP_bytes {s ip : Bytes} (h : parseIP s = some ip) : ∀ c ∈ s, isAddressByte c := by
  rw [parseIP] at h
  split at h
  · split at h
    · obtain ⟨v4, hv4, -⟩ := map_eq_some_iff.mp h
      exact parseIPv4Fields_bytes hv4
    · rw [ite_none_right_eq_some, parseIPv6] at h
      obtain ⟨-, h⟩ := h
      have hleading : [0x3A, 0x3A].isPrefixOf s → (∀ c ∈ s.drop 2, isAddressByte c) →
          ∀ c ∈ s, isAddressByte c := by
        intro hhead htail
        obtain ⟨rest, rfl⟩ := isPrefixOf_iff_prefix.mp hhead
        exact forall_mem_cons.mpr ⟨rfl, forall_mem_cons.mpr ⟨rfl, htail⟩⟩
      by_cases hhead : [0x3A, 0x3A].isPrefixOf s
      · refine hleading hhead ?_
        simp only [hhead, if_true, true_and] at h
        split at h
        · next hnil => exact hnil ▸ nofun
        · obtain ⟨r, hr, -⟩ := bind_eq_some_iff.mp h
          exact parseGroups_bytes hr
      · simp only [hhead, Bool.false_eq_true, if_false, false_and] at h
        obtain ⟨r, hr, -⟩ := bind_eq_some_iff.mp h
        exact parseGroups_bytes hr
  · cases h

/-- A text with a port is its host and its port, with a colon and brackets. -/
theorem splitHostPort_bytes {s host port : Bytes} (h : splitHostPort s = some (host, port))
    {c : UInt8} (hc : c ∈ s) : c ∈ host ∨ c ∈ port ∨ isAddressByte c := by
  rw [splitHostPort] at h
  split at h
  · cases h
  · next before port' hcut =>
    have hs := eq_of_cutLast hcut
    have hcases : c ∈ before ∨ c = 0x3A ∨ c ∈ port' := by
      rw [hs, mem_append, mem_cons] at hc
      exact hc
    split at h
    · next hhead =>
      rw [ite_none_left_eq_some, ite_none_left_eq_some, not_not] at h
      obtain ⟨hstop, -, h⟩ := h
      cases h
      rcases hcases with hbefore | rfl | hport
      · -- The text before the colon is the host between brackets.
        obtain ⟨d, rest, rfl⟩ := exists_cons_of_ne_nil (ne_nil_of_mem hbefore)
        rw [hs, cons_append, List.head?_cons, some_inj] at hhead
        subst hhead
        rcases mem_cons.mp hbefore with rfl | hrest
        · exact .inr (.inr rfl)
        · have hne := ne_nil_of_mem hrest
          rw [← dropLast_append_getLast hne, mem_append, mem_singleton] at hrest
          rcases hrest with hmid | hlast
          · exact .inl hmid
          · refine .inr (.inr ?_)
            have hlt : (0x5B :: rest).idxOf 0x5D < (0x5B :: rest).length := by omega
            have hget := getElem_idxOf hlt
            have hidx : (0x5B :: rest).idxOf 0x5D = (0x5B :: rest).length - 1 := by omega
            rw [hlast, ← getLast_cons (a := 0x5B) hne, getLast_eq_getElem]
            simp only [hidx] at hget
            rw [hget]
            rfl
      · exact .inr (.inr rfl)
      · exact .inr (.inl hport)
    · rw [ite_none_left_eq_some] at h
      cases h.2
      rcases hcases with hhost | rfl | hport
      · exact .inl hhost
      · exact .inr (.inr rfl)
      · exact .inr (.inl hport)

end Netip
