import GoBricks.Lib.Netip
import GoBricks.Lib.Segments

/-!
# The client's address

`ClientIP` answers with the address of a request's peer, or, when the peer is a trusted proxy, with
an address from the header `X-Forwarded-For`, to which each proxy appends the peer it observed. The
header is walked from the right: what a client wrote stands left of what trusted proxies appended.

`clientIP_spoofing` says what the answer may depend on, that it is the client's address for every
path over trusted proxies whatever the client wrote, and which addresses it is never taken to be.
-/

open Text Netip List

namespace Server

/-- What separates entries. -/
def comma : UInt8 := 0x2C

/-- What `ClientIP` reads of a request: the lines of `X-Forwarded-For` in order. -/
structure Request where
  remoteAddr : Bytes
  forwardedFor : List Bytes

/-- An address is in one of the networks. -/
def ipInNets (ip : Bytes) (nets : List IPNet) : Bool :=
  nets.any (·.contains ip)

/-- The peer, without its port. -/
def extractPeerIP (remoteAddr : Bytes) : Bytes :=
  match splitHostPort remoteAddr with
  | none => remoteAddr
  | some (ip, _) => ip

/-- An entry without the white space around it. -/
def readEntry (raw : Bytes) : Bytes × Option Bytes :=
  let trimmed := if raw.head? = some 0x5B ∧ raw.getLast? = some 0x5D then raw.tail.dropLast else raw
  match parseIP trimmed with
  | some parsed => (trimmed, some parsed)
  | none =>
    match splitHostPort raw with
    | none => (trimmed, none)
    | some (host, port) =>
      match parseUint16 port with
      | none => (trimmed, none)
      | some n =>
        if n = 0 then (trimmed, none)
        else match parseIP host with
        | some parsed => (host, some parsed)
        | none => (trimmed, none)

/-- The text of an entry and its address. -/
def parseChainEntry (entry : Bytes) : Bytes × Option Bytes :=
  readEntry (trimSpace entry)

/-- An address that no proxy observes a client at. -/
def isSpecial (ip : Bytes) : Bool :=
  isLoopback ip || isUnspecified ip || isLinkLocalUnicast ip || isMulticast ip ||
    isLinkLocalMulticast ip

variable (trustedProxies : List IPNet)

/-- The walk over the entries, the last one first. -/
def walkChain (peerIP : Bytes) : List Bytes → Bytes
  | [] => peerIP
  | entry :: ips =>
    if trimSpace entry = [] then walkChain peerIP ips
    else match parseChainEntry entry with
    | (_, none) => peerIP
    | (ipStr, some ip) =>
      if !ipInNets ip trustedProxies then if isSpecial ip then peerIP else ipStr
      else walkChain peerIP ips

/-- The chain is walked from its end. -/
def resolveXForwardedFor (xff peerIP : Bytes) : Bytes :=
  walkChain trustedProxies peerIP (xff.splitOn comma).reverse

/-- `ClientIP`: the chain counts only when the peer is trusted. -/
def clientIP (r : Request) : Bytes :=
  let peerIP := extractPeerIP r.remoteAddr
  if peerIP = [] then r.remoteAddr
  else if trustedProxies = [] then peerIP
  else match parseIP peerIP with
  | none => peerIP
  | some peer =>
    if !ipInNets peer trustedProxies then peerIP
    else if r.forwardedFor = [] then peerIP
    else resolveXForwardedFor trustedProxies (join [comma] r.forwardedFor) peerIP

/-! ### Entries -/

/-- The entries of all lines. -/
def entries (lines : List Bytes) : List Bytes :=
  lines.flatMap (·.splitOn comma)

theorem entries_append (lines lines' : List Bytes) :
    entries (lines ++ lines') = entries lines ++ entries lines' :=
  flatMap_append

theorem entries_singleton (line : Bytes) : entries [line] = line.splitOn comma :=
  flatMap_singleton _ _

/-- Lines joined by commas have the entries of the lines. -/
theorem splitOn_join {lines : List Bytes} (hne : lines ≠ []) :
    (join [comma] lines).splitOn comma = entries lines := by
  induction lines with
  | nil => exact absurd rfl hne
  | cons line lines ih =>
    cases lines with
    | nil => rw [join_cons, flatMap_nil, append_nil, entries_singleton]
    | cons line' lines =>
      have hjoin : join [comma] (line :: line' :: lines) =
          line ++ comma :: join [comma] (line' :: lines) := by
        rfl
      rw [hjoin, splitOn_append_cons_self, ih (cons_ne_nil _ _)]
      rfl

/-- An entry at which the walk ends: it is not blank, and untrusted or unreadable. -/
def stops (entry : Bytes) : Bool :=
  trimSpace entry ≠ [] && match (parseChainEntry entry).2 with
    | none => true
    | some ip => !ipInNets ip trustedProxies

/-- The entries from the right up to and including the first at which the walk ends. -/
def decisive (lines : List Bytes) : List Bytes :=
  let passed := (entries lines).reverse.takeWhile (!stops trustedProxies ·)
  passed ++ ((entries lines).reverse.drop passed.length).take 1

variable {trustedProxies}

/-- What the walk passes does not matter. -/
theorem walkChain_of_stops_eq_false {peerIP entry : Bytes} {ips : List Bytes}
    (h : stops trustedProxies entry = false) :
    walkChain trustedProxies peerIP (entry :: ips) = walkChain trustedProxies peerIP ips := by
  rw [walkChain]
  split
  · rfl
  · next hblank =>
    rw [stops, decide_eq_true hblank, Bool.true_and] at h
    split
    · next heq =>
      rw [heq] at h
      cases h
    · next ipStr ip heq =>
      rw [heq] at h
      exact if_neg (Bool.eq_false_iff.mp h)

/-- What is behind an entry that stops the walk does not count. -/
theorem walkChain_of_stops {peerIP entry : Bytes} {ips ips' : List Bytes}
    (h : stops trustedProxies entry) :
    walkChain trustedProxies peerIP (entry :: ips) =
      walkChain trustedProxies peerIP (entry :: ips') := by
  rw [stops, Bool.and_eq_true, decide_eq_true_iff] at h
  obtain ⟨hblank, h⟩ := h
  rw [walkChain, walkChain, if_neg hblank, if_neg hblank]
  split
  · rfl
  · next ipStr ip heq =>
    rw [heq] at h
    rw [if_pos h, if_pos h]

/-- The walk depends on the decisive entries only. -/
theorem walkChain_decisive (peerIP : Bytes) (ips : List Bytes) :
    walkChain trustedProxies peerIP ips =
      let passed := ips.takeWhile (!stops trustedProxies ·)
      walkChain trustedProxies peerIP (passed ++ (ips.drop passed.length).take 1) := by
  induction ips with
  | nil => rfl
  | cons entry ips ih =>
    cases hstops : stops trustedProxies entry with
    | true =>
      rw [takeWhile_cons_of_neg (by rw [hstops]; decide)]
      exact walkChain_of_stops hstops
    | false =>
      rw [takeWhile_cons_of_pos (by rw [hstops]; decide), walkChain_of_stops_eq_false hstops,
        ih]
      exact (walkChain_of_stops_eq_false hstops).symm

/-! ### Reading -/

/-- An address that was read is the address of the text that is returned with it. -/
theorem parseIP_of_readEntry {raw ipStr ip : Bytes} (h : readEntry raw = (ipStr, some ip)) :
    parseIP ipStr = some ip := by
  rw [readEntry] at h
  split at h
  · next parsed hparsed =>
    cases h
    exact hparsed
  · split at h
    · cases h
    · split at h
      · cases h
      · split at h
        · cases h
        · split at h
          · next parsed hparsed =>
            cases h
            exact hparsed
          · cases h

theorem mem_tail_dropLast {raw : Bytes} {c a b : UInt8} (hhead : raw.head? = some a)
    (hlast : raw.getLast? = some b) (hc : c ∈ raw) : c = a ∨ c ∈ raw.tail.dropLast ∨ c = b := by
  obtain ⟨rest, rfl⟩ := List.head?_eq_some_iff.mp hhead
  rcases mem_cons.mp hc with rfl | hrest
  · exact .inl rfl
  · have hne := ne_nil_of_mem hrest
    rw [List.getLast?_cons, List.getLast?_eq_some_getLast hne, Option.getD_some,
      Option.some_inj] at hlast
    rw [← dropLast_append_getLast hne, mem_append, mem_singleton, hlast] at hrest
    exact .inr hrest

/-- What can be read holds no separator. -/
theorem comma_notMem_of_readEntry {raw ipStr ip : Bytes} (h : readEntry raw = (ipStr, some ip)) :
    comma ∉ raw := by
  have haddress : isAddressByte comma = false := by decide
  have hparse : ∀ {s ip}, parseIP s = some ip → comma ∉ s := fun hs hc ↦
    absurd (parseIP_bytes hs comma hc) (Bool.eq_false_iff.mp haddress)
  intro hc
  rw [readEntry] at h
  split at h
  · next parsed hparsed =>
    split at hparsed
    · next hbrackets =>
      rcases mem_tail_dropLast hbrackets.1 hbrackets.2 hc with hc | hc | hc
      · exact absurd hc (by decide)
      · exact hparse hparsed hc
      · exact absurd hc (by decide)
    · exact hparse hparsed hc
  · split at h
    · cases h
    · next host port hsplit =>
      split at h
      · cases h
      · next n hport =>
        split at h
        · cases h
        · split at h
          · next parsed hparsed =>
            rcases splitHostPort_bytes hsplit hc with hc | hc | hc
            · exact hparse hparsed hc
            · rw [parseUint16, Option.ite_none_left_eq_some, not_or, not_not] at hport
              have hdigit := List.all_eq_true.mp hport.1.2 comma hc
              exact absurd hdigit (by decide)
            · exact absurd hc (Bool.eq_false_iff.mp haddress)
          · cases h

/-! ### Paths over proxies -/

/-- An entry that stands for an address. -/
def Reads (entry ip : Bytes) : Prop :=
  (parseChainEntry entry).2 = some ip

/-- What the entries say: blanks are ignored, and so is the white space around the others. -/
def content (lines : List Bytes) : List Bytes :=
  ((entries lines).map trimSpace).filter (· ≠ [])

/-- Appends an entry to the header: in a line of its own, at the end of the last line, or to all the
lines joined to one. -/
inductive Appends (entry : Bytes) : List Bytes → List Bytes → Prop
  | line (lines : List Bytes) : Appends entry lines (lines ++ [entry])
  | last (lines : List Bytes) (last : Bytes) :
    Appends entry (lines ++ [last]) (lines ++ [last ++ comma :: entry])
  | joined (lines : List Bytes) : Appends entry lines [join [comma, 0x20] (lines ++ [entry])]

/-- How a request with the header `initial` comes from a client: `peer` is who the next one
observes, and `lines` is the header it gets. Each proxy appends the peer that it observed. -/
inductive Path (trustedProxies : List IPNet) (client : Bytes) (initial : List Bytes) :
    Bytes → List Bytes → Prop
  | direct : Path trustedProxies client initial client initial
  | hop {peer proxy entry : Bytes} {lines lines' : List Bytes} :
    Path trustedProxies client initial peer lines → Reads entry peer →
      Appends entry lines lines' → ipInNets proxy trustedProxies →
        Path trustedProxies client initial proxy lines'

theorem content_append (lines lines' : List Bytes) :
    content (lines ++ lines') = content lines ++ content lines' := by
  rw [content, entries_append, map_append, filter_append]
  rfl

theorem Reads.readEntry {entry ip : Bytes} (h : Reads entry ip) :
    ∃ ipStr, readEntry (trimSpace entry) = (ipStr, some ip) :=
  ⟨_, Prod.ext rfl h⟩

/-- An entry that reads as an address is content. -/
theorem content_entry {entry ip : Bytes} (h : Reads entry ip) :
    content [entry] = [trimSpace entry] := by
  obtain ⟨ipStr, hread⟩ := h.readEntry
  have hcomma : comma ∉ entry := fun hc ↦
    comma_notMem_of_readEntry hread (mem_trimSpace (by decide) hc)
  have hne : trimSpace entry ≠ [] := by
    intro hnil
    rw [hnil] at hread
    cases hread
  rw [content, entries_singleton, splitOn_eq_singleton hcomma, map_singleton,
    filter_singleton, decide_eq_true hne]
  rfl

/-- A comma ends an entry. -/
theorem content_line_append (a b : Bytes) :
    content [a ++ comma :: b] = content [a] ++ content [b] := by
  rw [content, entries_singleton, splitOn_append_cons_self, map_append,
    filter_append, content, content, entries_singleton, entries_singleton]

/-- A blank in front of a line changes nothing. -/
theorem content_blank_cons (line : Bytes) : content [0x20 :: line] = content [line] := by
  have hne : ((0x20 : UInt8) == comma) = false := by decide
  rw [content, content, entries_singleton, entries_singleton, List.splitOn_cons_eq_if_modifyHead,
    hne, if_neg Bool.false_ne_true]
  obtain ⟨first, rest, hsplit⟩ := List.exists_cons_of_ne_nil (List.splitOn_ne_nil comma line)
  rw [hsplit, List.modifyHead_cons, List.map_cons, List.map_cons, trimSpace_blank_cons]

/-- Joining lines keeps their content. -/
theorem content_join (lines : List Bytes) : content [join [comma, 0x20] lines] = content lines := by
  induction lines with
  | nil => rfl
  | cons line lines ih =>
    cases lines with
    | nil => rw [join_cons, flatMap_nil, append_nil]
    | cons line' lines =>
      have hjoin : join [comma, 0x20] (line :: line' :: lines) =
          line ++ comma :: 0x20 :: join [comma, 0x20] (line' :: lines) := by
        rfl
      rw [hjoin, content_line_append, content_blank_cons, ih, ← content_append]
      rfl

/-- A proxy that appends adds its entry at the end. -/
theorem Appends.content {entry ip : Bytes} {lines lines' : List Bytes}
    (h : Appends entry lines lines') (hentry : Reads entry ip) :
    content lines' = content lines ++ [trimSpace entry] := by
  rw [← content_entry hentry]
  cases h with
  | line => rw [content_append]
  | last lines last =>
    rw [content_append, content_append, append_assoc, content_line_append]
  | joined => rw [content_join, content_append]

/-- Behind a proxy, the client's entry stands in the header, and right of it only entries of trusted
proxies. -/
theorem Path.content {client peer : Bytes} {initial lines : List Bytes}
    (h : Path trustedProxies client initial peer lines) :
    peer = client ∧ lines = initial ∨ ipInNets peer trustedProxies ∧
      ∃ left entry right, content lines = left ++ entry :: right ∧
        (readEntry entry).2 = some client ∧
        ∀ e ∈ right, ∃ ip, (readEntry e).2 = some ip ∧ ipInNets ip trustedProxies := by
  induction h with
  | direct => exact .inl ⟨rfl, rfl⟩
  | @hop peer proxy entry lines lines' hpath hreads happends htrusted ih =>
    refine .inr ⟨htrusted, ?_⟩
    have hcontent := happends.content hreads
    rcases ih with ⟨rfl, rfl⟩ | ⟨hpeer, left, e, right, hlines, hread, hright⟩
    · exact ⟨_, _, [], hcontent, hreads, nofun⟩
    · refine ⟨left, e, right ++ [trimSpace entry], ?_, hread, fun e he ↦ ?_⟩
      · rw [hcontent, hlines, append_assoc, cons_append]
      · rcases mem_append.mp he with he | he
        · exact hright e he
        · rw [mem_singleton.mp he]
          exact ⟨peer, hreads, hpeer⟩

/-- The walk passes trusted proxies and ends at the client. -/
theorem walkChain_client {peerIP entry ipStr client : Bytes} {ips left right : List Bytes}
    (hips : (ips.map trimSpace).filter (· ≠ []) = right ++ entry :: left)
    (hright : ∀ e ∈ right, ∃ ip, (readEntry e).2 = some ip ∧ ipInNets ip trustedProxies)
    (hentry : readEntry entry = (ipStr, some client))
    (huntrusted : ipInNets client trustedProxies = false) (hspecial : isSpecial client = false) :
    walkChain trustedProxies peerIP ips = ipStr := by
  induction ips generalizing right with
  | nil => exact absurd hips.symm (append_ne_nil_of_right_ne_nil _ (cons_ne_nil _ _))
  | cons e ips ih =>
    rw [walkChain]
    by_cases hblank : trimSpace e = []
    · rw [if_pos hblank]
      rw [map_cons, hblank, filter_cons_of_neg (by simp)] at hips
      exact ih hips hright
    · rw [if_neg hblank]
      rw [map_cons, filter_cons_of_pos (by simpa using hblank)] at hips
      cases right with
      | nil =>
        obtain ⟨he, -⟩ := List.cons.inj hips
        rw [parseChainEntry, he, hentry]
        dsimp only
        rw [huntrusted, hspecial]
        rfl
      | cons r right =>
        obtain ⟨he, hips⟩ := List.cons.inj hips
        obtain ⟨⟨ip, hread, htrusted⟩, hright⟩ := forall_mem_cons.mp hright
        have hread : readEntry r = ((readEntry r).1, some ip) := Prod.ext rfl hread
        rw [parseChainEntry, he, hread]
        dsimp only
        rw [htrusted]
        exact ih hips hright

/-- An answer is the peer's address, or was read from an entry and is not special. -/
theorem walkChain_eq (peerIP : Bytes) (ips : List Bytes) :
    walkChain trustedProxies peerIP ips = peerIP ∨ ∃ entry ∈ ips, ∃ ip,
      parseChainEntry entry = (walkChain trustedProxies peerIP ips, some ip) ∧
        isSpecial ip = false := by
  induction ips with
  | nil => exact .inl rfl
  | cons entry ips ih =>
    have htail : walkChain trustedProxies peerIP (entry :: ips) =
        walkChain trustedProxies peerIP ips →
        walkChain trustedProxies peerIP (entry :: ips) = peerIP ∨ ∃ e ∈ entry :: ips, ∃ ip,
          parseChainEntry e = (walkChain trustedProxies peerIP (entry :: ips), some ip) ∧
            isSpecial ip = false := by
      intro heq
      rw [heq]
      rcases ih with hpeer | ⟨e, he, hread⟩
      · exact .inl hpeer
      · exact .inr ⟨e, mem_cons_of_mem _ he, hread⟩
    cases hstops : stops trustedProxies entry with
    | false => exact htail (walkChain_of_stops_eq_false hstops)
    | true =>
      rw [stops, Bool.and_eq_true, decide_eq_true_iff] at hstops
      rw [walkChain, if_neg hstops.1]
      split
      · exact .inl rfl
      · next ipStr ip hread =>
        rw [hread] at hstops
        rw [if_pos hstops.2]
        split
        · exact .inl rfl
        · next hspecial =>
          exact .inr ⟨entry, mem_cons_self, ip, hread, Bool.eq_false_iff.mpr hspecial⟩

/-! ### The answer -/

/-- The peer of a request is a trusted proxy. -/
def TrustedPeer (trustedProxies : List IPNet) (r : Request) : Prop :=
  ∃ peer, parseIP (extractPeerIP r.remoteAddr) = some peer ∧ ipInNets peer trustedProxies

/-- What a request is answered with that no header decides. -/
def peerText (r : Request) : Bytes :=
  if extractPeerIP r.remoteAddr = [] then r.remoteAddr else extractPeerIP r.remoteAddr

/-- Of a peer that is not trusted the address is the answer. -/
theorem clientIP_of_not_trusted {r : Request} (h : ¬TrustedPeer trustedProxies r) :
    clientIP trustedProxies r = peerText r := by
  rw [clientIP, peerText]
  split
  · rfl
  · split
    · rfl
    · split
      · rfl
      · next peer hpeer =>
        have hnot : ipInNets peer trustedProxies = false :=
          Bool.eq_false_iff.mpr fun hin ↦ h ⟨peer, hpeer, hin⟩
        rw [hnot]
        rfl

/-- Of a trusted peer the chain is walked. -/
theorem clientIP_of_trusted {r : Request} (h : TrustedPeer trustedProxies r) :
    clientIP trustedProxies r =
      walkChain trustedProxies (extractPeerIP r.remoteAddr) (entries r.forwardedFor).reverse := by
  obtain ⟨peer, hpeer, htrusted⟩ := h
  have hne : extractPeerIP r.remoteAddr ≠ [] := by
    intro hnil
    rw [hnil] at hpeer
    cases hpeer
  have hproxies : trustedProxies ≠ [] := by
    rintro rfl
    cases htrusted
  rw [clientIP, if_neg hne, if_neg hproxies, hpeer]
  dsimp only
  rw [htrusted]
  by_cases hlines : r.forwardedFor = []
  · rw [hlines]
    rfl
  · rw [if_neg hlines, resolveXForwardedFor, splitOn_join hlines]
    rfl

/-- **No spoofing.** The answer depends on the peer and the decisive entries only, and on the peer
only if it is not a trusted proxy; for every path over trusted proxies it is the address of the
client; and an address that is taken from the header is not special. -/
theorem clientIP_spoofing (trustedProxies : List IPNet) :
    (∀ r r', r.remoteAddr = r'.remoteAddr →
      decisive trustedProxies r.forwardedFor = decisive trustedProxies r'.forwardedFor →
        clientIP trustedProxies r = clientIP trustedProxies r') ∧
    (∀ r r', r.remoteAddr = r'.remoteAddr → trustedProxies = [] ∨ ¬TrustedPeer trustedProxies r →
      clientIP trustedProxies r = clientIP trustedProxies r') ∧
    (∀ client initial peer r, Path trustedProxies client initial peer r.forwardedFor →
      parseIP (extractPeerIP r.remoteAddr) = some peer →
        ipInNets client trustedProxies = false → isSpecial client = false →
          parseIP (clientIP trustedProxies r) = some client) ∧
    ∀ r, clientIP trustedProxies r = peerText r ∨
      ∃ entry ∈ entries r.forwardedFor, ∃ ip,
        parseChainEntry entry = (clientIP trustedProxies r, some ip) ∧
          parseIP (clientIP trustedProxies r) = some ip ∧ isSpecial ip = false := by
  have hpeer : ∀ {r r' : Request}, r.remoteAddr = r'.remoteAddr →
      (TrustedPeer trustedProxies r ↔ TrustedPeer trustedProxies r') ∧
        peerText r = peerText r' := by
    intro r r' h
    rw [TrustedPeer, TrustedPeer, peerText, peerText, h]
    exact ⟨Iff.rfl, rfl⟩
  refine ⟨fun r r' haddr hdecisive ↦ ?_, fun r r' haddr hnot ↦ ?_,
    fun client initial peer r hpath haddr huntrusted hspecial ↦ ?_, fun r ↦ ?_⟩
  · by_cases htrusted : TrustedPeer trustedProxies r
    · rw [clientIP_of_trusted htrusted, clientIP_of_trusted ((hpeer haddr).1.mp htrusted), haddr,
        walkChain_decisive, walkChain_decisive _ (entries r'.forwardedFor).reverse]
      exact congrArg _ hdecisive
    · rw [clientIP_of_not_trusted htrusted,
        clientIP_of_not_trusted (mt (hpeer haddr).1.mpr htrusted), (hpeer haddr).2]
  · have hnot : ¬TrustedPeer trustedProxies r := by
      rcases hnot with rfl | hnot
      · exact fun ⟨_, _, h⟩ ↦ nomatch h
      · exact hnot
    rw [clientIP_of_not_trusted hnot, clientIP_of_not_trusted (mt (hpeer haddr).1.mpr hnot),
      (hpeer haddr).2]
  · rcases hpath.content with ⟨rfl, -⟩ | ⟨hpeer, left, entry, right, hcontent, hread, hright⟩
    · -- The client is the peer.
      have hnot : ¬TrustedPeer trustedProxies r := by
        rintro ⟨peer', haddr', htrusted⟩
        cases haddr.symm.trans haddr'
        rw [huntrusted] at htrusted
        cases htrusted
      have hne : extractPeerIP r.remoteAddr ≠ [] := by
        intro hnil
        rw [hnil] at haddr
        cases haddr
      rw [clientIP_of_not_trusted hnot, peerText, if_neg hne]
      exact haddr
    · have hread : readEntry entry = ((readEntry entry).1, some client) := Prod.ext rfl hread
      have hreverse : ((entries r.forwardedFor).reverse.map trimSpace).filter (· ≠ []) =
          right.reverse ++ entry :: left.reverse := by
        rw [map_reverse, filter_reverse]
        exact (congrArg List.reverse hcontent).trans (by simp)
      rw [clientIP_of_trusted ⟨peer, haddr, hpeer⟩, walkChain_client hreverse
        (fun e he ↦ hright e (mem_reverse.mp he)) hread huntrusted hspecial]
      exact parseIP_of_readEntry hread
  · by_cases htrusted : TrustedPeer trustedProxies r
    · rw [clientIP_of_trusted htrusted]
      rcases walkChain_eq (extractPeerIP r.remoteAddr) (entries r.forwardedFor).reverse with
        hwalk | ⟨entry, hentry, ip, hread, hspecial⟩
      · left
        rw [hwalk, peerText, if_neg]
        intro hnil
        obtain ⟨peer, hparse, -⟩ := htrusted
        rw [hnil] at hparse
        cases hparse
      · exact .inr ⟨entry, mem_reverse.mp hentry, ip, hread, parseIP_of_readEntry hread,
          hspecial⟩
    · exact .inl (clientIP_of_not_trusted htrusted)

/-- A client that pretends to be local, behind two proxies. -/
theorem clientIP_spoofing_pretender :
    parseIP (clientIP [⟨[10, 0, 0, 0], [255, 0, 0, 0]⟩] ⟨ascii "10.0.0.2:4711",
      [ascii "127.0.0.1", ascii "garbage,, 203.0.113.7:5000, [::ffff:10.0.0.1]"]⟩) =
        some (v4InV6Prefix ++ [203, 0, 113, 7]) := by
  have hclient : Reads (ascii " 203.0.113.7:5000") (v4InV6Prefix ++ [203, 0, 113, 7]) := rfl
  have hproxy : Reads (ascii " [::ffff:10.0.0.1]") (v4InV6Prefix ++ [10, 0, 0, 1]) := rfl
  have hpath : Path [⟨[10, 0, 0, 0], [255, 0, 0, 0]⟩] (v4InV6Prefix ++ [203, 0, 113, 7])
      [ascii "127.0.0.1", ascii "garbage,"] (v4InV6Prefix ++ [10, 0, 0, 2])
      [ascii "127.0.0.1", ascii "garbage,, 203.0.113.7:5000, [::ffff:10.0.0.1]"] := by
    refine .hop (.hop .direct hclient (.last [ascii "127.0.0.1"] (ascii "garbage,")) ?_) hproxy
      (.last [ascii "127.0.0.1"] (ascii "garbage,, 203.0.113.7:5000")) ?_
    · decide
    · decide
  exact (clientIP_spoofing [⟨[10, 0, 0, 0], [255, 0, 0, 0]⟩]).2.2.1 _ _ _ _ hpath rfl (by decide)
    (by decide)

end Server
