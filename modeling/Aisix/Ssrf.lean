import Aisix.IpAddr
import Aisix.Mcp.Name
import Aisix.Sse.Decoder
import Mathlib.Data.List.DropRight

/-!
# Aisix.Ssrf

Which addresses a request to a URL the operator did not choose may reach: the allow-list, the route
a URL takes, and the resolver of a direct client.
-/

namespace Aisix

/-! ### Public addresses -/

namespace Ipv4Addr

def isLoopback (ip : Ipv4Addr) : Bool := ip.a == 127

def isPrivate (ip : Ipv4Addr) : Bool :=
  ip.a == 10 || (ip.a == 172 && (16 ≤ ip.b && ip.b ≤ 31)) || (ip.a == 192 && ip.b == 168)

def isLinkLocal (ip : Ipv4Addr) : Bool := ip.a == 169 && ip.b == 254

def isDocumentation (ip : Ipv4Addr) : Bool :=
  (ip.a == 192 && ip.b == 0 && ip.c == 2) || (ip.a == 198 && ip.b == 51 && ip.c == 100) ||
    (ip.a == 203 && ip.b == 0 && ip.c == 113)

def isMulticast (ip : Ipv4Addr) : Bool := 224 ≤ ip.a && ip.a ≤ 239

end Ipv4Addr

namespace Ipv6Addr

def isUnspecified (ip : Ipv6Addr) : Bool := ip.segments.toList == [0, 0, 0, 0, 0, 0, 0, 0]

def isLoopback (ip : Ipv6Addr) : Bool := ip.segments.toList == [0, 0, 0, 0, 0, 0, 0, 1]

def isMulticast (ip : Ipv6Addr) : Bool := ip.segments[0] &&& 0xff00 == 0xff00

end Ipv6Addr

namespace Ssrf

open IpText Mcp

def isPublicV4 (a : Ipv4Addr) : Bool :=
  let blocked :=
    a.a == 0 || a.isLoopback || a.isPrivate || (a.a == 100 && a.b &&& 0xc0 == 64) ||
      a.isLinkLocal ||
    (a.a == 192 && a.b == 0 && a.c == 0) || a.isDocumentation ||
      (a.a == 198 && a.b &&& 0xfe == 18) ||
    (a.a == 192 && a.b == 88 && a.c == 99) || a.isMulticast || 240 ≤ a.a || a == ⟨168, 63, 129, 16⟩
  !blocked

def embedded (hi lo : UInt16) : Ipv4Addr := ⟨highByte hi, lowByte hi, highByte lo, lowByte lo⟩

def isPublicV6 (a : Ipv6Addr) : Bool :=
  let s := a.segments
  if a.isUnspecified || a.isLoopback || a.isMulticast then false
  -- the address of IPv4 in `::/96`
  else if s.toList.take 6 == [0, 0, 0, 0, 0, 0] then false
  -- translated
  else if s.toList.take 6 == [0, 0, 0, 0, 0xffff, 0] then isPublicV4 (embedded (s.get 6) (s.get 7))
  -- behind a NAT64
  else if s.toList.take 6 == [0x64, 0xff9b, 0, 0, 0, 0] then isPublicV4
    (embedded (s.get 6) (s.get 7))
  else if s.toList.take 3 == [0x64, 0xff9b, 1] then false
  else if s.toList.take 4 == [0x100, 0, 0, 0] then false
  else if s.get 0 == 0x2001 && (s.get 1 < 0x200 || s.get 1 == 0xdb8) then false
  -- 6to4
  else if s.get 0 == 0x2002 then isPublicV4 (embedded (s.get 1) (s.get 2))
  else if s.get 0 == 0x3fff && s.get 1 < 0x1000 then false
  else if s.get 0 &&& 0xfe00 == 0xfc00 || s.get 0 &&& 0xffc0 == 0xfe80 || s.get 0 &&& 0xffc0 ==
    0xfec0 then false
  else true

def isPublic : IpAddr → Bool
  | .v4 v4 => isPublicV4 v4
  | .v6 v6 =>
    match v6.toIpv4Mapped with
    | some v4 => isPublicV4 v4
    | none => isPublicV6 v6

/-- The IPv6 addresses that reach an IPv4 address. -/
inductive Embeds : Ipv6Addr → Ipv4Addr → Prop where
  | mapped (v4 : Ipv4Addr) : Embeds v4.toIpv6Mapped v4
  | translated (v4 : Ipv4Addr) : Embeds (.ofGroups ([0, 0, 0, 0, 0xffff, 0] ++ v4.groups)) v4
  | nat64 (v4 : Ipv4Addr) : Embeds (.ofGroups ([0x64, 0xff9b, 0, 0, 0, 0] ++ v4.groups)) v4
  | sixToFour (v4 : Ipv4Addr) (s3 s4 s5 s6 s7 : UInt16) :
    Embeds (.ofGroups (0x2002 :: (v4.groups ++ [s3, s4, s5, s6, s7]))) v4

theorem embedded_fromBeBytes (v4 : Ipv4Addr) :
    embedded (fromBeBytes v4.a v4.b) (fromBeBytes v4.c v4.d) = v4 := by
  simp only [embedded, highByte_fromBeBytes, lowByte_fromBeBytes]

theorem isPublic_v6 {v6 : Ipv6Addr} (h : v6.toIpv4Mapped = none) :
    isPublic (.v6 v6) = isPublicV6 v6 := by
  unfold isPublic
  simp only [h]

theorem isPublic_embeds {v6 : Ipv6Addr} {v4 : Ipv4Addr} (h : Embeds v6 v4) :
    isPublic (.v6 v6) = isPublicV4 v4 := by
  have hv4 := embedded_fromBeBytes v4
  cases h with
  | mapped =>
    unfold isPublic
    simp only [v4.toIpv4Mapped_toIpv6Mapped]
  | translated =>
    have hsegments : (Ipv6Addr.ofGroups ([0, 0, 0, 0, 0xffff, 0] ++ v4.groups)).segments =
        #v[0, 0, 0, 0, 0xffff, 0, fromBeBytes v4.a v4.b, fromBeBytes v4.c v4.d] := rfl
    generalize Ipv6Addr.ofGroups ([0, 0, 0, 0, 0xffff, 0] ++ v4.groups) = v6 at hsegments ⊢
    have hmapped : v6.toIpv4Mapped = none := by
      rw [Ipv6Addr.toIpv4Mapped, hsegments]
      rfl
    rw [isPublic_v6 hmapped]
    have hgroups : embedded (v6.segments.get 6) (v6.segments.get 7) = v4 := by
      rw [hsegments]; exact hv4
    unfold isPublicV6
    dsimp only
    rw [hgroups]
    simp [Ipv6Addr.isUnspecified, Ipv6Addr.isLoopback, Ipv6Addr.isMulticast, hsegments]
  | nat64 =>
    have hsegments : (Ipv6Addr.ofGroups ([0x64, 0xff9b, 0, 0, 0, 0] ++ v4.groups)).segments =
        #v[0x64, 0xff9b, 0, 0, 0, 0, fromBeBytes v4.a v4.b, fromBeBytes v4.c v4.d] := rfl
    generalize Ipv6Addr.ofGroups ([0x64, 0xff9b, 0, 0, 0, 0] ++ v4.groups) = v6 at hsegments ⊢
    have hmapped : v6.toIpv4Mapped = none := by
      rw [Ipv6Addr.toIpv4Mapped, hsegments]
      rfl
    rw [isPublic_v6 hmapped]
    have hunicast : (0x64 : UInt16) &&& 0xff00 ≠ 0xff00 := by decide
    have hgroups : embedded (v6.segments.get 6) (v6.segments.get 7) = v4 := by
      rw [hsegments]; exact hv4
    unfold isPublicV6
    dsimp only
    rw [hgroups]
    simp [Ipv6Addr.isUnspecified, Ipv6Addr.isLoopback, Ipv6Addr.isMulticast, hsegments, hunicast]
  | sixToFour _ s3 s4 s5 s6 s7 =>
    have hsegments : (Ipv6Addr.ofGroups (0x2002 :: (v4.groups ++ [s3, s4, s5, s6, s7]))).segments =
        #v[0x2002, fromBeBytes v4.a v4.b, fromBeBytes v4.c v4.d, s3, s4, s5, s6, s7] := rfl
    generalize Ipv6Addr.ofGroups (0x2002 :: (v4.groups ++ [s3, s4, s5, s6, s7])) = v6 at hsegments ⊢
    have hmapped : v6.toIpv4Mapped = none := by
      rw [Ipv6Addr.toIpv4Mapped, hsegments]
      rfl
    rw [isPublic_v6 hmapped]
    have hunicast : (0x2002 : UInt16) &&& 0xff00 ≠ 0xff00 := by decide
    have hfirst : v6.segments.get 0 = 0x2002 := by rw [hsegments]; rfl
    have hgroups : embedded (v6.segments.get 1) (v6.segments.get 2) = v4 := by
      rw [hsegments]; exact hv4
    unfold isPublicV6
    dsimp only
    rw [hgroups, hfirst]
    simp [Ipv6Addr.isUnspecified, Ipv6Addr.isLoopback, Ipv6Addr.isMulticast, hsegments, hunicast]

/-! ### The allow-list -/

structure AllowedHost where
  host : List Char
  port : Option UInt16
  deriving DecidableEq

def hexGroup (g : UInt16) : List Char := Nat.toDigits 16 g.toNat

def fmtSubslice (chunk : List UInt16) : List Char := [':'].intercalate (chunk.map hexGroup)

/-- The start and length of the longest run of zeros, the first of several. -/
def longestZeros : (i start len : Nat) → (best : Nat × Nat) → List UInt16 → Nat × Nat
  | _, _, _, best, [] => best
  | i, start, len, best, g :: gs =>
    if g = 0 then
      let start := if len = 0 then i else start
      longestZeros (i + 1) start (len + 1) (if best.2 < len + 1 then (start, len + 1) else best) gs
    else longestZeros (i + 1) 0 0 best gs

/-- An IPv6 address as a text, the longest run of zero groups as `::`. -/
def displayV6 (ip : Ipv6Addr) : List Char :=
  match ip.toIpv4Mapped with
  | some v4 => mappedText v4
  | none =>
    let s := ip.segments.toList
    let (start, len) := longestZeros 0 0 0 (0, 0) s
    if 1 < len then fmtSubslice (s.take start) ++ ':' :: ':' ::
      fmtSubslice (s.drop (start + len)) else fmtSubslice s

example : displayV6 (.ofGroups [0xfd00, 0, 0, 0, 0, 0, 0, 1]) = "fd00::1".toList := by decide

/-- `str::parse::<u16>`. -/
def parseU16 (s : List Char) : Option UInt16 :=
  let digits := if s.head? = some '+' then s.tail else s
  if digits ≠ [] ∧ digits.all Char.isDigit then
    let n := digits.foldl (fun n c => n * 10 + (c.toNat - '0'.toNat)) 0
    if n < 2 ^ 16 then some (UInt16.ofNat n) else none
  else none

def parseV6 (s : List Char) : Option Ipv6Addr :=
  match readIpv6Addr s with
  | some (ip, []) => some ip
  | _ => none

/-- A host name without the dots at its end, in lower case. -/
def normalHost (s : List Char) : List Char := (s.rdropWhile (· = '.')).map Char.toLower

def parseAllowedHost (entry : List Char) : Option AllowedHost :=
  let entry := Sse.trim entry
  if entry.isEmpty || entry.any (· ∈ ['/', '@', '?', '#']) then none
  else
    match stripPrefix ['['] entry with
    | some rest => do
      let (addr, tail) ← splitOnce [']'] rest
      let v6 ← parseV6 addr
      let port ← if tail.isEmpty then some none
        else (stripPrefix [':'] tail).bind fun p => (parseU16 p).map some
      return ⟨displayV6 v6, port⟩
    | none =>
      match parseV6 entry with
      | some v6 => some ⟨displayV6 v6, none⟩
      | none => do
        let (host, port) ← match rsplitOnce [':'] entry with
          | some (host, p) => (parseU16 p).map fun p => (host, some p)
          | none => some (entry, none)
        let host := normalHost host
        if host.isEmpty then none else some ⟨host, port⟩

/-- An entry of the allow-list names a host and a port. -/
def Names (entry host : List Char) (port : UInt16) : Prop :=
  ∃ a, parseAllowedHost entry = some a ∧ a.host = host ∧ ∀ p, a.port = some p → p = port

structure Config where
  enabled : Bool
  allowedHosts : List (List Char)

/-- `outbound.ssrf_protection`; `proxied` tells the URLs an environment proxy takes. -/
structure SsrfProtection (U : Type) where
  enabled : Bool
  allowedHosts : List AllowedHost
  proxied : U → Bool

section Protection

variable {U : Type}

def notAHost (debug : List Char → List Char) (entry : List Char) : List Char :=
  "outbound.ssrf_protection.allowed_hosts: ".toList ++ debug entry ++
    " is not a host or host:port (write an IPv6 address with a port as [addr]:port)".toList

/-- One entry; `debug` writes a text as `:?` does. -/
def readEntry (debug : List Char → List Char) (entry : List Char) :
    Except (List Char) AllowedHost :=
  match parseAllowedHost entry with
  | some a => .ok a
  | none => .error (notAHost debug entry)

/-- Parsed once at boot. -/
def fromConfig (debug : List Char → List Char) (proxies : U → Bool) (cfg : Config) :
    Except (List Char) (SsrfProtection U) := do
  let allowedHosts ← cfg.allowedHosts.mapM (readEntry debug)
  return ⟨cfg.enabled, allowedHosts, proxies⟩

def allows (p : SsrfProtection U) (host : List Char) (port : UInt16) : Bool :=
  p.allowedHosts.any fun a => a.host == host && a.port.all (· == port)

theorem mapM_readEntry {debug : List Char → List Char} {entries : List (List Char)}
    {hosts : List AllowedHost} (h : entries.mapM (readEntry debug) = .ok hosts) :
    ∀ a ∈ hosts, ∃ entry ∈ entries, parseAllowedHost entry = some a := by
  induction entries generalizing hosts with
  | nil =>
    obtain rfl : [] = hosts := Except.ok.inj h
    exact fun a ha => absurd ha List.not_mem_nil
  | cons entry entries ih =>
    rw [List.mapM_cons, readEntry] at h
    cases hentry : parseAllowedHost entry with
    | none =>
      rw [hentry] at h
      cases h
    | some found =>
      rw [hentry] at h
      cases hrest : entries.mapM (readEntry debug) with
      | error e =>
        rw [hrest] at h
        cases h
      | ok rest =>
        rw [hrest] at h
        obtain rfl : found :: rest = hosts := Except.ok.inj h
        intro a ha
        rcases List.mem_cons.1 ha with rfl | ha
        · exact ⟨entry, List.mem_cons_self, hentry⟩
        · obtain ⟨e, he, hparse⟩ := ih hrest a ha
          exact ⟨e, List.mem_cons_of_mem entry he, hparse⟩

theorem fromConfig_ok {debug : List Char → List Char} {proxies : U → Bool} {cfg : Config}
    {p : SsrfProtection U} (h : fromConfig debug proxies cfg = .ok p) : p.enabled = cfg.enabled ∧
      ∀ host port, allows p host port = true →
        ∃ entry ∈ cfg.allowedHosts, Names entry host port := by
  unfold fromConfig at h
  cases hhosts : cfg.allowedHosts.mapM (readEntry debug) with
  | error e =>
    rw [hhosts] at h
    cases h
  | ok hosts =>
    rw [hhosts] at h
    obtain rfl := Except.ok.inj h
    refine ⟨rfl, fun host port hallows => ?_⟩
    obtain ⟨a, ha, hmatch⟩ := List.any_eq_true.1 hallows
    obtain ⟨entry, hentry, hparse⟩ := mapM_readEntry hhosts a ha
    simp only [Bool.and_eq_true, beq_iff_eq] at hmatch
    refine ⟨entry, hentry, a, hparse, hmatch.1, fun q hq => ?_⟩
    have hport := hmatch.2
    rw [hq] at hport
    exact eq_of_beq hport

end Protection

/-! ### The route of a URL -/

inductive Host where
  | domain (name : List Char)
  | ipv4 (a : Ipv4Addr)
  | ipv6 (a : Ipv6Addr)

/-- What the URL library tells of a URL. -/
structure Urls (U : Type) where
  parse : List Char → Option U
  host : U → Option Host
  portOrKnownDefault : U → Option UInt16
  join : U → List Char → Option U
  scheme : U → List Char
  path : U → List Char

inductive Refusal where
  | badUrl
  | blocked (ip : IpAddr)
  | unresolvable
  deriving DecidableEq

inductive Route where
  | pinned
  | direct
  | proxied
  deriving DecidableEq

/-- The host as an entry of the allow-list spells it, and the address it is a literal of. -/
def Host.spelled : Host → List Char × Option IpAddr
  | .domain d => (normalHost d, none)
  | .ipv4 a => (dotted a, some (.v4 a))
  | .ipv6 a => (displayV6 a, some (.v6 a))

/-- What a lookup of a name answers: the addresses, or a failure. -/
abbrev Answer := Option (List IpAddr)

def resolve (answer : Answer) : Except Refusal (List IpAddr) :=
  match answer with
  | none => .error .unresolvable
  | some addrs => if addrs.isEmpty then .error .unresolvable else .ok addrs

def checkAll (addrs : List IpAddr) : Except Refusal Unit :=
  match addrs.find? fun ip => !isPublic ip with
  | some ip => .error (.blocked ip)
  | none => .ok ()

/-- The resolver of a direct client. -/
def resolver (guarded : Bool) (answer : Answer) : Except Refusal (List IpAddr) :=
  match resolve answer with
  | .error r => .error r
  | .ok addrs => if guarded then (checkAll addrs).map fun _ => addrs else .ok addrs

/-- The name that `route` looked up and what the lookup answered. -/
abbrev Lookup := List Char × Answer

section Routing

variable {U : Type} (urls : Urls U)

/-- How a request to a URL is sent; `answer` is what a lookup made here answers. -/
def route (p : SsrfProtection U) (url : U) (answer : Answer) :
    Option Lookup × Except Refusal Route :=
  match urls.host url, urls.portOrKnownDefault url with
  | some h, some port =>
    let (host, ip) := h.spelled
    let proxied := p.proxied url
    let unchecked : Route := if proxied then .proxied else .direct
    if !p.enabled || allows p host port then (none, .ok unchecked)
    else
      match ip with
      | some ip => (none, if isPublic ip then .ok unchecked else .error (.blocked ip))
      | none =>
        if !proxied then (none, .ok .pinned)
        else
          (some (host, answer), match resolve answer with
            | .error r => .error r
            | .ok addrs => (checkAll addrs).map fun _ => .proxied)
  | _, _ => (none, .error .badUrl)

theorem resolve_ok {answer : Answer} {addrs : List IpAddr} (h : resolve answer = .ok addrs) :
    answer = some addrs := by
  unfold resolve at h
  cases answer with
  | none => cases h
  | some found =>
    dsimp only at h
    split at h
    · cases h
    · exact congrArg some (Except.ok.inj h)

theorem checkAll_ok {addrs : List IpAddr} {u : Unit} (h : checkAll addrs = .ok u) :
    ∀ ip ∈ addrs, isPublic ip = true := by
  unfold checkAll at h
  cases hfind : addrs.find? fun ip => !isPublic ip with
  | some ip =>
    rw [hfind] at h
    cases h
  | none =>
    intro ip hip
    simpa using List.find?_eq_none.1 hfind ip hip

theorem resolver_guarded {answer : Answer} {addrs : List IpAddr}
    (h : resolver true answer = .ok addrs) : ∀ ip ∈ addrs, isPublic ip = true := by
  unfold resolver at h
  cases hresolve : resolve answer with
  | error r =>
    rw [hresolve] at h
    cases h
  | ok found =>
    rw [hresolve] at h
    dsimp only at h
    cases hcheck : checkAll found with
    | error r =>
      rw [if_pos rfl, hcheck] at h
      cases h
    | ok u =>
      rw [if_pos rfl, hcheck] at h
      obtain rfl : found = addrs := Except.ok.inj h
      exact checkAll_ok hcheck

/-- A route under protection: the host is allowed, is a public literal, or is a name that is looked
up under guard, by the client or for the proxy. -/
theorem route_ok {p : SsrfProtection U} {url : U} {answer : Answer} {way : Route}
    (henabled : p.enabled = true) (h : (route urls p url answer).2 = .ok way) :
    ∃ host port, urls.host url = some host ∧ urls.portOrKnownDefault url = some port ∧
      (allows p host.spelled.1 port = true ∨ (∃ ip, host.spelled.2 = some ip ∧ isPublic ip = true) ∨
        host.spelled.2 = none ∧
          (way = .pinned ∨ way = .proxied ∧
          ∃ addrs, (route urls p url answer).1 = some (host.spelled.1, some addrs) ∧
          ∀ ip ∈ addrs, isPublic ip = true)) := by
  unfold route at h ⊢
  cases hhost : urls.host url with
  | none =>
    rw [hhost] at h
    cases h
  | some host =>
    cases hport : urls.portOrKnownDefault url with
    | none =>
      rw [hhost, hport] at h
      cases h
    | some port =>
      rw [hhost, hport] at h
      refine ⟨host, port, rfl, rfl, ?_⟩
      by_cases hallows : allows p host.spelled.1 port = true
      · exact .inl hallows
      refine .inr ?_
      simp only [henabled, hallows, Bool.not_true, Bool.false_or, Bool.false_eq_true,
        if_false] at h ⊢
      cases hip : host.spelled.2 with
      | some ip =>
        refine .inl ⟨ip, rfl, ?_⟩
        by_contra hprivate
        rw [hip] at h
        dsimp only at h
        rw [if_neg hprivate] at h
        cases h
      | none =>
        refine .inr ⟨rfl, ?_⟩
        rw [hip] at h
        dsimp only at h ⊢
        by_cases hproxied : p.proxied url = true
        · simp only [hproxied, Bool.not_true, Bool.false_eq_true, if_false] at h ⊢
          cases hresolve : resolve answer with
          | error r =>
            rw [hresolve] at h
            cases h
          | ok addrs =>
            rw [hresolve] at h
            dsimp only at h
            cases hcheck : checkAll addrs with
            | error r =>
              rw [hcheck] at h
              cases h
            | ok u =>
              rw [hcheck] at h
              obtain rfl := Except.ok.inj h
              exact .inr ⟨rfl, addrs, by rw [resolve_ok hresolve], checkAll_ok hcheck⟩
        · simp only [hproxied, Bool.not_false, if_true] at h
          exact .inl (Except.ok.inj h).symm

end Routing

end Ssrf
end Aisix
