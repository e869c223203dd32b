import Aisix.ContentPart
import Aisix.Ssrf

/-!
# Aisix.MediaFetch

Downloading a media URL of the caller's: attempts, redirects followed by hand, and the route of
every hop. Whatever the network answers, no connection of its own goes to an address that is not
public, unless the allow-list names the host (`fetchOne_guarded`).
-/

namespace Aisix
namespace MediaFetch

open ContentPart Ssrf

def MAX_ATTEMPTS : Nat := 3
def MAX_REDIRECTS : Nat := 10

abbrev Bytes := List UInt8

inductive Failure where
  | badUrl
  | blocked (ip : IpAddr)
  | unresolvable
  | transport
  | untrustedCertificate (error : String)
  | timeout
  | status (code : Nat)
  | tooLarge
  | overRequestLimit (downloaded : Nat)
  | tooManyRedirects
  | badRedirect
  | unknownType
  deriving DecidableEq

namespace Failure

def ofRefusal : Refusal → Failure
  | .badUrl => .badUrl
  | .blocked ip => .blocked ip
  | .unresolvable => .unresolvable

def retryable : Failure → Bool
  | .transport | .timeout => true
  | _ => false

end Failure

/-- Why the client has no response. -/
inductive ClientError where
  | refused (r : Refusal)
  | certificate (error : String)
  | timeout
  | other

def classify : ClientError → Failure
  | .refused r => .ofRefusal r
  | .certificate e => .untrustedCertificate e
  | .timeout => .timeout
  | .other => .transport

structure Response where
  status : Nat
  /-- The `Location` header, and its text where it has one. -/
  location : Option (Option (List Char))
  contentType : Option String
  /-- What reading the body within the limits comes to. -/
  body : Except Failure Bytes

/-- What the network answers at one hop: to the lookup for the route, to the lookups of the
connections the client makes, and to the request. -/
structure Answers where
  forRoute : Answer
  forConnections : List Answer
  response : Except ClientError Response

/-- What a hop does: the lookup for its route, the route, and the addresses the client connects to
itself. -/
structure HopTrace (U : Type) where
  url : U
  lookup : Option Lookup
  route : Except Refusal Route
  opened : List IpAddr

inductive Hop (U : Type) where
  | answered (resp : Response)
  | redirect (next : U)

/-- A failed download, and the redirect target it failed at. -/
structure Failed (U : Type) where
  failure : Failure
  redirectedTo : Option U

structure Downloaded (U : Type) where
  body : Bytes
  contentType : Option String
  url : U

structure Wanted where
  uri : List Char
  explicitMimeType : Option String

inductive Encoding where
  | base64
  | bytes

inductive FetchedData where
  | base64 (text : String)
  | bytes (bytes : Bytes)

structure Fetched where
  mimeType : String
  data : FetchedData

/-- The addresses that a connection of a direct client may go to. -/
def connect (route : Route) (host : Host) (answer : Answer) : Except Refusal (List IpAddr) :=
  match host with
  | .domain _ => resolver (route == .pinned) answer
  | .ipv4 a => .ok [.v4 a]
  | .ipv6 a => .ok [.v6 a]

/-- The connections of a request, up to one that is refused. -/
def dial (route : Route) (host : Host) : List Answer → List IpAddr × Option Refusal
  | [] => ([], none)
  | answer :: rest =>
    match connect route host answer with
    | .error r => ([], some r)
    | .ok addrs => (addrs ++ (dial route host rest).1, (dial route host rest).2)

def isRedirection (status : Nat) : Bool := 300 ≤ status && status < 400

def isSuccess (status : Nat) : Bool := 200 ≤ status && status < 300

/-- The response's media type, unless it is a generic one. -/
def usefulType (resp : Response) : Option String :=
  (resp.contentType.map fun v => normalizeMimeType
    (String.ofList (v.toList.takeWhile (· ≠ ';')))).filter fun m =>
    m ≠ "" ∧ m ≠ "application/octet-stream" ∧ ¬ "binary/".toList.isPrefixOf m.toList

/-- The media type that a file's first bytes tell. -/
def sniff (b : Bytes) : Option String :=
  let at' (offset : Nat) (magic : Bytes) : Bool := (b.drop offset).take magic.length == magic
  if at' 0 [0x89, 0x50, 0x4E, 0x47, 0x0D, 0x0A, 0x1A, 0x0A] then some "image/png"
  else if at' 0 [0xff, 0xd8, 0xff] then some "image/jpeg"
  else if at' 0 [0x47, 0x49, 0x46, 0x38, 0x37, 0x61] ||
    at' 0 [0x47, 0x49, 0x46, 0x38, 0x39, 0x61] then some "image/gif"
  else if at' 0 [0x52, 0x49, 0x46, 0x46] && at' 8 [0x57, 0x45, 0x42, 0x50] then some "image/webp"
  else if at' 0 [0x52, 0x49, 0x46, 0x46] && at' 8 [0x57, 0x41, 0x56, 0x45] then some "audio/wav"
  else if at' 0 [0x25, 0x50, 0x44, 0x46, 0x2D] then some "application/pdf"
  else if at' 0 [0x49, 0x44, 0x33] || at' 0 [0xff, 0xfb] || at' 0 [0xff, 0xf3] ||
    at' 0 [0xff, 0xf2] then some "audio/mp3"
  else if at' 0 [0xff, 0xf1] || at' 0 [0xff, 0xf9] then some "audio/aac"
  else if at' 0 [0x4F, 0x67, 0x67, 0x53] then some "audio/ogg"
  else if at' 0 [0x66, 0x4C, 0x61, 0x43] then some "audio/flac"
  else if at' 0 [0x1a, 0x45, 0xdf, 0xa3] then some "video/webm"
  else if at' 4 [0x66, 0x74, 0x79, 0x70] then
    if at' 8 [0x68, 0x65, 0x69, 0x63] || at' 8 [0x68, 0x65, 0x69, 0x78] ||
      at' 8 [0x6D, 0x69, 0x66, 0x31] then
      some "image/heic"
    else if at' 8 [0x4D, 0x34, 0x41, 0x20] then some "audio/m4a"
    else if at' 8 [0x71, 0x74, 0x20, 0x20] then some "video/mov"
    else some "video/mp4"
  else none

section Fetching

-- `builds` tells whether the client of a route could be built, `base64` is the standard encoding
variable {U : Type} (urls : Urls U) (builds : Route → Bool) (base64 : Bytes → String)
    (p : SsrfProtection U)

def send (route : Route) (url : U) (answers : Answers) :
    List IpAddr × Except ClientError Response :=
  match route, urls.host url with
  | .proxied, _ => ([], answers.response)
  | _, none => ([], .error .other)
  | route, some host =>
    match dial route host answers.forConnections with
    | (opened, some r) => (opened, .error (.refused r))
    | (opened, none) => (opened, answers.response)

def readHop (url : U) (mayRedirect : Bool) (sent : Except ClientError Response) :
    Except Failure (Hop U) :=
  match sent with
  | .error e => .error (classify e)
  | .ok resp =>
    match resp.location.filter fun _ => isRedirection resp.status with
    | some location =>
      if !mayRedirect then .error .tooManyRedirects
      else
        match location.bind (urls.join url) with
        | none => .error .badRedirect
        | some next =>
          if urls.scheme next = "http".toList ∨
            urls.scheme next = "https".toList then .ok (.redirect next)
          else .error .badRedirect
    | none => if isSuccess resp.status then .ok (.answered resp) else .error (.status resp.status)

/-- One hop: checked, sent, and answered or redirected. -/
def fetchHop (url : U) (mayRedirect : Bool) (answers : Answers) :
    HopTrace U × Except Failure (Hop U) :=
  let (lookup, routed) := route urls p url answers.forRoute
  match routed with
  | .error r => (⟨url, lookup, routed, []⟩, .error (.ofRefusal r))
  | .ok way =>
    if !builds way then (⟨url, lookup, routed, []⟩, .error .transport)
    else
      let (opened, sent) := send urls way url answers
      (⟨url, lookup, routed, opened⟩, readHop urls url mayRedirect sent)

/-- The hops of one attempt from the `hop`-th on. -/
def downloadFrom (world : Nat → Answers) :
    (left hop : Nat) → U → List (HopTrace U) × Except (Failed U) (Downloaded U)
  | 0, _, _ => ([], .error ⟨.tooManyRedirects, none⟩)
  | left + 1, hop, current =>
    let redirected := if 0 < hop then some current else none
    let (trace, result) := fetchHop urls builds p current (hop < MAX_REDIRECTS) (world hop)
    match result with
    | .ok (.answered resp) =>
      match resp.body with
      | .ok body => ([trace], .ok ⟨body, usefulType resp, current⟩)
      | .error failure => ([trace], .error ⟨failure, redirected⟩)
    | .ok (.redirect next) =>
      (trace :: (downloadFrom world left (hop + 1) next).1,
        (downloadFrom world left (hop + 1) next).2)
    | .error .tooManyRedirects => ([trace], .error ⟨.tooManyRedirects, none⟩)
    | .error failure => ([trace], .error ⟨failure, redirected⟩)

/-- One attempt: the URL and its redirects. -/
def download (world : Nat → Answers) (url : U) :
    List (HopTrace U) × Except (Failed U) (Downloaded U) :=
  downloadFrom urls builds p world (MAX_REDIRECTS + 1) 0 url

/-- The attempts from the `attempt`-th on, as long as a failure may pass. -/
def attemptFrom (world : Nat → Nat → Answers) (url : U) :
    (left attempt : Nat) → List (List (HopTrace U)) × Except (Failed U) (Downloaded U)
  | 0, attempt =>
    let (trace, result) := download urls builds p (world attempt) url
    ([trace], result)
  | left + 1, attempt =>
    let (trace, result) := download urls builds p (world attempt) url
    match result with
    | .error f =>
      if f.failure.retryable then
        (trace :: (attemptFrom world url left (attempt + 1)).1,
          (attemptFrom world url left (attempt + 1)).2)
      else ([trace], .error f)
    | .ok found => ([trace], .ok found)

def fetchOne (world : Nat → Nat → Answers) (w : Wanted) (encoding : Encoding) :
    List (List (HopTrace U)) × Except (Failed U) Fetched :=
  match urls.parse w.uri with
  | none => ([], .error ⟨.badUrl, none⟩)
  | some url =>
    let (attempts, result) := attemptFrom urls builds p world url (MAX_ATTEMPTS - 1) 1
    (attempts, do
      let found ← result
      let named :=
        (w.explicitMimeType.or found.contentType).or (mimeTypeFromPath (String.ofList w.uri))
      let mimeType ← ((named.or (mimeTypeFromPath (String.ofList (urls.path found.url)))).or
          (sniff found.body)).elim
        (.error ⟨.unknownType, none⟩) .ok
      return ⟨mimeType, match encoding with
        | .base64 => .base64 (base64 found.body)
        | .bytes => .bytes found.body⟩)

/-! ### Nothing private is reached -/

/-- A hop to a host and port that an entry of the allow-list names. -/
def Allowed (cfg : Config) (url : U) : Prop :=
  ∃ host port, urls.host url = some host ∧ urls.portOrKnownDefault url = some port ∧
    ∃ entry ∈ cfg.allowedHosts, Names entry host.spelled.1 port

/-- What a hop may do. -/
structure Guarded (cfg : Config) (hop : HopTrace U) : Prop where
  direct : ∀ ip ∈ hop.opened, Allowed urls cfg hop.url ∨ isPublic ip = true
  proxied : hop.route = .ok .proxied → Allowed urls cfg hop.url ∨
    ∃ host, urls.host hop.url = some host ∧ ((∃ ip, host.spelled.2 = some ip ∧ isPublic ip = true) ∨
      ∃ addrs, hop.lookup = some (host.spelled.1, some addrs) ∧ ∀ ip ∈ addrs, isPublic ip = true)
  refused : ∀ r, hop.route = .error r → hop.opened = []

section Guard

variable {urls builds p} {cfg : Config}

theorem dial_pinned {host : Host} (hname : host.spelled.2 = none) {answers : List Answer}
    {ip : IpAddr} (h : ip ∈ (dial .pinned host answers).1) : isPublic ip = true := by
  have hconnect : ∀ answer, connect .pinned host answer = resolver true answer := by
    intro answer
    cases host with
    | domain name => rfl
    | ipv4 a => cases hname
    | ipv6 a => cases hname
  induction answers with
  | nil => exact absurd h List.not_mem_nil
  | cons answer rest ih =>
    rw [dial, hconnect] at h
    cases hresolver : resolver true answer with
    | error r =>
      rw [hresolver] at h
      exact absurd h List.not_mem_nil
    | ok addrs =>
      rw [hresolver] at h
      rcases List.mem_append.1 h with h | h
      · exact resolver_guarded hresolver ip h
      · exact ih h

theorem dial_literal {way : Route} {host : Host} {literal : IpAddr}
    (hliteral : host.spelled.2 = some literal) {answers : List Answer} {ip : IpAddr}
    (h : ip ∈ (dial way host answers).1) : ip = literal := by
  have hconnect : ∀ answer, connect way host answer = .ok [literal] := by
    intro answer
    cases host with
    | domain name => cases hliteral
    | ipv4 a => rw [connect, Option.some.inj hliteral]
    | ipv6 a => rw [connect, Option.some.inj hliteral]
  induction answers with
  | nil => exact absurd h List.not_mem_nil
  | cons answer rest ih =>
    rw [dial, hconnect] at h
    rcases List.mem_append.1 h with h | h
    · exact List.mem_singleton.1 h
    · exact ih h

theorem send_opened {way : Route} {url : U} {answers : Answers} {ip : IpAddr}
    (h : ip ∈ (send urls way url answers).1) :
    way ≠ .proxied ∧ ∃ host, urls.host url = some host ∧
      ip ∈ (dial way host answers.forConnections).1 := by
  unfold send at h
  cases hhost : urls.host url with
  | none =>
    rw [hhost] at h
    cases way <;> exact absurd h List.not_mem_nil
  | some host =>
    rw [hhost] at h
    cases hdial : dial way host answers.forConnections with
    | mk opened r =>
      cases way with
      | proxied => exact absurd h List.not_mem_nil
      | pinned =>
        refine ⟨by decide, host, rfl, ?_⟩
        simp only [hdial] at h ⊢
        cases r <;> exact h
      | direct =>
        refine ⟨by decide, host, rfl, ?_⟩
        simp only [hdial] at h ⊢
        cases r <;> exact h

theorem fetchHop_fst (url : U) (mayRedirect : Bool) (answers : Answers) :
    (fetchHop urls builds p url mayRedirect answers).1.url = url ∧
      (fetchHop urls builds p url mayRedirect answers).1.lookup =
      (route urls p url answers.forRoute).1 ∧
      (fetchHop urls builds p url mayRedirect answers).1.route =
      (route urls p url answers.forRoute).2 ∧
      ∀ ip ∈ (fetchHop urls builds p url mayRedirect answers).1.opened, ∃ way,
        (route urls p url answers.forRoute).2 = .ok way ∧ ip ∈ (send urls way url answers).1 := by
  unfold fetchHop
  cases hroute : route urls p url answers.forRoute with
  | mk lookup routed =>
    cases routed with
    | error r => exact ⟨rfl, rfl, rfl, fun ip hip => absurd hip List.not_mem_nil⟩
    | ok way =>
      by_cases hbuilds : builds way = true
      · simp only [hbuilds, Bool.not_true, Bool.false_eq_true, if_false, true_and]
        exact fun ip hip => ⟨way, rfl, hip⟩
      · simp only [hbuilds, Bool.not_false, if_true, true_and]
        exact fun ip hip => absurd hip List.not_mem_nil

theorem fetchHop_guarded (hallows : ∀ host port, allows p host port = true →
    ∃ entry ∈ cfg.allowedHosts, Names entry host port)
    (henabled : p.enabled = true) (url : U) (mayRedirect : Bool) (answers : Answers) :
    Guarded urls cfg (fetchHop urls builds p url mayRedirect answers).1 := by
  obtain ⟨hurl, hlookup, hroute, hopened⟩ := @fetchHop_fst _ urls builds p url mayRedirect answers
  constructor
  · intro ip hip
    obtain ⟨way, hway, hsent⟩ := hopened ip hip
    obtain ⟨hdirect, host, hhost, hdial⟩ := send_opened hsent
    obtain ⟨host', port, hhost', hport, hcases⟩ := route_ok urls henabled hway
    obtain rfl : host = host' := Option.some.inj (hhost.symm.trans hhost')
    rw [hurl]
    rcases hcases with hallowed | ⟨literal, hliteral, hpublic⟩ | ⟨hname, rfl | ⟨hproxied, -⟩⟩
    · exact .inl ⟨host, port, hhost, hport, hallows _ _ hallowed⟩
    · exact .inr (by rw [dial_literal hliteral hdial]; exact hpublic)
    · exact .inr (dial_pinned hname hdial)
    · exact absurd hproxied hdirect
  · intro hproxied
    rw [hroute] at hproxied
    obtain ⟨host, port, hhost, hport, hcases⟩ := route_ok urls henabled hproxied
    rw [hurl]
    rcases hcases with hallowed | hliteral | ⟨-, hpinned | ⟨-, addrs, hlooked, hpublic⟩⟩
    · exact .inl ⟨host, port, hhost, hport, hallows _ _ hallowed⟩
    · exact .inr ⟨host, hhost, .inl hliteral⟩
    · cases hpinned
    · exact .inr ⟨host, hhost, .inr ⟨addrs, by rw [hlookup, hlooked], hpublic⟩⟩
  · intro r hr
    rw [hroute] at hr
    refine List.eq_nil_iff_forall_not_mem.2 fun ip hip => ?_
    obtain ⟨way, hway, -⟩ := hopened ip hip
    rw [hr] at hway
    cases hway

theorem downloadFrom_succ (world : Nat → Answers) (left hop : Nat) (current : U) :
    (downloadFrom urls builds p world (left + 1) hop current).1 =
        [(fetchHop urls builds p current (hop < MAX_REDIRECTS) (world hop)).1] ∨
      ∃ next, (downloadFrom urls builds p world (left + 1) hop current).1 =
        (fetchHop urls builds p current (hop < MAX_REDIRECTS) (world hop)).1 ::
          (downloadFrom urls builds p world left (hop + 1) next).1 := by
  rw [downloadFrom]
  cases hfetch : fetchHop urls builds p current (hop < MAX_REDIRECTS) (world hop) with
  | mk trace result =>
    cases result with
    | error failure => exact .inl (by cases failure <;> rfl)
    | ok outcome =>
      cases outcome with
      | redirect next => exact .inr ⟨next, rfl⟩
      | answered resp =>
        dsimp only
        cases resp.body with
        | ok body => exact .inl rfl
        | error failure => exact .inl rfl

theorem downloadFrom_guarded
    (hallows : ∀ host port, allows p host port = true →
      ∃ entry ∈ cfg.allowedHosts, Names entry host port)
    (henabled : p.enabled = true) (world : Nat → Answers) (left hop : Nat) (current : U) :
    (downloadFrom urls builds p world left hop current).1.length ≤ left ∧
      ∀ trace ∈ (downloadFrom urls builds p world left hop current).1, Guarded urls cfg trace := by
  induction left generalizing hop current with
  | zero => exact ⟨Nat.le_refl 0, fun _ h => absurd h List.not_mem_nil⟩
  | succ left ih =>
    have hhop :=
      @fetchHop_guarded _ urls builds p cfg hallows henabled current
        (hop < MAX_REDIRECTS) (world hop)
    rcases downloadFrom_succ world left hop current with hlast | ⟨next, hnext⟩
    · rw [hlast]
      exact ⟨Nat.succ_le_succ (Nat.zero_le left), List.forall_mem_singleton.2 hhop⟩
    · obtain ⟨hlength, hguarded⟩ := ih (hop + 1) next
      rw [hnext]
      exact ⟨Nat.succ_le_succ hlength, List.forall_mem_cons.2 ⟨hhop, hguarded⟩⟩

theorem attemptFrom_succ (world : Nat → Nat → Answers) (url : U) (left attempt : Nat) :
    (attemptFrom urls builds p world url (left + 1) attempt).1 =
    [(download urls builds p (world attempt) url).1] ∨
      (attemptFrom urls builds p world url (left + 1) attempt).1 =
        (download urls builds p (world attempt) url).1 ::
        (attemptFrom urls builds p world url left (attempt + 1)).1 := by
  rw [attemptFrom]
  cases hresult : download urls builds p (world attempt) url with
  | mk trace result =>
    cases result with
    | ok found => exact .inl rfl
    | error f =>
      dsimp only
      split
      · exact .inr rfl
      · exact .inl rfl

theorem attemptFrom_guarded
    (hallows : ∀ host port, allows p host port = true →
      ∃ entry ∈ cfg.allowedHosts, Names entry host port)
    (henabled : p.enabled = true) (world : Nat → Nat → Answers) (url : U) (left attempt : Nat) :
    (attemptFrom urls builds p world url left attempt).1.length ≤ left + 1 ∧
      ∀ hops ∈ (attemptFrom urls builds p world url left attempt).1, hops.length ≤
        MAX_REDIRECTS + 1 ∧ ∀ trace ∈ hops, Guarded urls cfg trace := by
  have hdownload : ∀ attempt, (download urls builds p (world attempt) url).1.length ≤
      MAX_REDIRECTS + 1 ∧ ∀ trace ∈ (download urls builds p (world attempt) url).1,
      Guarded urls cfg trace :=
    fun attempt => downloadFrom_guarded hallows henabled (world attempt) (MAX_REDIRECTS + 1) 0 url
  induction left generalizing attempt with
  | zero => exact ⟨Nat.le_refl 1, List.forall_mem_singleton.2 (hdownload attempt)⟩
  | succ left ih =>
    rcases attemptFrom_succ world url left attempt with hlast | hretry
    · rw [hlast]
      exact ⟨Nat.succ_le_succ (Nat.zero_le _), List.forall_mem_singleton.2 (hdownload attempt)⟩
    · obtain ⟨hlength, hrest⟩ := ih (attempt + 1)
      rw [hretry]
      exact ⟨Nat.succ_le_succ hlength, List.forall_mem_cons.2 ⟨hdownload attempt, hrest⟩⟩

end Guard

/-- With protection on, whatever the network answers: no more attempts and hops than there may be,
every hop guarded, and an address that embeds another is as public as that. -/
theorem fetchOne_guarded (debug : List Char → List Char) (proxies : U → Bool) (cfg : Config)
    (hconfig : fromConfig debug proxies cfg = .ok p) (henabled : cfg.enabled = true)
    (world : Nat → Nat → Answers) (w : Wanted) (encoding : Encoding) :
    (fetchOne urls builds base64 p world w encoding).1.length ≤ MAX_ATTEMPTS ∧
      (∀ hops ∈ (fetchOne urls builds base64 p world w encoding).1, hops.length ≤
        MAX_REDIRECTS + 1 ∧ ∀ trace ∈ hops, Guarded urls cfg trace) ∧
      ∀ v6 v4, Embeds v6 v4 → isPublic (.v6 v6) = isPublic (.v4 v4) := by
  obtain ⟨hp, hallows⟩ := fromConfig_ok hconfig
  refine ⟨?_, ?_, fun v6 v4 h => isPublic_embeds h⟩
  all_goals
    unfold fetchOne
    cases urls.parse w.uri with
    | none => simp
    | some url =>
      obtain ⟨hlength, hguarded⟩ :=
        @attemptFrom_guarded _ urls builds p cfg hallows (hp.trans henabled) world url 2 1
      first
        | exact hlength
        | exact hguarded

end Fetching

/-! A name that redirects to a private literal. -/

def links : Urls (List Char) where
  parse := some
  host u := if u = "http://media.example/a".toList then some (.domain "media.example".toList)
    else if u = "http://10.0.0.7/b".toList then some (.ipv4 ⟨10, 0, 0, 7⟩) else none
  portOrKnownDefault _ := some 80
  join _ location := some location
  scheme _ := "http".toList
  path u := (u.drop 7).dropWhile (· ≠ '/')

def redirectsInside : Nat → Nat → Answers := fun _ _ =>
  ⟨none, [some [.v4 ⟨93, 184, 216, 34⟩]],
    .ok ⟨302, some (some "http://10.0.0.7/b".toList), none, .ok []⟩⟩

def oneAllowed : Config := ⟨true, ["cdn.internal:8080".toList]⟩

theorem fetchOne_redirectsInside :
    (fetchOne links (fun _ => true) (fun _ => "")
      ⟨true, [⟨"cdn.internal".toList, some 8080⟩], fun _ => false⟩
      redirectsInside ⟨"http://media.example/a".toList, none⟩ .bytes).1.length ≤ MAX_ATTEMPTS ∧
      ∀ hops ∈ (fetchOne links (fun _ => true) (fun _ => "")
          ⟨true, [⟨"cdn.internal".toList, some 8080⟩], fun _ => false⟩
          redirectsInside ⟨"http://media.example/a".toList, none⟩ .bytes).1,
        hops.length ≤ MAX_REDIRECTS + 1 ∧ ∀ trace ∈ hops, Guarded links oneAllowed trace :=
  have h :=
    fetchOne_guarded links (fun _ => true) (fun _ => "")
      ⟨true, [⟨"cdn.internal".toList, some 8080⟩], fun _ => false⟩
    id (fun _ => false) oneAllowed rfl rfl redirectsInside
      ⟨"http://media.example/a".toList, none⟩ .bytes
  ⟨h.1, h.2.1⟩

end MediaFetch
end Aisix
