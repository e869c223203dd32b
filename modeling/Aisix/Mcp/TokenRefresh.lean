import Aisix.Mcp.SessionToken

/-!
# Aisix.Mcp.TokenRefresh

Refreshing a user's upstream token (`user_oauth/mod.rs`): one gateway holds a lease on the record
and spends its refresh token, the others wait for the record to change.

* `refreshUnderLease`   — takes the lease, or waits on whoever has it.
* `refreshHoldingLease` — reads the record, asks the token endpoint within what is left of the
  lease, and stores what it issued over the version it read.
* `waitForRefresh`      — polls until the record settles the caller's question.

A token request is two calls, so that others run while it is in flight. Sign-ins, disconnects and
everything else that writes a record are others' calls; the process's own copy of a token, which a
refresh writes and never reads, is left out, and so is the map that has one process make one refresh
at a time.
-/

namespace Aisix
namespace Mcp

open Tasks

def nsToken : String := "mcp_oauth_token"

def nsLease : String := "mcp_oauth_lease"

def secs (n : Nat) : Nat := n * 1000000000

def tokenTtl : Nat := secs (365 * 24 * 3600)

def leaseTtl : Nat := secs 60

def leaseMargin : Nat := secs 5

def refreshSkewSecs : Int := 60

def leasePoll : Nat := 200000000

def proactiveWait : Nat := secs 5

def definitiveRefreshErrors : List String :=
  ["invalid_grant", "invalid_token", "unauthorized_client"]

structure RegisteredClient where
  clientId : String
  clientSecret : Option String
  deriving Repr, DecidableEq

structure TokenRecord where
  accessToken : String
  refreshToken : Option String
  expiresAt : Option Int
  resource : Option String
  registeredClient : Option RegisteredClient
  redirectUri : Option String
  deriving Repr, DecidableEq

namespace TokenRecord

def needsRefresh (r : TokenRecord) (now : Int) : Bool :=
  r.expiresAt.any fun at' => at' - now < refreshSkewSecs

def expired (r : TokenRecord) (now : Int) : Bool := r.expiresAt.any (· ≤ now)

end TokenRecord

/-- What a refresh reads of a server's settings; `timeout` in nanoseconds. -/
structure UserOAuthServer where
  id : String
  clientId : Option String
  clientSecret : Option String
  timeout : Nat
  deriving Repr, DecidableEq

structure UserSubject where
  id : String
  memberId : Option String
  deriving Repr, DecidableEq

/-- A `BTreeMap`, in the order of its keys. -/
def tokenLabels (server : UserOAuthServer) (subject : UserSubject) : List (String × String) :=
  ("mcp_server_id", server.id) ::
    (subject.memberId.toList.map fun member => ("member_id", member)) ++ [("subject", subject.id)]

inductive Replacing where
  | expiring (version : Nat)
  | rejected (token : String)
  deriving Repr, DecidableEq

def Replacing.rejected? : Replacing → Option String
  | expiring _ => none
  | rejected token => some token

structure IssuedTokens where
  accessToken : String
  refreshToken : Option String
  expiresAt : Option Int
  deriving Repr, DecidableEq

inductive TokenOutcome where
  | issued (tokens : IssuedTokens)
  | rejected (code : String)
  | transient
  | blocked
  deriving Repr, DecidableEq

/-- `serde_json` for a record. -/
structure RecordSerde where
  toVec : TokenRecord → Bytes
  fromSlice : Bytes → Option TokenRecord

/-- A token request: when its task heard of the lease, when it read how long it may take, when it
was sent, and when it is given up. -/
structure Sent where
  task : Nat
  key : String
  form : List (String × String)
  leaseTaken : Nat
  readAt : Nat
  sentAt : Nat
  deadline : Nat
  deriving Repr, DecidableEq

inductive RefreshCall where
  | store (c : Call)
  | unixNow
  | instant
  | sleepUntil (instant : Nat)
  | tokenEndpoint (server : String)
  /-- Sends a request that is given up after `budget`. -/
  | request (key endpoint : String) (form : List (String × String)) (leaseTaken readAt budget : Nat)
  | answer

abbrev RefreshCall.Answer : RefreshCall → Type
  | store c => c.Answer
  | unixNow => Int
  | instant => Nat
  | sleepUntil _ => Unit
  | tokenEndpoint _ => Except UserOAuthFailure String
  | request _ _ _ _ _ _ => Unit
  | answer => TokenOutcome

inductive RefreshChoice where
  | outcome (o : Outcome)
  | reads (now : Int)
  | found (endpoint : Except UserOAuthFailure String)
  | answers (o : TokenOutcome)
  | proceeds

/-- `inFlight` is the request that a task has sent and not had answered; `sent` are all that were.
-/
structure RefreshState where
  backend : Backend
  inFlight : Nat → Option Sent
  sent : List Sent

def RefreshState.call (s : RefreshState) (n : Nat) :
    (c : RefreshCall) → RefreshChoice → Option (c.Answer × RefreshState)
  | .store c, .outcome o => (s.backend.call n c o).map fun out =>
    (out.1, { s with backend := out.2 })
  | .unixNow, .reads now => some (now, s)
  | .instant, .proceeds => some (s.backend.clock, s)
  | .sleepUntil instant, .proceeds => if instant ≤ s.backend.clock then some ((), s) else none
  | .tokenEndpoint _, .found endpoint => some (endpoint, s)
  | .request key _ form leaseTaken readAt budget, .proceeds =>
    let r : Sent := ⟨n, key, form, leaseTaken, readAt, s.backend.clock, s.backend.clock + budget⟩
    some ((), { s with inFlight := Function.update s.inFlight n (some r), sent := s.sent ++ [r] })
  | .answer, .answers o => some (o, { s with inFlight := Function.update s.inFlight n none })
  | _, _ => none

abbrev RefreshProg := Prog RefreshCall RefreshCall.Answer

namespace RefreshProg

abbrev get (ns key : String) : RefreshProg (Except StoreError (Option StoredValue)) :=
  Prog.op (RefreshCall.store (.get ns key))

abbrev put (ns key : String) (value : Bytes) (ttl : Nat) (labels : List (String × String))
    (condition : PutCondition) : RefreshProg (Except StoreError Nat) :=
  Prog.op (RefreshCall.store (.put ns key value ttl labels condition))

abbrev delete (ns key : String) (ifVersion : Option Nat) : RefreshProg (Except StoreError Unit) :=
  Prog.op (RefreshCall.store (.delete ns key ifVersion))

abbrev unixNow : RefreshProg Int := Prog.op RefreshCall.unixNow

abbrev instant : RefreshProg Nat := Prog.op RefreshCall.instant

/-- `token_request`. -/
def tokenRequest (key endpoint : String) (form : List (String × String))
    (leaseTaken readAt budget : Nat) :
    RefreshProg TokenOutcome := do
  let () ← Prog.op (RefreshCall.request key endpoint form leaseTaken readAt budget)
  let o : TokenOutcome ← Prog.op RefreshCall.answer
  return o

end RefreshProg

/-- The configured client, else the registered one; a public client sends only its id. -/
def addClient (server : UserOAuthServer) (registered : Option RegisteredClient) :
    List (String × String) :=
  let client := match server.clientId, registered with
    | some id, _ => (some id, server.clientSecret)
    | none, some client => (some client.clientId, client.clientSecret)
    | none, none => (none, none)
  (client.1.toList.map fun id => ("client_id", id)) ++ client.2.toList.map fun secret =>
    ("client_secret", secret)

def refreshForm (server : UserOAuthServer) (record : TokenRecord) (refreshToken : String) :
    List (String × String) :=
  [("grant_type", "refresh_token"), ("refresh_token", refreshToken)] ++
    (record.resource.toList.map fun resource => ("resource", resource)) ++
    (record.redirectUri.toList.map fun uri => ("redirect_uri", uri)) ++
      addClient server record.registeredClient

section Bodies

variable (serde : RecordSerde) (server : UserOAuthServer) (subject : UserSubject) (key : String)
    (replacing : Replacing)

open RefreshProg

def decodeToken (stored : StoredValue) : Option TokenRecord := serde.fromSlice stored.value

/-- Whether the record under the lease still asks for the refresh. -/
def refreshNeeded (record : TokenRecord) (version : Nat) (now : Int) : Bool :=
  match replacing with
  | .rejected token => record.accessToken == token
  | .expiring held => record.expired now || (version == held && record.needsRefresh now)

/-- The record that a refresh leaves, once the endpoint has issued. -/
def refreshed (record : TokenRecord) (refreshToken : String) (issued : IssuedTokens) :
    TokenRecord :=
  { record with
    accessToken := issued.accessToken, refreshToken := issued.refreshToken.or (some refreshToken)
    expiresAt := issued.expiresAt }

/-- Stores a refreshed record over the version it was refreshed from. -/
def storeRefreshed (version : Nat) (record : TokenRecord) :
    RefreshProg (Except UserOAuthFailure String) := do
  match ← put nsToken key (serde.toVec record) tokenTtl (tokenLabels server subject)
    (.ifVersion version) with
  | .ok _ => return .ok record.accessToken
  -- a disconnect, which must not be undone, or a new sign-in, which is newer than this
  | .error .preconditionFailed =>
    match ← get nsToken key with
    | .error _ => return .error .unavailable
    | .ok current =>
      match current.bind (decodeToken serde) with
      | some current => return .ok current.accessToken
      | none => return .error .authorizationRequired
  -- the upstream has already moved on, so this token is the only working copy
  | .error _ => return .ok record.accessToken

/-- Spends `refreshToken` within what is left of the lease. -/
def spendRefresh (leaseTaken version : Nat) (record : TokenRecord) (refreshToken : String)
    (fallback : Option String) : RefreshProg (Except UserOAuthFailure String) := do
  let orElse (failure : UserOAuthFailure) : Except UserOAuthFailure String :=
    fallback.elim (.error failure) .ok
  let endpoint : Except UserOAuthFailure String ← Prog.op (RefreshCall.tokenEndpoint server.id)
  match endpoint with
  | .error failure => return orElse failure
  | .ok endpoint =>
    let now ← instant
    if leaseTaken + leaseTtl - leaseMargin < now then return orElse .unavailable
    let budget := min (leaseTaken + leaseTtl - leaseMargin - now) server.timeout
    match ← tokenRequest key endpoint (refreshForm server record refreshToken)
      leaseTaken now budget with
    | .rejected code =>
      if code ∈ definitiveRefreshErrors then
        let _ ← delete nsToken key (some version)
        return .error .authorizationRequired
      return orElse .unavailable
    | .transient => return orElse .unavailable
    | .blocked => return orElse .misconfigured
    | .issued issued =>
      storeRefreshed serde server subject key version (refreshed record refreshToken issued)

def refreshHoldingLease (leaseTaken : Nat) : RefreshProg (Except UserOAuthFailure String) := do
  match ← get nsToken key with
  | .error _ => return .error .unavailable
  | .ok none => return .error .authorizationRequired
  | .ok (some stored) =>
    match decodeToken serde stored with
    | none => return .error .authorizationRequired
    | some record =>
      let now ← unixNow
      if !refreshNeeded replacing record stored.version now then return .ok record.accessToken
      let fallback :=
        if replacing.rejected?.isNone && !record.expired now then some record.accessToken else none
      match record.refreshToken with
      | none =>
        match fallback with
        | some token => return .ok token
        | none =>
          let _ ← delete nsToken key (some stored.version)
          return .error .authorizationRequired
      | some refreshToken =>
        spendRefresh serde server subject key leaseTaken stored.version record refreshToken fallback

/-- Whether what the record holds answers a caller that waits. -/
def settled (record : TokenRecord) (version : Nat) (unixNow : Int) (holderGone : Bool)
    (waited : Nat) : Bool :=
  match replacing with
  | .rejected token => record.accessToken != token
  | .expiring held =>
    !record.expired unixNow && (version != held || holderGone || proactiveWait ≤ waited)

/-- Read ahead of the record: a holder stores first and lets go of the lease after. -/
def holderGone : RefreshProg (Except StoreError Bool) :=
  match replacing with
  | .rejected _ => return .ok false
  | .expiring _ => do
    match ← get nsLease key with
    | .error e => return .error e
    | .ok lease => return .ok lease.isNone

/-- `rounds` is how many polls the deadline leaves room for, each `leasePoll` after the one before.
-/
def waitForRefresh (started : Nat) : Nat → RefreshProg (Except UserOAuthFailure String)
  | 0 => return .error .unavailable
  | rounds + 1 => do
    match ← holderGone key replacing with
    | .error _ => return .error .unavailable
    | .ok gone =>
      match ← get nsToken key with
      | .error _ => return .error .unavailable
      | .ok stored =>
        match stored.bind fun stored => (decodeToken serde stored).map fun record =>
          (record, stored.version) with
        | none => return .error .authorizationRequired
        | some (record, version) =>
          let unix ← unixNow
          let now ← instant
          if settled replacing record version unix gone
            (now - started) then return .ok record.accessToken
          let now ← instant
          if started + server.timeout ≤ now + leasePoll then return .error .unavailable
          let () ← Prog.op (RefreshCall.sleepUntil (now + leasePoll))
          waitForRefresh started rounds

def refreshUnderLease : RefreshProg (Except UserOAuthFailure String) := do
  match ← put nsLease key [49] leaseTtl [("mcp_server_id", server.id)] .createOnly with
  | .error .preconditionFailed =>
    let started ← instant
    waitForRefresh serde server key replacing started (server.timeout / leasePoll + 1)
  | .error _ => return .error .unavailable
  | .ok lease =>
    let leaseTaken ← instant
    let outcome ← refreshHoldingLease serde server subject key replacing leaseTaken
    let _ ← delete nsLease key (some lease)
    return outcome

end Bodies

structure RefreshJob where
  server : UserOAuthServer
  subject : UserSubject
  key : String
  replacing : Replacing

/-- Only a refresh touches a lease. -/
def sparesLeases : Call → Bool
  | .put ns _ _ _ _ _ => ns ≠ nsLease
  | .delete ns _ _ => ns ≠ nsLease
  | .get _ _ => true

def refreshSystem (serde : RecordSerde) :
    System RefreshState RefreshJob RefreshCall RefreshCall.Answer RefreshChoice Event
      (Except UserOAuthFailure String) where
  exec := RefreshState.call
  env s e := (s.backend.event sparesLeases e).map fun b => { s with backend := b }
  body j := refreshUnderLease serde j.server j.subject j.key j.replacing

def RefreshState.init (now : Nat) : RefreshState := ⟨.init now, fun _ => none, []⟩

end Mcp
end Aisix
