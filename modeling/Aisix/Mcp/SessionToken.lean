import Aisix.Mcp.StoreRules

/-!
# Aisix.Mcp.SessionToken

The tokens of a keyless sign-in (`user_oauth/session.rs`): minted in pairs, and rotated by the token
endpoint (`mcp_oauth_login.rs`) against the refresh token, whose use is recorded. They are taken as
what they say; the sealing is left out.

* `descends_bounded` — however often its tokens are refreshed, a session ends `sessionMaxAgeSecs`
  after its sign-in.
* `spend_once`       — of two tasks that were told they spent one token, on whatever gateways, one
  was told so when the record of the other's use had expired.
-/

namespace Aisix
namespace Mcp

open Tasks

inductive UserOAuthFailure where
  | noSubject
  | authorizationRequired
  | misconfigured
  | unavailable
  deriving Repr, DecidableEq

def accessTokenTtlSecs : Int := 3600

def refreshTokenTtlSecs : Int := 14 * 24 * 3600

def sessionMaxAgeSecs : Int := 30 * 24 * 3600

inductive TokenKind where
  | access
  | refresh
  deriving Repr, DecidableEq

/-- `Claims` is what the ID token said, a `serde_json::Bytes`. -/
structure SessionToken (Claims : Type) where
  kind : TokenKind
  server : String
  clientId : String
  provider : String
  identity : String
  jti : String
  iat : Int
  exp : Int
  signedInAt : Int
  claims : Claims
  deriving DecidableEq

structure SessionIdentity (Claims : Type) where
  provider : String
  identity : String
  claims : Claims
  signedInAt : Int
  deriving DecidableEq

variable {Claims : Type}

def SessionToken.asIdentity (t : SessionToken Claims) : SessionIdentity Claims :=
  ⟨t.provider, t.identity, t.claims, t.signedInAt⟩

/-- One of the two tokens of a pair, minted at `iat` under a fresh `jti`. -/
def pairToken (server clientId : String) (identity : SessionIdentity Claims) (iat : Int)
    (kind : TokenKind) (jti : String) :
    SessionToken Claims :=
  let signedInAt := if identity.signedInAt > 0 then identity.signedInAt else iat
  let ttl := match kind with
    | .access => accessTokenTtlSecs
    | .refresh => refreshTokenTtlSecs
  ⟨kind, server, clientId, identity.provider, identity.identity, jti, iat,
    min (iat + ttl) (signedInAt + sessionMaxAgeSecs), signedInAt, identity.claims⟩

structure SessionTokenPair (Claims : Type) where
  accessToken : SessionToken Claims
  refreshToken : SessionToken Claims
  expiresIn : Int
  deriving DecidableEq

def mintPair (server clientId : String) (identity : SessionIdentity Claims) (iat : Int)
    (jtis : String × String) : SessionTokenPair Claims :=
  let access := pairToken server clientId identity iat .access jtis.1
  ⟨access, pairToken server clientId identity iat .refresh jtis.2, max (access.exp - iat) 0⟩

def openToken (kind : TokenKind) (now : Int) (payload : SessionToken Claims) :
    Option (SessionToken Claims) :=
  if payload.kind = kind ∧ payload.exp > now then some payload else none

/-- What the token endpoint finds as it answers a refresh: the server it is asked at, the client id
of the form, and what its calls say. -/
structure RefreshGrant (Claims : Type) where
  server : String
  clientId : Option String
  openedAt : Int
  authorizedProvider : SessionIdentity Claims → Bool
  stored : Except UserOAuthFailure String
  spent : Except UserOAuthFailure Bool
  mintedAt : Int
  jtis : String × String

inductive GrantAnswer (Claims : Type) where
  | issued (pair : SessionTokenPair Claims)
  | invalidGrant
  | temporarilyUnavailable
  deriving DecidableEq

/-- The token endpoint's `refresh_token` grant. -/
def refreshGrant (g : RefreshGrant Claims) (payload : SessionToken Claims) : GrantAnswer Claims :=
  match openToken .refresh g.openedAt payload with
  | none => .invalidGrant
  | some session =>
    if session.server ≠ g.server ∨ g.clientId.any (· ≠ session.clientId) then .invalidGrant
    else if ¬ g.authorizedProvider session.asIdentity then .invalidGrant
    else if g.stored = .error .authorizationRequired then .invalidGrant
    else
      match g.spent with
      | .ok true =>
        .issued (mintPair g.server session.clientId session.asIdentity g.mintedAt g.jtis)
      | .ok false => .invalidGrant
      | .error _ => .temporarilyUnavailable

/-- Who gets a pair: the holder of a refresh token that has not expired, at its own server and with
no other client's id. -/
theorem refreshGrant_issued {g : RefreshGrant Claims} {token : SessionToken Claims}
    {pair : SessionTokenPair Claims} (h : refreshGrant g token = .issued pair) :
    token.kind = .refresh ∧ g.openedAt < token.exp ∧ token.server = g.server ∧
      (∀ c ∈ g.clientId, c = token.clientId) ∧ g.authorizedProvider token.asIdentity ∧
      g.spent = .ok true ∧
      pair = mintPair token.server token.clientId token.asIdentity g.mintedAt g.jtis := by
  unfold refreshGrant openToken at h
  by_cases hopen : token.kind = .refresh ∧ token.exp > g.openedAt
  case neg => simp [hopen] at h
  simp only [hopen, and_self, if_true] at h
  split at h
  · cases h
  · rename_i hplace
    obtain ⟨hserver, hclient⟩ := not_or.1 hplace
    split at h
    · cases h
    · rename_i hauthorized
      split at h
      · cases h
      · split at h
        · rename_i hspent
          rw [← not_not.1 hserver] at h
          refine ⟨hopen.1, hopen.2, not_not.1 hserver, ?_, not_not.1 hauthorized, hspent, ?_⟩
          · intro c hc
            simpa [Option.mem_def.1 hc] using hclient
          · exact (GrantAnswer.issued.inj h).symm
        · cases h
        · cases h

/-- The tokens of the sign-in that minted `first`: each refresh that is granted adds a pair. -/
inductive Descends (first : SessionToken Claims) : SessionToken Claims → Prop where
  | first : Descends first first
  | rotated {token next : SessionToken Claims} {g : RefreshGrant Claims}
      {pair : SessionTokenPair Claims} :
      Descends first token → refreshGrant g token = .issued pair →
      next = pair.accessToken ∨ next = pair.refreshToken → Descends first next

theorem pairToken_carries (token : SessionToken Claims) (hdated : 0 < token.signedInAt) (iat : Int)
    (kind : TokenKind) (jti : String) :
    let next := pairToken token.server token.clientId token.asIdentity iat kind jti
    next.server = token.server ∧ next.clientId = token.clientId ∧
      next.asIdentity = token.asIdentity ∧ next.exp ≤ token.signedInAt + sessionMaxAgeSecs := by
  simp [pairToken, SessionToken.asIdentity, hdated]

theorem refreshGrant_carries {g : RefreshGrant Claims} {token next : SessionToken Claims}
    {pair : SessionTokenPair Claims} (h : refreshGrant g token = .issued pair)
    (hnext : next = pair.accessToken ∨ next = pair.refreshToken) (hdated : 0 < token.signedInAt) :
    next.server = token.server ∧ next.clientId = token.clientId ∧
      next.asIdentity = token.asIdentity ∧ next.exp ≤ token.signedInAt + sessionMaxAgeSecs := by
  obtain ⟨-, -, -, -, -, -, rfl⟩ := refreshGrant_issued h
  rcases hnext with rfl | rfl
  · exact pairToken_carries token hdated g.mintedAt .access g.jtis.1
  · exact pairToken_carries token hdated g.mintedAt .refresh g.jtis.2

/-- Every token of a sign-in is for the same server, client and person, and none outlives the
session. -/
theorem descends_bounded (server clientId : String) (identity : SessionIdentity Claims) {iat : Int}
    (hiat : 0 < iat) (kind : TokenKind) (jti : String) {token : SessionToken Claims}
    (h : Descends (pairToken server clientId identity iat kind jti) token) :
    token.server = server ∧ token.clientId = clientId ∧
      token.signedInAt = (if identity.signedInAt > 0 then identity.signedInAt else iat) ∧
      token.asIdentity = { identity with signedInAt := token.signedInAt } ∧
      token.exp ≤ token.signedInAt + sessionMaxAgeSecs := by
  induction h with
  | first => simp [pairToken, SessionToken.asIdentity]
  | @rotated prev next g pair _ hgrant hnext ih =>
    obtain ⟨hserver, hclient, hsigned, hidentity, -⟩ := ih
    have hdated : 0 < prev.signedInAt := by
      rw [hsigned]
      split
      · assumption
      · exact hiat
    obtain ⟨hserver', hclient', hidentity', hexp'⟩ := refreshGrant_carries hgrant hnext hdated
    have hsigned' : next.signedInAt = prev.signedInAt :=
      congrArg SessionIdentity.signedInAt hidentity'
    refine ⟨hserver'.trans hserver, hclient'.trans hclient, hsigned'.trans hsigned, ?_, ?_⟩
    · rw [hidentity', hsigned']
      exact hidentity
    · rw [hsigned']
      exact hexp'

def alice : SessionIdentity String := ⟨"corp", "alice", "\x7b\"sub\":\"alice\"\x7d", 0⟩

def refreshOfAlice : SessionToken String := pairToken "srv" "cli" alice 1000 .refresh "b"

def grantOfAlice (now : Int) (jtis : String × String) : RefreshGrant String where
  server := "srv"
  clientId := some "cli"
  openedAt := now
  authorizedProvider identity := identity.identity = "alice"
  stored := .ok "upstream"
  spent := .ok true
  mintedAt := now
  jtis := jtis

def nextOf (token : SessionToken String) (iat : Int) (jtis : String × String) :
    SessionTokenPair String :=
  mintPair token.server token.clientId token.asIdentity iat jtis

/-- A sign-in whose last rotation is cut short by the session's end. -/
theorem descends_bounded_rotated :
    ∃ token : SessionToken String, Descends refreshOfAlice token ∧
      token.exp = 1000 + sessionMaxAgeSecs ∧ token.server = "srv" ∧ token.clientId = "cli" ∧
      token.signedInAt = (if alice.signedInAt > 0 then alice.signedInAt else 1000) ∧
      token.asIdentity = { alice with signedInAt := token.signedInAt } ∧
      token.exp ≤ token.signedInAt + sessionMaxAgeSecs := by
  let second := (nextOf refreshOfAlice 1000000 ("c", "d")).refreshToken
  let third := (nextOf second 2000000 ("e", "f")).refreshToken
  have hsecond : Descends refreshOfAlice second :=
    Descends.first.rotated (g := grantOfAlice 1000000 ("c", "d")) (by decide) (.inr rfl)
  have hthird : Descends refreshOfAlice third :=
    hsecond.rotated (g := grantOfAlice 2000000 ("e", "f")) (by decide) (.inr rfl)
  exact ⟨third, hthird, rfl, descends_bounded "srv" "cli" alice (by decide) .refresh "b" hthird⟩

/-! ## The record that a refresh token was used

Created under its `jti`, for as long as the token lives, and never deleted. -/

def nsRefreshUsed : String := "mcp_oauth_refresh_used"

/-- `b"1"`. -/
def spentMark : Bytes := [49]

/-- `now` is what `unix_now` reads here. -/
def spendRefreshToken (now : Int) (token : SessionToken Claims) :
    Prog Call Call.Answer (Except UserOAuthFailure Bool) := do
  let remaining := (max (token.exp - now) 1).toNat
  match ← SharedStore.put nsRefreshUsed token.jti spentMark (remaining * 1000000000)
    [("mcp_server_id", token.server)] .createOnly with
  | .ok _ => return .ok true
  | .error .preconditionFailed => return .ok false
  | .error _ => return .error .unavailable

/-- Records of use are created, and left to expire. -/
def RecordsUse : Call → Bool
  | .put ns _ _ _ _ condition => ns ≠ nsRefreshUsed ∨ condition = .createOnly
  | .delete ns _ _ => ns ≠ nsRefreshUsed
  | .get _ _ => true

def spendSystem :
    System Backend (Int × SessionToken Claims) Call Call.Answer Outcome Event
      (Except UserOAuthFailure Bool) :=
  storeSystem RecordsUse fun j => spendRefreshToken j.1 j.2

/-- No record of use is written before the last of its key has expired. -/
structure InTurn (s : Store) : Prop where
  last : ∀ w ∈ s.log, w.key.1 = nsRefreshUsed → ∃ e, s.entries w.key = some e ∧
    w.expiresAt ≤ e.expiresAt
  turns : s.log.Pairwise fun a b => a.key = b.key → a.key.1 = nsRefreshUsed →
    a.expiresAt ≤ b.instant

theorem InTurn.written {b : Backend} (h : InTurn b.store) {ns key : String} {value : Bytes}
    {condition : PutCondition} (hrecords : ns ≠ nsRefreshUsed ∨ condition = .createOnly)
    (hcond : condition.Holds (b.store.live b.clock (ns, key))) (writer : Option Nat) (ttl : Nat) :
    InTurn (b.store.written writer b.clock (ns, key) value ttl) := by
  -- the entry that a record of use finds has expired, and so have all before it
  have hexpired : ns = nsRefreshUsed → ∀ w ∈ b.store.log, w.key = (ns, key) →
      w.expiresAt ≤ b.clock := by
    intro hns w hw hkey
    obtain rfl := hrecords.resolve_left (not_not.2 hns)
    obtain ⟨e, he, hle⟩ := h.last w hw (by rw [hkey]; exact hns)
    have hlive : b.store.live b.clock (ns, key) = none := hcond
    have hdead : ¬ b.clock < e.expiresAt := by
      intro hlt
      have hsome := CasStore.Store.live_eq_some_iff.2 ⟨hkey ▸ he, hlt⟩
      rw [hlive] at hsome
      cases hsome
    omega
  constructor
  · intro w hw hns
    rcases List.mem_append.1 hw with hw | hw
    · by_cases hkey : w.key = (ns, key)
      · refine ⟨⟨value, b.store.version + 1,
          b.clock + ttl⟩, by simp [CasStore.Store.written, hkey], ?_⟩
        have := hexpired (by rw [hkey] at hns; exact hns) w hw hkey
        simp only []
        omega
      · obtain ⟨e, he, hle⟩ := h.last w hw hns
        exact ⟨e, by simpa [CasStore.Store.written, hkey] using he, hle⟩
    · obtain rfl := List.mem_singleton.1 hw
      exact ⟨⟨value, b.store.version + 1,
        b.clock + ttl⟩, by simp [CasStore.Store.written], le_refl _⟩
  · refine List.pairwise_append.2 ⟨h.turns, List.pairwise_singleton _ _, ?_⟩
    intro a ha c hc hkey hns
    obtain rfl := List.mem_singleton.1 hc
    exact hexpired (by rw [hkey] at hns; exact hns) a ha hkey

theorem InTurn.delete {s : Store} (h : InTurn s) {ns key : String} (hns : ns ≠ nsRefreshUsed)
    (ifVersion : Option Nat) : InTurn (s.delete (ns, key) ifVersion) where
  last w hw hkey := by
    rw [CasStore.Store.delete_log] at hw
    obtain ⟨e, he, hle⟩ := h.last w hw hkey
    have hne : w.key ≠ (ns, key) := fun heq => hns (by rw [heq] at hkey; exact hkey)
    refine ⟨e, ?_, hle⟩
    unfold CasStore.Store.delete
    split
    · simpa [hne] using he
    · exact he
  turns := by
    rw [CasStore.Store.delete_log]
    exact h.turns

def spendProtocol : Protocol where
  Inv := InTurn
  Lawful _ _ c := RecordsUse c
  mono _ _ _ _ _ h := h
  serve b writer expiresAt c _ hinv hlawful := by
    rcases b.serve_cases writer expiresAt c with h | ⟨ns, key, value, ttl, labels, condition,
      rfl, hcond, h⟩ | ⟨ns, key, v, rfl, h⟩
    · rwa [h]
    · rw [h]
      exact hinv.written (by simpa [RecordsUse] using hlawful) hcond writer ttl
    · rw [h]
      exact hinv.delete (by simpa [RecordsUse] using hlawful) v

/-- The record of a use by task `n`. -/
def Spent (j : Int × SessionToken Claims) (n : Nat) (log : List StoreWrite) (w : StoreWrite) :
    Prop :=
  w ∈ log ∧ w.writer = some n ∧ w.key = (nsRefreshUsed, j.2.jti) ∧
    w.expiresAt = w.instant + (max (j.2.exp - j.1) 1).toNat * 1000000000

theorem safe_spendRefreshToken (j : Int × SessionToken Claims) (n : Nat) (b : Backend) :
    Safe Backend.call spendProtocol.rules n (fun a t => a = .ok true → ∃ w, Spent j n t.store.log w)
      (spendRefreshToken j.1 j.2) b := by
  have hrefused : ∀ (a : Except UserOAuthFailure Bool) t, a ≠ .ok true →
      Safe Backend.call spendProtocol.rules n (fun a t => a = .ok true →
        ∃ w, Spent j n t.store.log w) (.done a) t :=
    fun a t hne => Safe.done fun _ _ heq => absurd heq hne
  unfold spendRefreshToken
  simp only [SharedStore.put, Prog.op_bind]
  refine Safe.op (Call.rules_put (by simp [spendProtocol, RecordsUse]) (fun t _ _ _ => ?_)
    (fun t _ _ => hrefused _ t (by simp)) fun t e _ _ => ?_)
  · refine Safe.done fun u hlog _ => ?_
    exact ⟨_, hlog.subset (t.writeOf_mem (some n) _ _ _ _), rfl, rfl, rfl⟩
  · cases e <;> exact hrefused _ t (by simp)

/-- Of two tasks that were told they spent the same token, one was when the record of the other's
use had expired. -/
theorem spend_once {now : Nat} {ls : List (Label (Int × SessionToken Claims) Outcome Event)}
    {w : World Backend (Int × SessionToken Claims) Call Call.Answer (Except UserOAuthFailure Bool)}
    (hrun : Lts.run (step spendSystem) (.init (.init now)) ls = some w) {m n : Nat} (hmn : m ≠ n)
    {j j' : Int × SessionToken Claims} (hm : w.result m = some (j, .ok true))
    (hn : w.result n = some (j', .ok true)) (hjti : j.2.jti = j'.2.jti) :
    ∃ a b, Spent j m w.shared.store.log a ∧ Spent j' n w.shared.store.log b ∧
      (a.expiresAt ≤ b.instant ∨ b.expiresAt ≤ a.instant) := by
  have hkept :
      Kept spendSystem spendProtocol.rules (fun j n a t => a = .ok true →
      ∃ w, Spent j n t.store.log w) w :=
    spendProtocol.run_kept ⟨by simp [CasStore.Store.empty], by simp [CasStore.Store.empty]⟩
      (fun _ _ h => h) (fun j n b _ => safe_spendRefreshToken j n b) hrun
  obtain ⟨a, ha⟩ := hkept.result hm rfl
  obtain ⟨b, hb⟩ := hkept.result hn rfl
  refine ⟨a, b, ha, hb, ?_⟩
  have hne : a ≠ b := by
    rintro rfl
    exact hmn (Option.some.inj (ha.2.1.symm.trans hb.2.1))
  have hkey : a.key = b.key := by rw [ha.2.2.1, hb.2.2.1, hjti]
  have hns : a.key.1 = nsRefreshUsed := by rw [ha.2.2.1]
  have : Std.Symm fun c d : StoreWrite => c.key = d.key → c.key.1 = nsRefreshUsed →
      c.expiresAt ≤ d.instant ∨ d.expiresAt ≤ c.instant :=
    ⟨fun c d h hkey hns => (h hkey.symm (hkey ▸ hns)).symm⟩
  have hturns :=
    hkept.inv.inv.turns.imp fun {c d} h (hkey : c.key = d.key) (hns : c.key.1 = nsRefreshUsed) =>
    (Or.inl (h hkey hns) : c.expiresAt ≤ d.instant ∨ d.expiresAt ≤ c.instant)
  exact hturns.forall ha.1 hb.1 hne hkey hns

def lateToken : SessionToken Unit := ⟨.refresh, "srv", "cli", "corp", "alice", "j1", 0, 10, 1, ()⟩

/-- The third caller opened the token in time, and reaches the store when it has expired with the
record. -/
def lateRun : List (Label (Int × SessionToken Unit) Outcome Event) :=
  [.start (8, lateToken), .start (9, lateToken), .start (9, lateToken), .call 0 (.served none),
    .call 1 (.served none), .env (.tick 2000000000), .call 2 (.served none)]

theorem spend_once_late :
    ∃ w : World Backend (Int × SessionToken Unit) Call Call.Answer (Except UserOAuthFailure Bool),
      Lts.run (step spendSystem) (.init (.init 0)) lateRun = some w ∧
        w.result 1 = some ((9, lateToken), .ok false) ∧
      ∃ a b, Spent (8, lateToken) 0 w.shared.store.log a ∧
        Spent (9, lateToken) 2 w.shared.store.log b ∧
        (a.expiresAt ≤ b.instant ∨ b.expiresAt ≤ a.instant) := by
  obtain ⟨w, hrun, h0, h1, h2⟩ :
      ∃ w : World Backend (Int × SessionToken Unit) Call Call.Answer (Except UserOAuthFailure Bool),
      Lts.run (step spendSystem) (.init (.init 0)) lateRun = some w ∧
        w.result 0 = some ((8, lateToken), .ok true) ∧
      w.result 1 = some ((9, lateToken), .ok false) ∧
        w.result 2 = some ((9, lateToken), .ok true) :=
    ⟨_, rfl, rfl, rfl, rfl⟩
  exact ⟨w, hrun, h1, spend_once hrun (by decide) h0 h2 rfl⟩

end Mcp
end Aisix
