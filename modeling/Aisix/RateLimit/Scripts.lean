import Aisix.RateLimit.KeyState
import Aisix.Redis

/-!
# Aisix.RateLimit.Scripts

The shared backend: the Lua scripts of `redis.rs` over the commands of `Aisix.Redis`, the argument
list `RedisStore::acquire` builds for them and its reading of their reply.

Arguments are positional, as in the source: `ARGV[i]` is `argAt argv i`, and the script walks its
index over the two variable-length lists of triples. A number crosses as decimal text and comes back
through `tonumber` as a double, so it is exact below `2 ^ 53` and rounded from there on. Scores are
kept in microseconds, so that `TIME`'s seconds and microseconds add up exactly.
-/

namespace Aisix
namespace RateLimit

open Redis (Bound)

/-- A windowed dimension that carries a limit. -/
structure Dim where
  name : String
  windowSecs : Nat
  limit : Nat
  deriving DecidableEq, Repr

/-- The request dimensions that carry a limit. -/
def requestDims (limits : Limits) : List Dim :=
  ReqDim.chain.filterMap fun d => (limits.req d).map fun limit => ⟨d.name, d.windowSecs, limit⟩

/-- The token dimensions that carry a limit. -/
def tokenDims (limits : Limits) : List Dim :=
  TokDim.chain.filterMap fun d => (limits.tok d).map fun limit => ⟨d.name, d.windowSecs, limit⟩

/-- The keys behind one bucket prefix: `<prefix>:<name>:<ws>`, `<prefix>:consumed`,
`<prefix>:conc`, and the bare prefix of a one-shot claim. -/
inductive RedisKey where
  | counter (keyPrefix name : String) (ws : Int)
  | consumed (keyPrefix : String)
  | conc (keyPrefix : String)
  | marker (keyPrefix : String)
  deriving DecidableEq, Repr

abbrev Db := Redis.Db RedisKey String Int

/-- The nearest double to a natural number, ties to even. -/
def toDouble (n : Nat) : Nat :=
  if n < 2 ^ 53 then n
  else
    let e := n.log2 - 52
    let q := n / 2 ^ e
    let r := n % 2 ^ e
    if r > 2 ^ (e - 1) ∨ (r = 2 ^ (e - 1) ∧ q % 2 = 1) then (q + 1) * 2 ^ e else q * 2 ^ e

/-- One entry of `ARGV`. -/
inductive Arg where
  | text (s : String)
  | num (n : Int)
  deriving DecidableEq, Repr

def Arg.str : Arg → String
  | .text s => s
  | .num _ => ""

def tonumber : Arg → Int
  | .num (.ofNat n) => toDouble n
  | .num (.negSucc n) => -(toDouble (n + 1) : Int)
  | .text _ => 0

/-- `ARGV[i]`, counted from one. -/
def argAt (argv : List Arg) (i : Nat) : Arg := argv.getD (i - 1) (.text "")

/-- What Redis `TIME` returns. -/
structure Time where
  secs : Nat
  micros : Nat

/-- `{name, window, limit}` as the script reads it back. -/
structure Triple where
  name : String
  window : Int
  limit : Int

/-- The loop that reads `n` triples from position `idx` on. -/
def readTriples (argv : List Arg) : Nat → Nat → List Triple
  | 0, _ => []
  | n + 1, idx =>
    ⟨(argAt argv idx).str, tonumber (argAt argv (idx + 1)), tonumber (argAt argv (idx + 2))⟩ ::
      readTriples argv n (idx + 3)

/-- The start of the window of `tr` that `now` lies in. -/
def Triple.ws (tr : Triple) (now : Nat) : Int := now - now % tr.window

/-- `INCRBY key n`, with `EXPIRE key secs` when this was the first increment. -/
def incrExpire (now : Nat) (k : RedisKey) (n : Int) (secs : Nat) (db : Db) : Db :=
  let (val, db) := db.incrBy now k n
  if val = n then db.expire now k secs else db

section AcquireScript

variable (now : Nat) (keyPrefix : String)

def Triple.retry (tr : Triple) : Int := max (tr.window - (now - tr.ws now)) 1

def Triple.used (tr : Triple) (db : Db) : Int := db.get now (.counter keyPrefix tr.name (tr.ws now))

/-- A checking loop, from the triple with the one-based index `i` on; `code` is what it reports and
`refuses cur limit` its comparison. -/
def checkTriples (code : Int) (refuses : Int → Int → Bool) (db : Db) :
    List Triple → Int → Option (List Int)
  | [], _ => none
  | tr :: trs, i =>
    let cur := tr.used now keyPrefix db
    if refuses cur tr.limit then some [code, tr.retry now, i, tr.limit, cur]
    else checkTriples code refuses db trs (i + 1)

def checkTokens : Db → List Triple → Int → Option (List Int) :=
  checkTriples now keyPrefix 2 fun cur limit => cur ≥ limit

def checkRequests : Db → List Triple → Int → Option (List Int) :=
  checkTriples now keyPrefix 3 fun cur limit => cur + 1 > limit

/-- The loop that counts an admitted request. -/
def countRequests (grace : Int) : List Triple → Db → Db
  | [], db => db
  | tr :: trs, db =>
    countRequests grace trs
      (incrExpire now (.counter keyPrefix tr.name (tr.ws now)) 1 (tr.window + grace).toNat db)

end AcquireScript

/-- What `ACQUIRE_LUA` reads out of `ARGV`. -/
structure AcquireCall where
  keyPrefix : String
  member : String
  concMax : Int
  concTtl : Int
  concKeyTtl : Int
  grace : Int
  req : List Triple
  tok : List Triple
  granted : Int

def AcquireCall.read (argv : List Arg) : AcquireCall :=
  let nreq := (tonumber (argAt argv 7)).toNat
  let idx := 8 + 3 * nreq
  let ntok := (tonumber (argAt argv idx)).toNat
  { keyPrefix := (argAt argv 1).str
    member := (argAt argv 2).str
    concMax := tonumber (argAt argv 3)
    concTtl := tonumber (argAt argv 4)
    concKeyTtl := tonumber (argAt argv 5)
    grace := tonumber (argAt argv 6)
    req := readTriples argv nreq 8
    tok := readTriples argv ntok (idx + 1)
    granted := tonumber (argAt argv (idx + 1 + 3 * ntok)) }

/-- Drop the leases that are past their lifetime. -/
def AcquireCall.prune (call : AcquireCall) (time : Time) (db : Db) : Db :=
  let concNow : Int := time.secs * 1000000 + time.micros
  let concPruneBefore : Int := concNow / 1000000 - call.concTtl
  let concKey := RedisKey.conc call.keyPrefix
  let db := db.zremRangeByScore time.secs concKey 0 (Bound.excl (concPruneBefore * 1000000))
  -- scores in milliseconds, as an older release wrote them
  db.zremRangeByScore time.secs concKey (100000000000 * 1000000)
    (Bound.incl (concPruneBefore * 1000 * 1000000))

/-- Count an admitted call and give it its lease. -/
def AcquireCall.take (call : AcquireCall) (time : Time) (db : Db) : Db :=
  let concNow : Int := time.secs * 1000000 + time.micros
  let concKey := RedisKey.conc call.keyPrefix
  let db := countRequests time.secs call.keyPrefix call.grace call.req db
  if call.concMax ≥ 0 then
    (db.zadd time.secs concKey concNow call.member).expire time.secs concKey call.concKeyTtl.toNat
  else db

/-- The reply of a refusal, if any limit refuses. -/
def AcquireCall.check (call : AcquireCall) (now : Nat) (db : Db) : Option (List Int) :=
  let inFlight : Int := db.zcard now (.conc call.keyPrefix)
  (if call.concMax ≥ 0 ∧
    inFlight ≥ call.concMax then some [1, 0, 0, call.concMax, inFlight] else none) <|>
  (if call.granted ≥ 0 ∧
    db.get now (.consumed call.keyPrefix) ≥ call.granted then some [4, 0] else none) <|>
  checkTokens now call.keyPrefix db call.tok 1 <|>
  checkRequests now call.keyPrefix db call.req 1

/-- `ACQUIRE_LUA`. -/
def acquireLua (argv : List Arg) (time : Time) (db : Db) : List Int × Db :=
  let call := AcquireCall.read argv
  let db := if call.concMax ≥ 0 then call.prune time db else db
  match call.check time.secs db with
  | some reply => (reply, db)
  | none => ([0, 0, 0, 0, 0], call.take time db)

/-- The token part of `COMMIT_LUA` and `ADD_TOKENS_LUA`. -/
def chargeLua (keyPrefix : String) (tokens grace : Int) (now : Nat) (db : Db) : Db :=
  if tokens > 0 then
    let windows : List (String × Nat) := [("tpm", 60), ("tph", 3600), ("tpd", 86400)]
    let charged := windows.foldl (fun db (name, window) =>
      incrExpire now (.counter keyPrefix name (now - now % window)) tokens
        (window + grace).toNat db) db
    (charged.incrBy now (.consumed keyPrefix) tokens).2
  else db

/-- `COMMIT_LUA`. -/
def commitLua (argv : List Arg) (time : Time) (db : Db) : Db :=
  let keyPrefix := (argAt argv 1).str
  let member := (argAt argv 2).str
  let charged :=
    chargeLua keyPrefix (tonumber (argAt argv 3)) (tonumber (argAt argv 4)) time.secs db
  charged.zrem time.secs (.conc keyPrefix) member

/-- `ADD_TOKENS_LUA`. -/
def addTokensLua (argv : List Arg) (time : Time) (db : Db) : Db :=
  chargeLua (argAt argv 1).str (tonumber (argAt argv 2)) (tonumber (argAt argv 3)) time.secs db

/-- The configuration of the shared backend. -/
structure RedisConfig where
  keyPrefix : String
  concTtl : Nat
  grace : Nat

/-- The configuration a gateway starts with. -/
def defaultConfig : RedisConfig := ⟨"aisix:rl", 300, 5⟩

namespace RedisConfig

/-- `<prefix>:{<key>}`. -/
def bucketPrefix (cfg : RedisConfig) (key : String) : String :=
  cfg.keyPrefix ++ ":\x7b" ++ key ++ "\x7d"

theorem bucketPrefix_injective (cfg : RedisConfig) : Function.Injective cfg.bucketPrefix := by
  intro key key' h
  simpa [bucketPrefix] using h

end RedisConfig

def pushDims (dims : List Dim) : List Arg :=
  .num dims.length :: dims.flatMap fun d => [.text d.name, .num d.windowSecs, .num d.limit]

namespace RedisStore

variable (cfg : RedisConfig)

def acquireArgs (key : String) (limits : Limits) (member : String) : List Arg :=
  [.text (cfg.bucketPrefix key), .text member,
    .num ((limits.maxConcurrency.map Int.ofNat).getD (-1)), .num cfg.concTtl,
    .num (satAdd cfg.concTtl 1), .num cfg.grace] ++
  pushDims (requestDims limits) ++ pushDims (tokenDims limits) ++
  [.num ((limits.granted.map Int.ofNat).getD (-1))]

/-- The window a refusing reply names, by its one-based index into `dims`. -/
def refusedDetail (dims : List Dim) (reply : List Int) : LimitDetail :=
  let idx := reply.getD 2 0
  let name := if idx ≤ 0 then "unknown" else ((dims[idx.toNat - 1]?).map (·.name)).getD "unknown"
  LimitDetail.window name (reply.getD 3 0).toNat (reply.getD 4 0).toNat (reply.getD 1 0).toNat

/-- How `RedisStore::acquire` reads the reply of the script. -/
def decodeAcquire (limits : Limits) (reply : List Int) : Option RateLimitError :=
  match reply.getD 0 0 with
  | 1 =>
    some (.concurrency (LimitDetail.concurrency (reply.getD 3 0).toNat (reply.getD 4 0).toNat))
  | 2 => some (.tokens .tokens (refusedDetail (tokenDims limits) reply))
  | 3 => some (.requests .requests (refusedDetail (requestDims limits) reply))
  | 4 => some .allowanceExhausted
  | _ => none

def acquire (time : Time) (key : String) (limits : Limits) (member : String) (db : Db) :
    Option RateLimitError × Db :=
  let (reply, db) := acquireLua (acquireArgs cfg key limits member) time db
  (decodeAcquire limits reply, db)

def commit (time : Time) (key : String) (tokens : Nat) (member : String) (db : Db) : Db :=
  commitLua [.text (cfg.bucketPrefix key), .text member, .num tokens, .num cfg.grace] time db

def addTokens (time : Time) (key : String) (tokens : Nat) (db : Db) : Db :=
  if tokens = 0 then db
  else addTokensLua [.text (cfg.bucketPrefix key), .num tokens, .num cfg.grace] time db

def release (time : Time) (key : String) (member : String) (db : Db) : Db :=
  db.zrem time.secs (.conc (cfg.bucketPrefix key)) member

end RedisStore
end RateLimit
end Aisix
