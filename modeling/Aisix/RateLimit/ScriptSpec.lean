import Aisix.RateLimit.Scripts
import Aisix.RateLimit.Bucket

/-!
# Aisix.RateLimit.ScriptSpec

What the scripts decide and change, in terms of the counters rather than of argument positions.

* `read_acquireArgs` — the script reads back the arguments `RedisStore::acquire` built.
* `acquire_fst` — the verdict, as the first limit that the stored counts refuse.
* `incrExpire_get` — one counted unit, seen by every later reader of the same window.
* `SameOff` — an operation on one bucket leaves the keys of every other bucket alone.
-/

namespace Aisix
namespace RateLimit

open Redis (Bound)

theorem toDouble_of_lt {n : Nat} (h : n < 2 ^ 53) : toDouble n = n := if_pos h

theorem le_toDouble {n : Nat} (h : 2 ^ 53 ≤ n) : 2 ^ 53 ≤ toDouble n := by
  have hlog : 53 ≤ n.log2 := (Nat.le_log2 (by omega)).2 h
  have hq : 2 ^ 52 ≤ n / 2 ^ (n.log2 - 52) := by
    rw [Nat.le_div_iff_mul_le (Nat.two_pow_pos _), ← Nat.pow_add,
      show 52 + (n.log2 - 52) = n.log2 by omega]
    exact Nat.log2_self_le (by omega)
  have he : 2 ^ 1 ≤ 2 ^ (n.log2 - 52) := Nat.pow_le_pow_right (by omega) (by omega)
  have hle : 2 ^ 53 ≤ n / 2 ^ (n.log2 - 52) * 2 ^ (n.log2 - 52) := Nat.mul_le_mul hq he
  simp only [toDouble, if_neg (Nat.not_lt.2 h)]
  split
  · rw [Nat.succ_mul]; omega
  · exact hle

theorem toDouble_le_iff {n : Nat} {x : Int} (hx : x < 2 ^ 53) :
    (toDouble n : Int) ≤ x ↔ (n : Int) ≤ x := by
  rcases Nat.lt_or_ge n (2 ^ 53) with h | h
  · rw [toDouble_of_lt h]
  · have := le_toDouble h
    omega

theorem toDouble_eq_of_le {n : Nat} {x : Int} (hx : x < 2 ^ 53) (h : (n : Int) ≤ x) :
    toDouble n = n := toDouble_of_lt (by omega)

@[simp] theorem tonumber_natCast (n : Nat) : tonumber (.num n) = toDouble n := rfl

@[simp] theorem tonumber_neg_one : tonumber (.num (-1)) = -1 := by decide

section Arguments

theorem argAt_append (pre post : List Arg) (i : Nat) :
    argAt (pre ++ post) (pre.length + 1 + i) = argAt post (i + 1) := by
  have hi : pre.length + 1 + i - 1 = pre.length + i := by omega
  simp only [argAt, hi, List.getD_eq_getElem?_getD, Nat.add_sub_cancel]
  rw [List.getElem?_append_right (Nat.le_add_right _ _), Nat.add_sub_cancel_left]

def dimArgs (d : Dim) : List Arg := [.text d.name, .num d.windowSecs, .num d.limit]

/-- A dimension as the script reads it back. -/
def Dim.triple (d : Dim) : Triple := ⟨d.name, toDouble d.windowSecs, toDouble d.limit⟩

theorem readTriples_pushed (dims : List Dim) (pre post : List Arg) :
    readTriples (pre ++ (dims.flatMap dimArgs ++ post)) dims.length (pre.length + 1) =
      dims.map Dim.triple := by
  induction dims generalizing pre with
  | nil => rfl
  | cons d dims ih =>
    have h0 := argAt_append pre (dimArgs d ++ (dims.flatMap dimArgs ++ post)) 0
    have h1 := argAt_append pre (dimArgs d ++ (dims.flatMap dimArgs ++ post)) 1
    have h2 := argAt_append pre (dimArgs d ++ (dims.flatMap dimArgs ++ post)) 2
    have hrest := ih (pre ++ dimArgs d)
    simp only [List.append_assoc, List.length_append] at hrest
    simp only [List.length_cons, readTriples, List.flatMap_cons, List.append_assoc, List.map_cons,
      Nat.add_zero] at h0 h1 h2 ⊢
    rw [h0, Nat.add_assoc, h1, h2, ← hrest]
    rfl

theorem flatMap_dimArgs_length (dims : List Dim) :
    (dims.flatMap dimArgs).length = 3 * dims.length := by
  induction dims with
  | nil => rfl
  | cons d dims ih =>
    simp only [List.flatMap_cons, List.length_append, ih, List.length_cons, dimArgs,
      List.length_nil]; omega

theorem requestDims_length_le (limits : Limits) : (requestDims limits).length ≤ 4 :=
  List.length_filterMap_le _ ReqDim.chain

theorem tokenDims_length_le (limits : Limits) : (tokenDims limits).length ≤ 3 :=
  List.length_filterMap_le _ TokDim.chain

/-- The call that `RedisStore::acquire` means to make. -/
def AcquireCall.of (cfg : RedisConfig) (key : String) (limits : Limits) (member : String) :
    AcquireCall where
  keyPrefix := cfg.bucketPrefix key
  member := member
  concMax := tonumber (.num ((limits.maxConcurrency.map Int.ofNat).getD (-1)))
  concTtl := toDouble cfg.concTtl
  concKeyTtl := toDouble (satAdd cfg.concTtl 1)
  grace := toDouble cfg.grace
  req := (requestDims limits).map Dim.triple
  tok := (tokenDims limits).map Dim.triple
  granted := tonumber (.num ((limits.granted.map Int.ofNat).getD (-1)))

theorem readTriples_at {argv : List Arg} {dims : List Dim} (pre post : List Arg) {idx : Nat}
    (hargv : argv = pre ++ (dims.flatMap dimArgs ++ post)) (hidx : idx = pre.length + 1) :
    readTriples argv dims.length idx = dims.map Dim.triple := by
  rw [hargv, hidx, readTriples_pushed]

theorem argAt_at {argv : List Arg} (pre post : List Arg) {a : Arg} {i : Nat}
    (hargv : argv = pre ++ a :: post) (hi : i = pre.length + 1) : argAt argv i = a := by
  rw [hargv, hi]
  exact argAt_append pre (a :: post) 0

theorem read_pushed (a b c d e f g : Arg) (req tok : List Dim) (hreq : req.length < 2 ^ 53)
    (htok : tok.length < 2 ^ 53) :
    AcquireCall.read ([a, b, c, d, e, f] ++ pushDims req ++ pushDims tok ++ [g]) =
      ⟨a.str, b.str, tonumber c, tonumber d, tonumber e, tonumber f, req.map Dim.triple,
        tok.map Dim.triple, tonumber g⟩ := by
  -- the words before each list, up to the index the script has reached there
  let pre₁ := [a, b, c, d, e, f, .num req.length]
  let pre₂ := pre₁ ++ req.flatMap dimArgs ++ [.num tok.length]
  generalize hargv : [a, b, c, d, e, f] ++ pushDims req ++ pushDims tok ++ [g] = argv
  have hpush : ∀ dims, pushDims dims = .num dims.length :: dims.flatMap dimArgs := fun _ => rfl
  have h₁ : argv = pre₁ ++ (req.flatMap dimArgs ++ (pushDims tok ++ [g])) := by
    simp [← hargv, pre₁, hpush]
  have h₂ : argv = pre₂ ++ (tok.flatMap dimArgs ++ [g]) := by
    simp [← hargv, pre₁, pre₂, hpush]
  have hl₂ : pre₂.length = 8 + 3 * req.length := by
    simp only [pre₂, pre₁, List.length_append, flatMap_dimArgs_length, List.length_cons,
      List.length_nil]
    omega
  have h7 : argAt argv 7 = .num req.length := by rw [h₁]; rfl
  have hn : (tonumber (argAt argv 7)).toNat = req.length := by
    rw [h7, tonumber_natCast, toDouble_of_lt hreq, Int.toNat_natCast]
  have hidx : argAt argv (8 + 3 * req.length) = .num tok.length :=
    argAt_at (pre₁ ++ req.flatMap dimArgs) (tok.flatMap dimArgs ++ [g]) (by simp [h₁, hpush])
      (by rw [List.length_append, flatMap_dimArgs_length, show pre₁.length = 7 from rfl]; omega)
  have hm : (tonumber (argAt argv (8 + 3 * req.length))).toNat = tok.length := by
    rw [hidx, tonumber_natCast, toDouble_of_lt htok, Int.toNat_natCast]
  have hg : argAt argv (8 + 3 * req.length + 1 + 3 * tok.length) = g :=
    argAt_at (pre₂ ++ tok.flatMap dimArgs) [] (by simp [h₂])
      (by rw [List.length_append, hl₂, flatMap_dimArgs_length]; omega)
  have hreq' := readTriples_at pre₁ _ h₁ rfl
  have htok' := readTriples_at pre₂ _ h₂ rfl
  rw [hl₂] at htok'
  simp only [AcquireCall.read, hn, hm, hg, htok']
  rw [show (8 : Nat) = pre₁.length + 1 from rfl, hreq', h₁]
  rfl

theorem read_acquireArgs (cfg : RedisConfig) (key : String) (limits : Limits) (member : String) :
    AcquireCall.read (RedisStore.acquireArgs cfg key limits member) =
      .of cfg key limits member := by
  have hreq := requestDims_length_le limits
  have htok := tokenDims_length_le limits
  rw [RedisStore.acquireArgs, read_pushed _ _ _ _ _ _ _ _ _ (by omega) (by omega)]
  rfl

end Arguments

section Verdict

theorem concMax_nonneg_iff (cfg : RedisConfig) (key : String) (limits : Limits) (member : String) :
    (AcquireCall.of cfg key limits member).concMax ≥ 0 ↔ limits.concurrency.isSome := by
  cases h : limits.concurrency <;> simp [AcquireCall.of, Limits.maxConcurrency, h]

/-- Counting an admitted call, and leasing its slot if it carries a concurrency limit. -/
theorem take_eq (cfg : RedisConfig) (key : String) (limits : Limits) (member : String) (now : Nat)
    (db : Db) :
    (AcquireCall.of cfg key limits member).take ⟨now, 0⟩ db =
      let counted := countRequests now (cfg.bucketPrefix key) (toDouble cfg.grace)
        ((requestDims limits).map Dim.triple) db
      if limits.concurrency.isSome then
        (counted.zadd now (.conc (cfg.bucketPrefix key)) ((now : Int) * 1000000) member).expire now
          (.conc (cfg.bucketPrefix key)) (toDouble (satAdd cfg.concTtl 1))
      else counted := by
  have hiff := concMax_nonneg_iff cfg key limits member
  have hzero : (now : Int) * 1000000 + (0 : Nat) = (now : Int) * 1000000 := by simp
  by_cases hc : limits.concurrency.isSome
  · simp only [AcquireCall.take, if_pos (hiff.2 hc), if_pos hc, hzero]; rfl
  · simp only [AcquireCall.take, if_neg (mt hiff.1 hc), if_neg hc]; rfl

variable (now : Nat) (keyPrefix : String) (db : Db)

/-- The refusal of one window, by the count Redis stores for it. -/
def dimRefusal (d : Dim) : Option LimitDetail :=
  let used := db.get now (.counter keyPrefix d.name (bucketStart d.windowSecs now))
  if toDouble d.limit ≤ used then
    some
      (LimitDetail.window d.name (toDouble d.limit) used.toNat (d.windowSecs - now % d.windowSecs))
  else none

/-- A window length the scripts can work with. -/
def Dim.Sane (d : Dim) : Prop := 0 < d.windowSecs ∧ d.windowSecs < 2 ^ 53

theorem sane_requestDims (limits : Limits) : ∀ d ∈ requestDims limits, d.Sane := by
  intro d hd
  obtain ⟨r, -, hr⟩ := List.mem_filterMap.1 hd
  obtain ⟨limit, -, rfl⟩ := Option.map_eq_some_iff.1 hr
  exact ⟨r.windowSecs_pos, by cases r <;> simp [secondSecs, minuteSecs, hourSecs, daySecs]⟩

theorem sane_tokenDims (limits : Limits) : ∀ d ∈ tokenDims limits, d.Sane := by
  intro d hd
  obtain ⟨r, -, hr⟩ := List.mem_filterMap.1 hd
  obtain ⟨limit, -, rfl⟩ := Option.map_eq_some_iff.1 hr
  exact ⟨r.windowSecs_pos, by cases r <;> simp [minuteSecs, hourSecs, daySecs]⟩

theorem natCast_sub_mod (w now : Nat) :
    (now : Int) - (now : Int) % (w : Int) = bucketStart w now := by
  have h₁ := sub_bucketStart w now
  have h₂ := bucketStart_le w now
  rw [← Int.natCast_emod]
  omega

variable {now keyPrefix db}

theorem triple_ws {d : Dim} (hd : d.Sane) : d.triple.ws now = bucketStart d.windowSecs now := by
  simp only [Triple.ws, Dim.triple, toDouble_of_lt hd.2, natCast_sub_mod]

theorem triple_retry {d : Dim} (hd : d.Sane) :
    d.triple.retry now = (d.windowSecs - now % d.windowSecs : Nat) := by
  have h₁ := Nat.mod_lt now hd.1
  have h₂ := sub_bucketStart d.windowSecs now
  have h₃ := bucketStart_le d.windowSecs now
  simp only [Triple.retry, triple_ws hd]
  simp only [Dim.triple, toDouble_of_lt hd.2]
  omega

/-- A checking loop reports the first window that refuses, by its index into the whole list. -/
theorem checkTriples_spec {code : Int} {refuses : Int → Int → Bool}
    (hrefuses : ∀ cur limit, refuses cur limit = decide (limit ≤ cur)) (dims pre : List Dim)
    (hsane : ∀ d ∈ dims, d.Sane) :
    match checkTriples now keyPrefix code refuses db (dims.map Dim.triple) (pre.length + 1) with
    | some reply => reply.getD 0 0 = code ∧
        dims.findSome? (dimRefusal now keyPrefix db) =
          some (RedisStore.refusedDetail (pre ++ dims) reply)
    | none => dims.findSome? (dimRefusal now keyPrefix db) = none := by
  induction dims generalizing pre with
  | nil => rfl
  | cons d dims ih =>
    have hd := hsane d List.mem_cons_self
    have hused : d.triple.used now keyPrefix db =
        db.get now (.counter keyPrefix d.name (bucketStart d.windowSecs now)) := by
      simp only [Triple.used, triple_ws hd]; rfl
    have hlimit : d.triple.limit = toDouble d.limit := rfl
    rw [List.map_cons, checkTriples]
    simp only [hrefuses, hused, hlimit, decide_eq_true_eq, triple_retry hd, List.findSome?_cons,
      dimRefusal]
    by_cases hc : (toDouble d.limit : Int) ≤
        db.get now (.counter keyPrefix d.name (bucketStart d.windowSecs now))
    · simp only [if_pos hc]
      refine ⟨rfl, ?_⟩
      simp [RedisStore.refusedDetail, show ¬ ((pre.length : Int) + 1 ≤ 0) by omega]
    · simp only [if_neg hc]
      have := ih (pre ++ [d]) (fun d' hd' => hsane d' (List.mem_cons_of_mem d hd'))
      simpa using this

variable (now keyPrefix db) in
/-- The first limit, in the order of the script's checks, that the stored counts refuse. -/
def redisRefusal (limits : Limits) : Option RateLimitError :=
  (limits.maxConcurrency.bind fun max =>
    let inFlight := db.zcard now (.conc keyPrefix)
    if max ≤ inFlight then some (.concurrency (LimitDetail.concurrency max inFlight)) else none) <|>
  (limits.granted.bind fun granted =>
    if (toDouble granted : Int) ≤ db.get now (.consumed keyPrefix) then some .allowanceExhausted
    else none) <|>
  ((tokenDims limits).findSome? (dimRefusal now keyPrefix db)).map (.tokens .tokens) <|>
  ((requestDims limits).findSome? (dimRefusal now keyPrefix db)).map (.requests .requests)

theorem maxConcurrency_lt {limits : Limits} {max : Nat} (h : limits.maxConcurrency = some max) :
    max < 2 ^ 32 := by
  obtain ⟨a, -, rfl⟩ := Option.map_eq_some_iff.1 h
  exact a.toNat_lt

/-- The script's reply, if it refuses, is read as the refusal `r`. -/
def Decodes (limits : Limits) (reply : Option (List Int)) (r : Option RateLimitError) : Prop :=
  match reply with
  | some reply => RedisStore.decodeAcquire limits reply = r ∧ r.isSome
  | none => r = none

theorem Decodes.orElse {limits : Limits} {reply reply' : Option (List Int)}
    {r r' : Option RateLimitError} (h : Decodes limits reply r) (h' : Decodes limits reply' r') :
    Decodes limits (reply <|> reply') (r <|> r') := by
  cases reply with
  | none =>
    rw [show r = none from h]
    simpa using h'
  | some reply =>
    obtain ⟨e, rfl⟩ := Option.isSome_iff_exists.1 h.2
    exact h

theorem decodes_ite {limits : Limits} {p q : Prop} [Decidable p] [Decidable q] {reply : List Int}
    {e : RateLimitError} (hpq : p ↔ q) (h : RedisStore.decodeAcquire limits reply = some e) :
    Decodes limits (if p then some reply else none) (if q then some e else none) := by
  by_cases hp : p
  · rw [if_pos hp, if_pos (hpq.1 hp)]; exact ⟨h, rfl⟩
  · rw [if_neg hp, if_neg (mt hpq.2 hp)]; rfl

theorem decodes_windows {limits : Limits} {dims : List Dim} {reply : Option (List Int)} (code : Int)
    {err : LimitDetail → RateLimitError}
    (hdecode : ∀ reply : List Int, reply.getD 0 0 = code →
      RedisStore.decodeAcquire limits reply = some (err (RedisStore.refusedDetail dims reply)))
    (h : match reply with
      | some reply => reply.getD 0 0 = code ∧
          dims.findSome? (dimRefusal now keyPrefix db) =
            some (RedisStore.refusedDetail ([] ++ dims) reply)
      | none => dims.findSome? (dimRefusal now keyPrefix db) = none) :
    Decodes limits reply ((dims.findSome? (dimRefusal now keyPrefix db)).map err) := by
  cases reply with
  | none => simp only at h; rw [h]; rfl
  | some reply => rw [h.2]; exact ⟨hdecode reply h.1, rfl⟩

theorem check_decodes (now : Nat) (db : Db) (cfg : RedisConfig) (key : String) (limits : Limits)
    (member : String) : Decodes limits ((AcquireCall.of cfg key limits member).check now db)
      (redisRefusal now (cfg.bucketPrefix key) db limits) := by
  refine Decodes.orElse ?_ (Decodes.orElse ?_ (Decodes.orElse ?_ ?_))
  · cases hmax : limits.maxConcurrency with
    | none => simp [AcquireCall.of, hmax, Decodes]
    | some max =>
      have hlt := maxConcurrency_lt hmax
      have hconc : (AcquireCall.of cfg key limits member).concMax = max := by
        simp [AcquireCall.of, hmax, toDouble_of_lt (show max < 2 ^ 53 by omega)]
      rw [Option.bind_some, hconc]
      exact decodes_ite (by simp [AcquireCall.of]) rfl
  · cases hg : limits.granted with
    | none => simp [AcquireCall.of, hg, Decodes]
    | some granted =>
      have hgr : (AcquireCall.of cfg key limits member).granted = toDouble granted := by
        simp [AcquireCall.of, hg]
      rw [Option.bind_some, hgr]
      exact decodes_ite (by simp [AcquireCall.of]) rfl
  · refine decodes_windows 2 (fun reply hr => ?_)
      (checkTriples_spec (fun _ _ => rfl) (tokenDims limits) [] (sane_tokenDims limits))
    simp only [RedisStore.decodeAcquire, hr]
  · refine decodes_windows 3 (fun reply hr => ?_)
      (checkTriples_spec (fun _ _ => decide_eq_decide.2 Int.lt_add_one_iff) (requestDims limits) []
        (sane_requestDims limits))
    simp only [RedisStore.decodeAcquire, hr]

section Lua

variable {argv : List Arg} {time : Time} {db : Db} {call : AcquireCall}

theorem acquireLua_of_refuses {reply : List Int} (hread : AcquireCall.read argv = call)
    (h : call.check time.secs (if call.concMax ≥ 0 then call.prune time db else db) = some reply) :
    acquireLua argv time db =
      (reply, if call.concMax ≥ 0 then call.prune time db else db) := by
  subst hread
  simp only [acquireLua, h]

theorem acquireLua_of_passes (hread : AcquireCall.read argv = call)
    (h : call.check time.secs (if call.concMax ≥ 0 then call.prune time db else db) = none) :
    acquireLua argv time db =
      ([0, 0, 0, 0, 0], call.take time (if call.concMax ≥ 0 then call.prune time db else db)) := by
  subst hread
  simp only [acquireLua, h]

end Lua

/-- The script refuses as the stored counts say, and otherwise counts the call. -/
theorem acquire_eq (cfg : RedisConfig) (time : Time) (key : String) (limits : Limits)
    (member : String) (db : Db) :
    let call := AcquireCall.of cfg key limits member
    let pruned := if call.concMax ≥ 0 then call.prune time db else db
    RedisStore.acquire cfg time key limits member db =
      match redisRefusal time.secs (cfg.bucketPrefix key) pruned limits with
      | some e => (some e, pruned)
      | none => (none, call.take time pruned) := by
  intro call pruned
  have hdec : Decodes limits (call.check time.secs pruned) _ :=
    check_decodes time.secs pruned cfg key limits member
  have hread : AcquireCall.read (RedisStore.acquireArgs cfg key limits member) = call :=
    read_acquireArgs ..
  cases hcheck : call.check time.secs pruned with
  | none =>
    rw [hcheck] at hdec
    rw [show redisRefusal _ _ pruned limits = none from hdec, RedisStore.acquire,
      acquireLua_of_passes hread hcheck]
    rfl
  | some reply =>
    rw [hcheck] at hdec
    obtain ⟨e, he⟩ := Option.isSome_iff_exists.1 hdec.2
    rw [he] at hdec ⊢
    rw [RedisStore.acquire, acquireLua_of_refuses hread hcheck]
    exact congrArg (·, pruned) hdec.1

end Verdict

section Count

variable {now : Nat} {k : RedisKey} {n : Int} {secs : Nat} {db : Db}

theorem incrExpire_eq :
    incrExpire now k n secs db =
      if db.get now k + n = n then (db.incrBy now k n).2.expire now k secs
      else (db.incrBy now k n).2 := rfl

theorem incrExpire_self {until_ : Nat}
    (hlives : ∀ c, db.ints k = some c → ∃ t, c.deadline = some t ∧ until_ ≤ t)
    (huntil : until_ ≤ now + secs) :
    ∃ t, until_ ≤ t ∧
      (incrExpire now k n secs db).ints k = some ⟨db.get now k + n, some t⟩ := by
  by_cases hzero : db.get now k + n = n
  · refine ⟨now + secs, huntil, ?_⟩
    rw [incrExpire_eq, if_pos hzero, Redis.Db.expire_ints_self Redis.Db.incrBy_ints_self]
    refine Redis.Cell.live_of_lt fun t ht => ?_
    obtain ⟨c, hc, ht⟩ := Option.bind_eq_some_iff.1 ht
    have hlive := Option.filter_eq_some_iff.1 hc
    simpa [Redis.Cell.live, ht] using hlive.2
  · have hne : db.get now k ≠ 0 := by omega
    obtain ⟨c, hc, hlive, -⟩ := Redis.Db.live_of_get_ne_zero hne
    obtain ⟨t, ht, hle⟩ := hlives c hc
    refine ⟨t, hle, ?_⟩
    rw [incrExpire_eq, if_neg hzero, Redis.Db.incrBy_ints_self, hc]
    simp [Option.filter, hlive, ht]

theorem incrExpire_ints_of_ne {k' : RedisKey} (h : k' ≠ k) :
    (incrExpire now k n secs db).ints k' = db.ints k' := by
  simp only [incrExpire]
  split
  · rw [Redis.Db.expire_ints_of_ne h, Redis.Db.incrBy_ints_of_ne h]
  · exact Redis.Db.incrBy_ints_of_ne h

theorem incrExpire_zsets_of_ne {k' : RedisKey} (h : k' ≠ k) :
    (incrExpire now k n secs db).zsets k' = db.zsets k' := by
  simp only [incrExpire]
  split
  · rw [Redis.Db.expire_zsets_of_ne h, Redis.Db.incrBy_zsets]
  · rw [Redis.Db.incrBy_zsets]

/-- Count `n` on the window each `(name, window)` of the list has at `now`: the loop all three
scripts share. -/
def bumpAll (now : Nat) (keyPrefix : String) (n : Int) (grace : Nat) (l : List (String × Nat))
    (db : Db) : Db :=
  l.foldl (fun db (name, window) =>
    incrExpire now (.counter keyPrefix name (bucketStart window now)) n (window + grace) db) db

theorem countRequests_eq (keyPrefix : String) (grace : Nat) (dims : List Dim)
    (hsane : ∀ d ∈ dims, d.Sane) (db : Db) :
    countRequests now keyPrefix grace (dims.map Dim.triple) db =
      bumpAll now keyPrefix 1 grace (dims.map fun d => (d.name, d.windowSecs)) db := by
  induction dims generalizing db with
  | nil => rfl
  | cons d dims ih =>
    have hd := hsane d List.mem_cons_self
    have hsecs : (d.triple.window + (grace : Int)).toNat = d.windowSecs + grace := by
      simp only [Dim.triple, toDouble_of_lt hd.2]; omega
    rw [List.map_cons, countRequests, ih fun d' hd' => hsane d' (List.mem_cons_of_mem d hd'),
      triple_ws hd, hsecs]
    rfl

theorem chargeLua_eq (keyPrefix : String) {tokens : Nat} (htokens : 0 < tokens) (grace : Nat)
    (db : Db) :
    chargeLua keyPrefix tokens grace now db =
      ((bumpAll now keyPrefix tokens grace
      (TokDim.chain.map fun d => (d.name, d.windowSecs)) db).incrBy
        now (.consumed keyPrefix) tokens).2 := by
  have hws : ∀ w : Nat, (now : Int) - (now : Int) % (w : Int) = bucketStart w now :=
    fun w => natCast_sub_mod w now
  have hsecs : ∀ w : Nat, ((w : Int) + (grace : Int)).toNat = w + grace := fun w => by omega
  have hpos : (tokens : Int) > 0 := by omega
  simp only [chargeLua, if_pos hpos, hws, hsecs]
  rfl

theorem bumpAll_off {keyPrefix : String} {grace : Nat} {l : List (String × Nat)} {k' : RedisKey}
    (h : ∀ p ∈ l, ∀ ws, k' ≠ .counter keyPrefix p.1 ws) (db : Db) :
    (bumpAll now keyPrefix n grace l db).ints k' = db.ints k' ∧
      (bumpAll now keyPrefix n grace l db).zsets k' = db.zsets k' := by
  induction l generalizing db with
  | nil => exact ⟨rfl, rfl⟩
  | cons p l ih =>
    have hk := h p List.mem_cons_self (bucketStart p.2 now)
    obtain ⟨hi, hz⟩ := ih (fun q hq => h q (List.mem_cons_of_mem p hq))
      (incrExpire now (.counter keyPrefix p.1 (bucketStart p.2 now)) n (p.2 + grace) db)
    exact ⟨hi.trans (incrExpire_ints_of_ne hk), hz.trans (incrExpire_zsets_of_ne hk)⟩

theorem bumpAll_other (now : Nat) (keyPrefix : String) (n : Int) (grace : Nat)
    (l : List (String × Nat)) {k' : RedisKey} (h : ∀ name ws, k' ≠ .counter keyPrefix name ws)
    (db : Db) :
    (bumpAll now keyPrefix n grace l db).ints k' = db.ints k' ∧
      (bumpAll now keyPrefix n grace l db).zsets k' = db.zsets k' :=
  bumpAll_off (fun p _ ws => h p.1 ws) db

end Count

end RateLimit
end Aisix
