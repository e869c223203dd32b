import Aisix.Lts
import Aisix.RateLimit.Agreement
import Aisix.RateLimit.LocalStore

/-!
# Aisix.RateLimit.Conformance

The local store and the Redis scripts answer the same sequence of calls with the same verdicts, as
long as the leases Redis holds are all the slots the local store counts (`Conforms`).

* `acquire_agrees`, `commit_agrees`, … — one operation on one bucket, on both sides.
* `step_agrees` — one step of the two backends under one clock.
* `verdicts_eq` — the verdicts of a whole run.
* `verdicts_differ` — a call without a concurrency limit takes a slot locally and no lease in Redis.
-/

namespace Aisix
namespace RateLimit

section Bucket

variable {now : Nat} {s : KeyState} {db : Db}

theorem reqName_injective {d d' : ReqDim} (h : d.name = d'.name) : d = d' := by
  cases d <;> cases d' <;> first | rfl | exact absurd h (by decide)

theorem tokName_ne_reqName (d : TokDim) (d' : ReqDim) : d.name ≠ d'.name := by
  cases d <;> cases d' <;> decide

theorem mem_requestDims {limits : Limits} {p : String × Nat} :
    p ∈ (requestDims limits).map (fun d => (d.name, d.windowSecs)) ↔
      ∃ d : ReqDim, (limits.req d).isSome ∧ p = (d.name, d.windowSecs) := by
  simp only [requestDims, List.mem_map, List.mem_filterMap, Option.map_eq_some_iff,
    Option.isSome_iff_exists]
  constructor
  · rintro ⟨-, ⟨d, -, limit, hl, rfl⟩, rfl⟩
    exact ⟨d, ⟨limit, hl⟩, rfl⟩
  · rintro ⟨d, ⟨limit, hl⟩, rfl⟩
    exact ⟨_, ⟨d, ReqDim.mem_chain d, limit, hl, rfl⟩, rfl⟩

theorem requestDims_names_nodup (limits : Limits) :
    (((requestDims limits).map fun d => (d.name, d.windowSecs)).map Prod.fst).Nodup := by
  have hsub : ∀ l : List ReqDim, List.Sublist
      (((l.filterMap fun d => (limits.req d).map
        fun limit => (⟨d.name, d.windowSecs, limit⟩ : Dim)).map fun d => (d.name, d.windowSecs)).map
        Prod.fst) (l.map ReqDim.name) := by
    intro l
    induction l with
    | nil => exact .slnil
    | cons d l ih =>
      cases hl : limits.req d with
      | none => simpa [hl] using ih.cons _
      | some limit => simpa [hl] using ih.cons_cons d.name
  exact (hsub ReqDim.chain).nodup (by decide)

variable (cfg : RedisConfig) (key : String)

theorem BucketAgrees.of_counters {concTtl grace : Nat} {n : Int} {keyPrefix : String}
    {s' : KeyState} {l : List (String × Nat)} (h : BucketAgrees concTtl now s keyPrefix db)
    (hreq : ∀ d, CounterAgrees now (s'.req d) keyPrefix d.name (bumpAll now keyPrefix n grace l db))
    (htok : ∀ d, CounterAgrees now (s'.tok d) keyPrefix d.name (bumpAll now keyPrefix n grace l db))
    (hconsumed : s'.consumedMicroUsd = s.consumedMicroUsd) (hinFlight : s'.inFlight = s.inFlight) :
    BucketAgrees concTtl now s' keyPrefix (bumpAll now keyPrefix n grace l db) := by
  have hcons : (bumpAll now keyPrefix n grace l db).ints (.consumed keyPrefix) = _ :=
    (bumpAll_other now keyPrefix n grace l (by simp) db).1
  have hconc : (bumpAll now keyPrefix n grace l db).zsets (.conc keyPrefix) = _ :=
    (bumpAll_other now keyPrefix n grace l (by simp) db).2
  refine ⟨hreq, htok, fun t => ?_, fun cell hcell => ?_, fun z hz => ?_⟩
  · rw [Redis.Db.get_congr hcons, hconsumed]; exact h.consumed t
  · exact h.lasting cell (hcons ▸ hcell)
  · exact hinFlight ▸ h.leases z (hconc ▸ hz)

theorem count_agrees {limits : Limits} {s' : KeyState}
    (h : BucketAgrees cfg.concTtl now s (cfg.bucketPrefix key) db) (hexact : Exact db)
    (hreq : ∀ d, s'.req d = if (limits.req d).isSome then (s.req d).add now 1 else s.req d)
    (htok : ∀ d, s'.tok d = s.tok d ∨ s'.tok d = (s.tok d).rollIfStale now)
    (hconsumed : s'.consumedMicroUsd = s.consumedMicroUsd) (hinFlight : s'.inFlight = s.inFlight) :
    BucketAgrees cfg.concTtl now s' (cfg.bucketPrefix key)
      (countRequests now (cfg.bucketPrefix key) (toDouble cfg.grace)
        ((requestDims limits).map Dim.triple) db) := by
  rw [countRequests_eq _ _ _ (sane_requestDims limits)]
  have hnames : ∀ {name}, name ∈ ((requestDims limits).map fun d => (d.name, d.windowSecs)).map
      Prod.fst → ∃ d : ReqDim, (limits.req d).isSome ∧ name = d.name := by
    intro name hname
    obtain ⟨p, hp, rfl⟩ := List.mem_map.1 hname
    obtain ⟨d, hd, rfl⟩ := mem_requestDims.1 hp
    exact ⟨d, hd, rfl⟩
  refine h.of_counters (fun d => ?_) (fun d => ?_) hconsumed hinFlight
  · rw [hreq d]
    split
    next hd =>
      have hlt := countAt_lt h hexact d
      exact (h.req d).bumpAll_of_mem d.windowSecs_pos (n := 1) (by simp only [u64Max]; omega)
        (requestDims_names_nodup limits) (mem_requestDims.2 ⟨d, hd, rfl⟩)
    next hd =>
      refine (h.req d).bumpAll_of_notMem (n := 1) fun hmem => hd ?_
      obtain ⟨d', hd', hname⟩ := hnames hmem
      rwa [reqName_injective hname]
  · refine ((h.tok d).of_eq_or_roll (htok d)).bumpAll_of_notMem (n := 1) fun hmem => ?_
    obtain ⟨d', -, hname⟩ := hnames hmem
    exact tokName_ne_reqName d d' hname

theorem take_agrees {limits : Limits} {member : String} {s' : KeyState}
    (h : BucketAgrees cfg.concTtl now s (cfg.bucketPrefix key) db) (hexact : Exact db)
    (hreq : ∀ d, s'.req d = if (limits.req d).isSome then (s.req d).add now 1 else s.req d)
    (htok : ∀ d, s'.tok d = s.tok d ∨ s'.tok d = (s.tok d).rollIfStale now)
    (hconsumed : s'.consumedMicroUsd = s.consumedMicroUsd)
    (hinFlight : s'.inFlight = insert member s.inFlight) :
    BucketAgrees cfg.concTtl now s' (cfg.bucketPrefix key)
      ((AcquireCall.of cfg key limits member).take ⟨now, 0⟩ db) := by
  let s₁ : KeyState := { s' with inFlight := s.inFlight }
  have hreq₁ : ∀ d, s'.req d = s₁.req d := fun d => by cases d <;> rfl
  have htok₁ : ∀ d, s'.tok d = s₁.tok d := fun d => by cases d <;> rfl
  have hcount : BucketAgrees cfg.concTtl now s₁ (cfg.bucketPrefix key) _ :=
    count_agrees cfg key h hexact (fun d => hreq₁ d ▸ hreq d)
      (fun d => htok₁ d ▸ htok d) hconsumed rfl
  rw [take_eq]
  dsimp only
  split
  · refine hcount.lease (fun k hk => ?_) hreq₁ htok₁ rfl fun z hz => ?_
    · rw [Redis.Db.expire_ints_of_ne hk, Redis.Db.zadd_ints]
    · rw [hinFlight]
      refine LeasesAgree.zadd rfl ?_ hcount.leases hz
      rcases Nat.lt_or_ge (satAdd cfg.concTtl 1) (2 ^ 53) with hlt | hge
      · rw [toDouble_of_lt hlt]
        simp only [satAdd, u64Max] at hlt ⊢; omega
      · have := le_toDouble hge
        omega
  · refine hcount.lease (fun _ _ => rfl) hreq₁ htok₁ rfl fun z hz => ?_
    exact hinFlight ▸ (hcount.leases z hz).mono (Finset.subset_insert ..)

theorem acquire_agrees (limits : Limits) (member : String)
    (h : BucketAgrees cfg.concTtl now s (cfg.bucketPrefix key) db) (hexact : Exact db)
    (hl : limits.concurrency.isSome → LeasesHeld cfg.concTtl now s (cfg.bucketPrefix key) db) :
    (s.acquireBody now limits member).1 =
        (RedisStore.acquire cfg ⟨now, 0⟩ key limits member db).1 ∧
      BucketAgrees cfg.concTtl now (s.acquireBody now limits member).2 (cfg.bucketPrefix key)
        (RedisStore.acquire cfg ⟨now, 0⟩ key limits member db).2 := by
  have hspec := KeyState.acquireBody_spec now limits member s
  have hiff := concMax_nonneg_iff cfg key limits member
  rw [acquire_eq]
  generalize hp : (if (AcquireCall.of cfg key limits member).concMax ≥ 0 then
    (AcquireCall.of cfg key limits member).prune ⟨now, 0⟩ db else db) = pruned
  have hpruned : BucketAgrees cfg.concTtl now s (cfg.bucketPrefix key) pruned ∧
      pruned.ints = db.ints := by
    rw [← hp]
    split
    · exact ⟨h.prune cfg key limits member, rfl⟩
    · exact ⟨h, rfl⟩
  have hexact' : Exact pruned := fun k cell hcell => hexact k cell (hpruned.2 ▸ hcell)
  have hcard : limits.concurrency.isSome →
      pruned.zcard now (.conc (cfg.bucketPrefix key)) = s.inFlight.card ∧
        s.inFlight.card < 2 ^ 32 := by
    intro hc
    rw [← hp, if_pos (hiff.2 hc)]
    exact ⟨prune_zcard cfg key limits member h (hl hc), (hl hc).few⟩
  have hfits : ∀ d, (s.req d).countAt now < u64Max := fun d => by
    have := countAt_lt h hexact d
    simp only [u64Max]; omega
  dsimp only
  rw [redisRefusal_eq hpruned.1 hexact' hcard, ← hspec.refusal]
  cases hr : (s.acquireBody now limits member).1 with
  | some e =>
    have hne : (s.acquireBody now limits member).1 ≠ none := by simp [hr]
    refine ⟨rfl, hpruned.1.settle (fun d => ?_) hspec.tok hspec.consumed ?_⟩
    · exact (hspec.req_of_some hne d).eq_or_roll (hfits d)
    · rw [hspec.inFlight, if_neg hne]
  | none =>
    refine ⟨rfl, take_agrees cfg key hpruned.1 hexact' (hspec.req_of_none hr) hspec.tok
      hspec.consumed ?_⟩
    rw [hspec.inFlight, if_pos hr]

theorem charge_agrees {n : Nat} (hn : 0 < n) (hlt : n < 2 ^ 53)
    (h : BucketAgrees cfg.concTtl now s (cfg.bucketPrefix key) db) (hexact : Exact db) :
    BucketAgrees cfg.concTtl now (s.charge now n) (cfg.bucketPrefix key)
      (chargeLua (cfg.bucketPrefix key) n (toDouble cfg.grace) now db) := by
  rw [chargeLua_eq _ hn]
  -- first the windows, then the cumulative total
  let s₁ : KeyState := { s.charge now n with consumedMicroUsd := s.consumedMicroUsd }
  have htoks : ∀ d, s₁.tok d = (s.tok d).add now n := fun d => by cases d <;> rfl
  have hwindows : BucketAgrees cfg.concTtl now s₁ (cfg.bucketPrefix key)
      (bumpAll now (cfg.bucketPrefix key) n (toDouble cfg.grace)
        (TokDim.chain.map fun d => (d.name, d.windowSecs)) db) := by
    refine h.of_counters (fun d => ?_) (fun d => ?_) rfl rfl
    · rw [show s₁.req d = s.req d by cases d <;> rfl]
      refine (h.req d).bumpAll_of_notMem fun hmem => ?_
      obtain ⟨d', -, hname⟩ := List.mem_map.1 (List.map_map ▸ hmem)
      exact tokName_ne_reqName d' d hname
    · rw [htoks d]
      have hcount := hexact.get_lt now (.counter (cfg.bucketPrefix key) d.name
        (bucketStart d.windowSecs now))
      rw [(h.tok d).counts now le_rfl] at hcount
      exact (h.tok d).bumpAll_of_mem d.windowSecs_pos (by simp only [u64Max]; omega) (by decide)
        (List.mem_map_of_mem (TokDim.mem_chain d))
  have hspent := hexact.get_lt now (.consumed (cfg.bucketPrefix key))
  rw [h.consumed now] at hspent
  refine hwindows.spend (fun d => by cases d <;> rfl) (fun d => by cases d <;> rfl) ?_ rfl
  exact satAdd_of_lt (by simp only [u64Max]; omega)

theorem toDouble_pos {n : Nat} (h : 0 < n) : 0 < toDouble n := by
  rcases Nat.lt_or_ge n (2 ^ 53) with hlt | hge
  · rwa [toDouble_of_lt hlt]
  · have := le_toDouble hge
    omega

theorem lt_of_exact_charge {keyPrefix : String} {tokens grace : Nat} (htokens : 0 < tokens)
    (hconsumed : 0 ≤ db.get now (.consumed keyPrefix))
    (hexact : Exact (chargeLua keyPrefix (toDouble tokens) grace now db)) : tokens < 2 ^ 53 := by
  by_contra hge
  have hbig := le_toDouble (Nat.not_lt.1 hge)
  rw [chargeLua_eq _ (toDouble_pos htokens)] at hexact
  have hval := hexact _ _ Redis.Db.incrBy_ints_self
  rw [Redis.Db.get_congr (bumpAll_other now keyPrefix _ grace _ (by simp) db).1] at hval
  dsimp only at hval
  omega

theorem chargeAny_agrees {tokens : Nat}
    (h : BucketAgrees cfg.concTtl now s (cfg.bucketPrefix key) db) (hexact : Exact db)
    (hexact' : Exact
      (chargeLua (cfg.bucketPrefix key) (toDouble tokens) (toDouble cfg.grace) now db)) :
    BucketAgrees cfg.concTtl now (s.charge now tokens) (cfg.bucketPrefix key)
      (chargeLua (cfg.bucketPrefix key) (toDouble tokens) (toDouble cfg.grace) now db) := by
  rcases Nat.eq_zero_or_pos tokens with rfl | hpos
  · -- a charge of nothing rolls the local windows and leaves Redis alone
    have hzero :
        chargeLua (cfg.bucketPrefix key) (toDouble 0 : Nat) (toDouble cfg.grace) now db = db := by
      rw [toDouble_of_lt (by omega)]; rfl
    rw [hzero]
    have hcons := hexact.get_lt now (.consumed (cfg.bucketPrefix key))
    rw [h.consumed now] at hcons
    refine h.settle (fun d => .inl (by cases d <;> rfl)) (fun d => .inr ?_) ?_ rfl
    · have hcount := hexact.get_lt now (.counter (cfg.bucketPrefix key) d.name
        (bucketStart d.windowSecs now))
      rw [(h.tok d).counts now le_rfl] at hcount
      have heq : (s.charge now 0).tok d = (s.tok d).add now 0 := by cases d <;> rfl
      rw [heq, FixedWindowCounter.add_eq, FixedWindowCounter.rollIfStale_eta,
        satAdd_zero (by simp only [u64Max]; omega)]
    · exact satAdd_zero (by simp only [u64Max]; omega)
  · have hlt : tokens < 2 ^ 53 :=
      lt_of_exact_charge hpos (by rw [h.consumed now]; omega) hexact'
    rw [toDouble_of_lt hlt]
    exact charge_agrees cfg key hpos hlt h hexact

end Bucket

section OtherBuckets

/-- The bucket a key belongs to. -/
def RedisKey.bucket : RedisKey → String
  | .counter p _ _ => p
  | .consumed p => p
  | .conc p => p
  | .marker p => p

/-- The two databases agree on every key outside the bucket `keyPrefix`. -/
structure SameOff (keyPrefix : String) (db db' : Db) : Prop where
  ints : ∀ k, k.bucket ≠ keyPrefix → db'.ints k = db.ints k
  zsets : ∀ k, k.bucket ≠ keyPrefix → db'.zsets k = db.zsets k

namespace SameOff

variable {keyPrefix : String} {db db' db'' : Db} {now : Nat}

theorem refl : SameOff keyPrefix db db := ⟨fun _ _ => rfl, fun _ _ => rfl⟩

theorem trans (h : SameOff keyPrefix db db') (h' : SameOff keyPrefix db' db'') :
    SameOff keyPrefix db db'' where
  ints k hk := (h'.ints k hk).trans (h.ints k hk)
  zsets k hk := (h'.zsets k hk).trans (h.zsets k hk)

theorem zkeep (p : String → Int → Bool) :
    SameOff keyPrefix db (db.zkeep now (.conc keyPrefix) p) where
  ints _ _ := rfl
  zsets _ hk := Redis.Db.zkeep_zsets_of_ne fun h => hk (by rw [h]; rfl)

theorem zrem (member : String) : SameOff keyPrefix db (db.zrem now (.conc keyPrefix) member) :=
  zkeep _

theorem prune (cfg : RedisConfig) (key : String) (limits : Limits) (member : String) (time : Time) :
    SameOff (cfg.bucketPrefix key) db ((AcquireCall.of cfg key limits member).prune time db) := by
  simp only [AcquireCall.prune, AcquireCall.of, Redis.Db.zremRangeByScore]
  exact (zkeep _).trans (zkeep _)

theorem bumpAll (n : Int) (grace : Nat) (l : List (String × Nat)) :
    SameOff keyPrefix db (bumpAll now keyPrefix n grace l db) where
  ints k hk := (bumpAll_off (fun p _ ws h => hk (by rw [h]; rfl)) db).1
  zsets k hk := (bumpAll_off (fun p _ ws h => hk (by rw [h]; rfl)) db).2

theorem lease (score : Int) (member : String) (secs : Nat) :
    SameOff keyPrefix db ((db.zadd now (.conc keyPrefix) score member).expire now (.conc keyPrefix)
      secs) where
  ints k hk := by
    have hne : k ≠ .conc keyPrefix := fun h => hk (by rw [h]; rfl)
    rw [Redis.Db.expire_ints_of_ne hne, Redis.Db.zadd_ints]
  zsets k hk := by
    have hne : k ≠ .conc keyPrefix := fun h => hk (by rw [h]; rfl)
    rw [Redis.Db.expire_zsets_of_ne hne, Redis.Db.zadd_zsets_of_ne hne]

theorem charge (tokens grace : Nat) :
    SameOff keyPrefix db (chargeLua keyPrefix tokens grace now db) := by
  rcases Nat.eq_zero_or_pos tokens with rfl | hpos
  · exact refl
  · rw [chargeLua_eq _ hpos]
    refine (bumpAll tokens grace _).trans ⟨fun k hk => ?_, fun k _ => rfl⟩
    exact Redis.Db.incrBy_ints_of_ne fun h => hk (by rw [h]; rfl)

theorem acquire (cfg : RedisConfig) (key : String) (limits : Limits) (member : String) :
    SameOff (cfg.bucketPrefix key) db (RedisStore.acquire cfg ⟨now, 0⟩ key limits member db).2 := by
  rw [acquire_eq]
  generalize hp : (if (AcquireCall.of cfg key limits member).concMax ≥ 0 then
    (AcquireCall.of cfg key limits member).prune ⟨now, 0⟩ db else db) = pruned
  have hpruned : SameOff (cfg.bucketPrefix key) db pruned := by
    rw [← hp]
    split
    · exact prune cfg key limits member _
    · exact refl
  dsimp only
  split
  · exact hpruned
  · rw [take_eq, countRequests_eq _ _ _ (sane_requestDims limits)]
    have hcounted : SameOff (cfg.bucketPrefix key) db (RateLimit.bumpAll now _ 1 _ _ pruned) :=
      hpruned.trans (bumpAll 1 (toDouble cfg.grace)
        ((requestDims limits).map fun d => (d.name, d.windowSecs)))
    dsimp only
    split
    · exact hcounted.trans (lease _ _ _)
    · exact hcounted

theorem agrees {concTtl : Nat} {s : KeyState} {other : String} (h : SameOff keyPrefix db db')
    (hne : other ≠ keyPrefix) (ha : BucketAgrees concTtl now s other db) :
    BucketAgrees concTtl now s other db' where
  req d := (ha.req d).congr fun ws => h.ints (.counter other d.name ws) hne
  tok d := (ha.tok d).congr fun ws => h.ints (.counter other d.name ws) hne
  consumed t := by rw [Redis.Db.get_congr (h.ints (.consumed other) hne)]; exact ha.consumed t
  lasting cell hcell := ha.lasting cell (h.ints (.consumed other) hne ▸ hcell)
  leases z hz := ha.leases z (h.zsets (.conc other) hne ▸ hz)

end SameOff

end OtherBuckets

/-- A call on the limiter's store, or the passing of time. -/
inductive Op where
  | tick (secs : Nat)
  | acquire (key : String) (limits : Limits) (member : String)
  | commit (key : String) (tokens : Nat) (member : String)
  | release (key member : String)
  | addTokens (key : String) (tokens : Nat)

structure LocalNode where
  clock : Nat
  store : LocalStore

structure RedisNode where
  clock : Nat
  db : Db

def LocalNode.init (clock : Nat) : LocalNode := ⟨clock, .empty⟩

def RedisNode.init (clock : Nat) : RedisNode := ⟨clock, .empty⟩

/-- Only an `acquire` answers, with its refusal if any. -/
def LocalNode.step (n : LocalNode) : Op → Option (Option RateLimitError) × LocalNode
  | .tick secs => (none, { n with clock := n.clock + secs })
  | .acquire key limits member =>
    let (r, store) := n.store.acquire n.clock key limits member
    (some r, { n with store })
  | .commit key tokens member =>
    (none, { n with store := n.store.commit n.clock key tokens member })
  | .release key member => (none, { n with store := n.store.release n.clock key member })
  | .addTokens key tokens => (none, { n with store := n.store.addTokens n.clock key tokens })

def RedisNode.step (cfg : RedisConfig) (n : RedisNode) :
    Op → Option (Option RateLimitError) × RedisNode
  | .tick secs => (none, { n with clock := n.clock + secs })
  | .acquire key limits member =>
    let (r, db) := RedisStore.acquire cfg ⟨n.clock, 0⟩ key limits member n.db
    (some r, { n with db })
  | .commit key tokens member =>
    (none, { n with db := RedisStore.commit cfg ⟨n.clock, 0⟩ key tokens member n.db })
  | .release key member =>
    (none, { n with db := RedisStore.release cfg ⟨n.clock, 0⟩ key member n.db })
  | .addTokens key tokens =>
    (none, { n with db := RedisStore.addTokens cfg ⟨n.clock, 0⟩ key tokens n.db })

section Run

variable (cfg : RedisConfig)

/-- Every bucket of the two backends agrees at their common clock. -/
structure NodesAgree (l : LocalNode) (r : RedisNode) : Prop where
  clock : r.clock = l.clock
  bucket : ∀ key,
    BucketAgrees cfg.concTtl l.clock (l.store.stateFor l.clock key) (cfg.bucketPrefix key) r.db

/-- Counters stay exact, and an `acquire` with a concurrency limit finds a lease in Redis for every
member in flight locally. -/
structure Conforms (l : LocalNode) (r : RedisNode) (op : Op) : Prop where
  exact : Exact r.db
  exact_next : Exact (RedisNode.step cfg r op).2.db
  held : ∀ key limits member, op = .acquire key limits member → limits.concurrency.isSome →
    LeasesHeld cfg.concTtl l.clock (l.store.stateFor l.clock key) (cfg.bucketPrefix key) r.db

variable {cfg}

theorem nodesAgree_init (clock : Nat) : NodesAgree cfg (.init clock) (.init clock) where
  clock := rfl
  bucket key := by
    have hs : (LocalNode.init clock).store.stateFor (LocalNode.init clock).clock key =
        KeyState.new clock := rfl
    rw [hs]
    refine ⟨fun d => ?_, fun d => ?_, fun _ => rfl, ?_, ?_⟩
    · rw [KeyState.req_new]; exact .new _ _
    · rw [KeyState.tok_new]; exact .new _ _
    · intro cell h; simp [RedisNode.init, Redis.Db.empty] at h
    · intro z h; simp [RedisNode.init, Redis.Db.empty] at h

theorem NodesAgree.update {clock : Nat} {store store' : LocalStore} {db db' : Db} {key : String}
    (h : NodesAgree cfg ⟨clock, store⟩ ⟨clock, db⟩)
    (hstore : ∀ other, other ≠ key → store'.stateFor clock other = store.stateFor clock other)
    (hb : BucketAgrees cfg.concTtl clock (store'.stateFor clock key) (cfg.bucketPrefix key) db')
    (hoff : SameOff (cfg.bucketPrefix key) db db') :
    NodesAgree cfg ⟨clock, store'⟩ ⟨clock, db'⟩ where
  clock := rfl
  bucket other := by
    by_cases hk : other = key
    · subst hk; exact hb
    · have hne : cfg.bucketPrefix other ≠ cfg.bucketPrefix key := fun heq =>
        hk (cfg.bucketPrefix_injective heq)
      rw [hstore other hk]
      exact hoff.agrees hne (h.bucket other)

theorem BucketAgrees.stateFor {concTtl now t t' : Nat} {st : LocalStore} {key keyPrefix : String}
    {db : Db} (h : BucketAgrees concTtl now (st.stateFor t key) keyPrefix db) :
    BucketAgrees concTtl now (st.stateFor t' key) keyPrefix db := by
  cases hs : st.states key with
  | some s => simpa [LocalStore.stateFor, hs] using h
  | none =>
    simp only [LocalStore.stateFor, hs, Option.getD_none] at h ⊢
    refine h.settle (fun d => .inl ?_) (fun d => .inl ?_) rfl rfl
    · rw [KeyState.req_new, KeyState.req_new]
    · rw [KeyState.tok_new, KeyState.tok_new]

theorem step_agrees {l : LocalNode} {r : RedisNode} {op : Op} (h : NodesAgree cfg l r)
    (hc : Conforms cfg l r op) :
    (l.step op).1 = (r.step cfg op).1 ∧ NodesAgree cfg (l.step op).2 (r.step cfg op).2 := by
  obtain ⟨clock, store⟩ := l
  obtain ⟨clock', db⟩ := r
  obtain rfl : clock' = clock := h.clock
  have hexact := hc.exact
  have hnext := hc.exact_next
  cases op with
  | tick secs =>
    refine ⟨rfl, rfl, fun key => ?_⟩
    exact ((h.bucket key).mono (Nat.le_add_right ..)).stateFor
  | acquire key limits member =>
    obtain ⟨hverdict, hb⟩ := acquire_agrees cfg key limits member (h.bucket key) hexact
      (hc.held key limits member rfl)
    refine ⟨congrArg some hverdict, h.update (fun other hne => ?_) ?_
      (SameOff.acquire cfg key limits member)⟩
    · exact LocalStore.stateFor_setState_of_ne _ hne _ _
    · exact (LocalStore.stateFor_setState store key _ clock').symm ▸ hb
  | commit key tokens member =>
    have hcharge := chargeAny_agrees cfg key (h.bucket key) hexact hnext
    have hb :
        BucketAgrees cfg.concTtl clock'
        ((store.stateFor clock' key).commitBody clock' tokens member) (cfg.bucketPrefix key) _ :=
      hcharge.release member (fun d => by cases d <;> rfl) (fun d => by cases d <;> rfl) rfl rfl
    have hoff : SameOff (cfg.bucketPrefix key) db
        ((chargeLua (cfg.bucketPrefix key) (toDouble tokens) (toDouble cfg.grace) clock' db).zrem
          clock' (.conc (cfg.bucketPrefix key)) member) := (SameOff.charge _ _).trans (.zrem member)
    refine ⟨rfl, h.update (fun other hne => ?_) ?_ hoff⟩
    · exact LocalStore.stateFor_setState_of_ne _ hne _ _
    · exact (LocalStore.stateFor_setState store key _ clock').symm ▸ hb
  | release key member =>
    refine ⟨rfl, h.update (fun other hne => ?_) ?_ (SameOff.zrem member)⟩
    · cases hs : store.states key with
      | none => simp [LocalStore.release, hs]
      | some s => simp [LocalStore.release, hs, LocalStore.stateFor_setState_of_ne _ hne]
    · have hb := h.bucket key
      cases hs : store.states key with
      | none =>
        have hrel : store.release clock' key member = store := by simp [LocalStore.release, hs]
        have hempty : (store.stateFor clock' key).inFlight = ∅ := by
          simp [LocalStore.stateFor, hs]; rfl
        rw [hrel]
        exact hb.release member (fun _ => rfl) (fun _ => rfl) rfl (by rw [hempty]; rfl)
      | some s =>
        have hrel : (store.release clock' key member).stateFor clock' key =
            s.releaseBody clock' member := by simp [LocalStore.release, hs]
        have hold : store.stateFor clock' key = s := by simp [LocalStore.stateFor, hs]
        rw [hrel]
        exact (hold ▸ hb).release member (fun d => by cases d <;> rfl) (fun d => by cases d <;> rfl)
          rfl rfl
  | addTokens key tokens =>
    rcases Nat.eq_zero_or_pos tokens with rfl | hpos
    · exact ⟨rfl, h⟩
    have hne : tokens ≠ 0 := by omega
    simp only [LocalNode.step, RedisNode.step, LocalStore.addTokens, RedisStore.addTokens,
      if_neg hne] at hnext ⊢
    have hcharge := chargeAny_agrees cfg key (h.bucket key) hexact hnext
    refine ⟨trivial, h.update (fun other hne => ?_) ?_ (SameOff.charge _ _)⟩
    · exact LocalStore.stateFor_setState_of_ne _ hne _ _
    · rw [LocalStore.stateFor_setState]
      exact hcharge.settle (fun d => .inl (by cases d <;> rfl)) (fun d => .inl (by cases d <;> rfl))
        rfl rfl

/-- The two backends give the same verdicts in every run whose steps conform. -/
theorem verdicts_eq {clock : Nat} {ops : List Op}
    (h : Lts.MeetsOut LocalNode.step (RedisNode.step cfg) (Conforms cfg) (.init clock) (.init clock)
      ops) :
    (Lts.runOut LocalNode.step (.init clock) ops).1 =
      (Lts.runOut (RedisNode.step cfg) (.init clock) ops).1 :=
  Lts.runOut_eq_of_sim (f := LocalNode.step) (g := RedisNode.step cfg) (R := NodesAgree cfg)
    (fun _ _ _ hR hc => step_agrees hR hc) (nodesAgree_init clock) h

end Run

def oneSlot : Limits := { concurrency := some 1 }

/-- The first call carries no concurrency limit, the second one does. -/
def mixed : List Op := [.acquire "k" {} "a", .acquire "k" oneSlot "b"]

theorem verdicts_differ :
    (Lts.runOut LocalNode.step (.init 0) mixed).1 ≠
      (Lts.runOut (RedisNode.step defaultConfig) (.init 0) mixed).1 := by
  decide

theorem Exact.expire (db : Db) (h : Exact db) (now : Nat) (k : RedisKey) (secs : Nat) :
    Exact (db.expire now k secs) := by
  intro k' cell hcell
  by_cases hk : k' = k
  · subst hk
    simp only [Redis.Db.expire, Function.update_self, Option.map_eq_some_iff,
      Option.filter_eq_some_iff] at hcell
    obtain ⟨c, ⟨hc, -⟩, rfl⟩ := hcell
    exact h k' c hc
  · exact h k' cell (by rwa [Redis.Db.expire_ints_of_ne hk] at hcell)

theorem Exact.acquire {db : Db} (h : Exact db) (cfg : RedisConfig) (now : Nat) (key : String)
    {limits : Limits} (member : String) (hnone : requestDims limits = []) :
    Exact (RedisStore.acquire cfg ⟨now, 0⟩ key limits member db).2 := by
  rw [acquire_eq]
  generalize hp : (if (AcquireCall.of cfg key limits member).concMax ≥ 0 then
    (AcquireCall.of cfg key limits member).prune ⟨now, 0⟩ db else db) = pruned
  have hpruned : Exact pruned := by rw [← hp]; split <;> exact h
  dsimp only
  split
  · exact hpruned
  · rw [take_eq, hnone]
    dsimp only [List.map_nil, countRequests]
    split
    · exact Exact.expire (pruned.zadd now _ _ _) hpruned _ _ _
    · exact hpruned

/-- Both calls carry the concurrency limit. -/
def uniform : List Op := [.acquire "k" oneSlot "a", .acquire "k" oneSlot "b"]

theorem verdicts_eq_uniform :
    (Lts.runOut LocalNode.step (.init 0) uniform).1 =
      (Lts.runOut (RedisNode.step defaultConfig) (.init 0) uniform).1 := by
  have hexact₀ : Exact (RedisNode.init 0).db := fun k cell h => by cases h
  have hexact₁ := hexact₀.acquire defaultConfig 0 "k" "a" (by decide : requestDims oneSlot = [])
  have hexact₂ := hexact₁.acquire defaultConfig 0 "k" "b" (by decide : requestDims oneSlot = [])
  refine verdicts_eq ⟨⟨hexact₀, hexact₁, ?_⟩, ⟨hexact₁, hexact₂, ?_⟩, trivial⟩
  · rintro _ _ _ ⟨⟩ -
    exact ⟨by decide, fun z hz => (nomatch hz), by decide, by decide⟩
  · rintro _ _ _ ⟨⟩ -
    have hfresh : ∀ z ∈ (RedisStore.acquire defaultConfig ⟨0, 0⟩ "k" oneSlot "a" .empty).2.zsets
        (.conc (defaultConfig.bucketPrefix "k")), ∀ m ∈ z.val.members,
        (0 : Int) ≤ z.val.score m + 300 * 1000000 := by decide
    exact ⟨by decide, hfresh, by decide, by decide⟩

end RateLimit
end Aisix
