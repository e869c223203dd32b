import Aisix.RateLimit.ScriptSpec

/-!
# Aisix.RateLimit.Agreement

When one bucket of the local store and the keys of the same bucket in Redis describe the same
history. Every counter shows the same value to every later reader (`CounterAgrees`), the cumulative
spend is the same, and every lease in Redis belongs to a member in flight locally (`LeasesAgree`);
the converse fails, since a call without a concurrency limit takes no lease.
-/

namespace Aisix
namespace RateLimit

/-- The window counter `c` and the Redis counters of its name agree, for readers from `now` on. -/
structure CounterAgrees {w : Nat} (now : Nat) (c : FixedWindowCounter w) (keyPrefix name : String)
    (db : Db) : Prop where
  started : c.windowStart ≤ now
  counts : ∀ t, now ≤ t → db.get t (.counter keyPrefix name (bucketStart w t)) = c.countAt t
  outlives :
    ∀ (ws : Nat) (cell : Redis.Cell Int), db.ints (.counter keyPrefix name ws) = some cell →
    ∃ t, cell.deadline = some t ∧ ws + w ≤ t

namespace CounterAgrees

variable {w now : Nat} {c : FixedWindowCounter w} {keyPrefix name : String} {db db' : Db}

theorem mono (h : CounterAgrees now c keyPrefix name db) {now' : Nat} (hle : now ≤ now') :
    CounterAgrees now' c keyPrefix name db where
  started := h.started.trans hle
  counts t ht := h.counts t (hle.trans ht)
  outlives := h.outlives

theorem congr (h : CounterAgrees now c keyPrefix name db)
    (hdb : ∀ ws, db'.ints (.counter keyPrefix name ws) = db.ints (.counter keyPrefix name ws)) :
    CounterAgrees now c keyPrefix name db' where
  started := h.started
  counts t ht := by rw [Redis.Db.get_congr (hdb _)]; exact h.counts t ht
  outlives ws cell hcell := h.outlives ws cell (by rwa [← hdb])

theorem roll (h : CounterAgrees now c keyPrefix name db) :
    CounterAgrees now (c.rollIfStale now) keyPrefix name db where
  started := by simpa using bucketStart_le w now
  counts t ht := by
    rw [FixedWindowCounter.countAt_rollIfStale h.started ht]; exact h.counts t ht
  outlives := h.outlives

theorem of_eq_or_roll (h : CounterAgrees now c keyPrefix name db) {c' : FixedWindowCounter w}
    (hc : c' = c ∨ c' = c.rollIfStale now) : CounterAgrees now c' keyPrefix name db := by
  rcases hc with rfl | rfl
  · exact h
  · exact h.roll

theorem bump (h : CounterAgrees now c keyPrefix name db) (hw : 0 < w) {n grace : Nat}
    (hsat : c.countAt now + n ≤ u64Max) :
    CounterAgrees now (c.add now n) keyPrefix name
      (incrExpire now (.counter keyPrefix name (bucketStart w now)) n (w + grace) db) := by
  have hnow : now < bucketStart w now + w := by
    have := Nat.mod_lt now hw
    have := sub_bucketStart w now
    omega
  have hle : bucketStart w now + w ≤ now + (w + grace) := by
    have := bucketStart_le w now
    omega
  obtain ⟨D, hD, hcell⟩ : ∃ D, _ ∧ (incrExpire now (.counter keyPrefix name (bucketStart w now)) n
      (w + grace) db).ints (.counter keyPrefix name (bucketStart w now)) = some ⟨_, some D⟩ :=
    incrExpire_self (h.outlives (bucketStart w now)) hle
  have hother : ∀ ws : Nat, ws ≠ bucketStart w now →
      (incrExpire now (.counter keyPrefix name (bucketStart w now)) n (w + grace) db).ints
        (.counter keyPrefix name ws) = db.ints (.counter keyPrefix name ws) := fun ws hws =>
    incrExpire_ints_of_ne (by simpa using fun h => hws (Int.ofNat_inj.1 h))
  constructor
  · simpa using bucketStart_le w now
  · intro t ht
    rw [FixedWindowCounter.countAt_add]
    by_cases hws : bucketStart w t = bucketStart w now
    · rw [if_pos hws, hws, satAdd_of_lt hsat]
      have htlt : t < D := by
        have := Nat.mod_lt t hw
        have := sub_bucketStart w t
        omega
      rw [Redis.Db.get_of_live hcell (Redis.Cell.live_of_lt fun t' ht' => ?_), h.counts now le_rfl]
      · rfl
      · rw [← Option.some.inj ht']; exact htlt
    · -- a later window, which neither side has counted in
      rw [if_neg hws, Redis.Db.get_congr (hother _ hws), h.counts t ht,
        FixedWindowCounter.countAt_eq, if_neg ?_]
      intro hstart
      exact hws (bucketStart_eq_of_between (hstart ▸ h.started) ht).symm
  · intro ws cell hws
    by_cases heq : ws = bucketStart w now
    · subst heq
      rw [hcell] at hws
      exact ⟨D, by rw [← Option.some.inj hws], hD⟩
    · exact h.outlives ws cell (by rwa [hother ws heq] at hws)

theorem new (keyPrefix name : String) :
    CounterAgrees now (.new w) keyPrefix name Redis.Db.empty where
  started := Nat.zero_le _
  counts t _ := by rw [FixedWindowCounter.countAt_new]; rfl
  outlives _ _ h := by simp [Redis.Db.empty] at h

theorem bumpAll_of_notMem (h : CounterAgrees now c keyPrefix name db) {n grace : Nat}
    {l : List (String × Nat)} (hname : name ∉ l.map Prod.fst) :
    CounterAgrees now c keyPrefix name (bumpAll now keyPrefix n grace l db) := by
  refine h.congr fun ws => (bumpAll_off (fun p hp ws' heq => hname ?_) db).1
  obtain ⟨-, hn, -⟩ := RedisKey.counter.inj heq
  exact hn ▸ List.mem_map_of_mem hp

theorem bumpAll_of_mem (h : CounterAgrees now c keyPrefix name db) (hw : 0 < w) {n grace : Nat}
    (hsat : c.countAt now + n ≤ u64Max) {l : List (String × Nat)} (hnd : (l.map Prod.fst).Nodup)
    (hmem : (name, w) ∈ l) :
    CounterAgrees now (c.add now n) keyPrefix name (bumpAll now keyPrefix n grace l db) := by
  induction l generalizing db with
  | nil => simp at hmem
  | cons p l ih =>
    obtain ⟨hp, hnd⟩ := List.nodup_cons.1 hnd
    rcases List.mem_cons.1 hmem with rfl | hmem
    · exact (h.bump hw hsat).bumpAll_of_notMem hp
    · have hne : name ≠ p.1 := fun heq => hp (heq ▸ List.mem_map_of_mem hmem)
      refine ih (h.congr fun ws => incrExpire_ints_of_ne fun heq => hne ?_) hnd hmem
      exact (RedisKey.counter.inj heq).2.1

end CounterAgrees

/-- Every lease in Redis belongs to a member in flight, and the sorted set outlives its leases. -/
structure LeasesAgree (now concTtl : Nat) (inFlight : Finset String)
    (leases : Redis.Cell (Redis.ZSet String Int)) : Prop where
  subset : leases.val.members ⊆ inFlight
  score : ∀ m ∈ leases.val.members,
    0 ≤ leases.val.score m ∧ leases.val.score m ≤ now * 1000000
  outlives : ∀ m ∈ leases.val.members, ∀ t, leases.deadline = some t →
    leases.val.score m + (min (concTtl + 1) (2 ^ 53) : Nat) * 1000000 ≤ t * 1000000

/-- One bucket of the local store and the Redis keys under `keyPrefix` agree at `now`. -/
structure BucketAgrees (concTtl now : Nat) (s : KeyState) (keyPrefix : String) (db : Db) :
    Prop where
  req : ∀ d, CounterAgrees now (s.req d) keyPrefix d.name db
  tok : ∀ d, CounterAgrees now (s.tok d) keyPrefix d.name db
  consumed : ∀ t, db.get t (.consumed keyPrefix) = s.consumedMicroUsd
  lasting : ∀ cell, db.ints (.consumed keyPrefix) = some cell → cell.deadline = none
  leases : ∀ z, db.zsets (.conc keyPrefix) = some z → LeasesAgree now concTtl s.inFlight z

/-- Every stored counter is exact in a double. -/
def Exact (db : Db) : Prop := ∀ k cell, db.ints k = some cell → cell.val < 2 ^ 53

theorem Exact.get_lt {db : Db} (h : Exact db) (now : Nat) (k : RedisKey) :
    db.get now k < 2 ^ 53 := by
  by_cases hz : db.get now k = 0
  · rw [hz]; decide
  · obtain ⟨c, hc, -, hval⟩ := Redis.Db.live_of_get_ne_zero hz
    exact hval ▸ h k c hc

/-- The condition on an `acquire` with a concurrency limit: every member in flight locally holds a
lease in Redis, no lease is older than its lifetime, and neither the truncation of the local count
nor the range of old millisecond scores comes into play. -/
structure LeasesHeld (concTtl now : Nat) (s : KeyState) (keyPrefix : String) (db : Db) : Prop where
  held : s.inFlight ⊆ db.members (.conc keyPrefix)
  fresh : ∀ z, db.zsets (.conc keyPrefix) = some z → ∀ m ∈ z.val.members,
    (now * 1000000 : Int) ≤ z.val.score m + concTtl * 1000000
  few : s.inFlight.card < 2 ^ 32
  clock : now < 100000000000

section Prune

variable {concTtl now : Nat} {s : KeyState} {keyPrefix : String} {db : Db}

theorem LeasesAgree.zkeep {p : String → Int → Bool} {z : Redis.Cell (Redis.ZSet String Int)}
    (h : ∀ z, db.zsets (.conc keyPrefix) = some z → LeasesAgree now concTtl s.inFlight z)
    (hz : (db.zkeep now (.conc keyPrefix) p).zsets (.conc keyPrefix) = some z) :
    LeasesAgree now concTtl s.inFlight z := by
  obtain ⟨z₀, hz₀, -, hdl, hscore, hmem⟩ := Redis.Db.zkeep_zsets_self hz
  have h₀ := h z₀ hz₀
  have hsub : ∀ m ∈ z.val.members, m ∈ z₀.val.members := fun m hm => by
    rw [hmem] at hm; exact (Finset.mem_filter.1 hm).1
  exact ⟨fun m hm => h₀.subset (hsub m hm), fun m hm => hscore ▸ h₀.score m (hsub m hm),
    fun m hm => hscore ▸ hdl ▸ h₀.outlives m (hsub m hm)⟩

theorem BucketAgrees.zkeep (h : BucketAgrees concTtl now s keyPrefix db) (p : String → Int → Bool) :
    BucketAgrees concTtl now s keyPrefix (db.zkeep now (.conc keyPrefix) p) where
  req d := (h.req d).congr fun _ => rfl
  tok d := (h.tok d).congr fun _ => rfl
  consumed := h.consumed
  lasting := h.lasting
  leases _ hz := LeasesAgree.zkeep h.leases hz

theorem BucketAgrees.prune (cfg : RedisConfig) (key : String) (limits : Limits) (member : String)
    (h : BucketAgrees concTtl now s (cfg.bucketPrefix key) db) :
    BucketAgrees concTtl now s (cfg.bucketPrefix key)
      ((AcquireCall.of cfg key limits member).prune ⟨now, 0⟩ db) := by
  simp only [AcquireCall.prune, AcquireCall.of, Redis.Db.zremRangeByScore]
  exact (h.zkeep _).zkeep _

theorem LeasesHeld.live (hl : LeasesHeld concTtl now s keyPrefix db)
    (h : BucketAgrees concTtl now s keyPrefix db) {z : Redis.Cell (Redis.ZSet String Int)}
    (hz : db.zsets (.conc keyPrefix) = some z) (hne : z.val.members.Nonempty) :
    z.live now = true := by
  obtain ⟨m, hm⟩ := hne
  refine Redis.Cell.live_of_lt fun t ht => ?_
  have hfresh := hl.fresh z hz m hm
  have hscore := ((h.leases z hz).score m hm).1
  have hout := (h.leases z hz).outlives m hm t ht
  have hclock := hl.clock
  omega

theorem prune_zcard (cfg : RedisConfig) (key : String) (limits : Limits) (member : String)
    (h : BucketAgrees cfg.concTtl now s (cfg.bucketPrefix key) db)
    (hl : LeasesHeld cfg.concTtl now s (cfg.bucketPrefix key) db) :
    ((AcquireCall.of cfg key limits member).prune ⟨now, 0⟩ db).zcard now
      (.conc (cfg.bucketPrefix key)) = s.inFlight.card := by
  have hmembers : db.members (.conc (cfg.bucketPrefix key)) = s.inFlight := by
    refine Finset.Subset.antisymm ?_ hl.held
    cases hz : db.zsets (.conc (cfg.bucketPrefix key)) with
    | none => simp [Redis.Db.members, hz]
    | some z => simpa [Redis.Db.members, hz] using (h.leases z hz).subset
  have hclock := hl.clock
  simp only [AcquireCall.prune, AcquireCall.of, Redis.Db.zremRangeByScore]
  rw [← hmembers, ← Redis.Db.zcard_eq_card fun z hz hne => hl.live h hz hne, Redis.Db.zcard_zkeep,
    Redis.Db.zcard_zkeep]
  · -- no lease is past its lifetime
    intro z hz m hm
    have hscore := ((h.leases z hz).score m hm).1
    have hfresh := hl.fresh z hz m hm
    have hin : ¬ z.val.score m <
        (((now : Int) * 1000000 + (0 : Nat)) / 1000000 - toDouble cfg.concTtl) * 1000000 := by
      rcases Nat.lt_or_ge cfg.concTtl (2 ^ 53) with hlt | hge
      · rw [toDouble_of_lt hlt]; omega
      · have := le_toDouble hge
        omega
    simp only [Redis.Bound.admits, Bool.not_eq_true', Bool.and_eq_false_iff,
      decide_eq_false_iff_not]
    exact .inr hin
  · -- no score is as large as a time in milliseconds
    intro z hz m hm
    have hscore := (((h.zkeep _).leases z hz).score m hm).2
    have hsmall : ¬ (100000000000 * 1000000 : Int) ≤ z.val.score m := by omega
    simp only [Bool.not_eq_true', Bool.and_eq_false_iff, decide_eq_false_iff_not]
    exact .inl hsmall

end Prune

section Verdict

variable {concTtl now : Nat} {s : KeyState} {keyPrefix : String} {db : Db} {limits : Limits}

theorem findSome?_filterMap {α β γ : Type*} (f : α → Option β) (g : β → Option γ) (l : List α) :
    (l.filterMap f).findSome? g = l.findSome? fun a => (f a).bind g := by
  induction l with
  | nil => rfl
  | cons a l ih =>
    cases h : f a with
    | none => simp [h, ih]
    | some b => simp [h, ih, List.findSome?_cons]

theorem dimRefusal_eq {w : Nat} {c : FixedWindowCounter w} {name : String}
    (h : CounterAgrees now c keyPrefix name db) (hexact : Exact db) (limit : Nat) :
    dimRefusal now keyPrefix db ⟨name, w, limit⟩ =
      if limit ≤ c.countAt now then
        some (LimitDetail.window name limit (c.countAt now) (w - now % w))
      else none := by
  have hlt := hexact.get_lt now (.counter keyPrefix name (bucketStart w now))
  simp only [dimRefusal]
  rw [h.counts now le_rfl] at hlt ⊢
  by_cases hc : limit ≤ c.countAt now
  · have hc' : (limit : Int) ≤ c.countAt now := by omega
    rw [if_pos ((toDouble_le_iff hlt).2 hc'), if_pos hc, toDouble_eq_of_le hlt hc',
      Int.toNat_natCast]
  · rw [if_neg fun h => hc (by have := (toDouble_le_iff hlt).1 h; omega), if_neg hc]

theorem tokenDims_refusal (h : BucketAgrees concTtl now s keyPrefix db) (hexact : Exact db) :
    ((tokenDims limits).findSome? (dimRefusal now keyPrefix db)).map (.tokens .tokens) =
      TokDim.chain.findSome? (s.tokenRefusal now limits) := by
  rw [tokenDims, findSome?_filterMap, List.map_findSome?]
  refine KeyState.findSome?_congr fun d _ => ?_
  cases hl : limits.tok d with
  | none => simp [KeyState.tokenRefusal, hl]
  | some limit =>
    simp only [Function.comp, Option.map_some, Option.bind_some, KeyState.tokenRefusal, hl,
      dimRefusal_eq (h.tok d) hexact]
    split <;> rfl

theorem countAt_lt (h : BucketAgrees concTtl now s keyPrefix db) (hexact : Exact db) (d : ReqDim) :
    (s.req d).countAt now < 2 ^ 53 := by
  have hlt := hexact.get_lt now (.counter keyPrefix d.name (bucketStart d.windowSecs now))
  rw [(h.req d).counts now le_rfl] at hlt
  omega

theorem requestDims_refusal (h : BucketAgrees concTtl now s keyPrefix db) (hexact : Exact db) :
    ((requestDims limits).findSome? (dimRefusal now keyPrefix db)).map (.requests .requests) =
      ReqDim.chain.findSome? (s.requestRefusal now limits) := by
  rw [requestDims, findSome?_filterMap, List.map_findSome?]
  refine KeyState.findSome?_congr fun d _ => ?_
  cases hl : limits.req d with
  | none => simp [KeyState.requestRefusal, hl]
  | some limit =>
    have hlt := countAt_lt h hexact d
    have hiff : limit < satAdd ((s.req d).countAt now) 1 ↔ limit ≤ (s.req d).countAt now := by
      rw [satAdd_of_lt (by simp only [u64Max]; omega)]; omega
    simp only [Function.comp, Option.map_some, Option.bind_some, KeyState.requestRefusal, hl,
      dimRefusal_eq (h.req d) hexact, hiff]
    split <;> rfl

theorem redisRefusal_eq (h : BucketAgrees concTtl now s keyPrefix db) (hexact : Exact db)
    (hcard : limits.concurrency.isSome → db.zcard now (.conc keyPrefix) = s.inFlight.card ∧
      s.inFlight.card < 2 ^ 32) :
    redisRefusal now keyPrefix db limits = s.refusal now limits := by
  have hconc : (limits.maxConcurrency.bind fun max =>
      if max ≤ db.zcard now (.conc keyPrefix) then
        some (.concurrency (LimitDetail.concurrency max (db.zcard now (.conc keyPrefix))))
      else none) = KeyState.concurrencyGate limits s := by
    cases hmax : limits.concurrency with
    | none => simp [KeyState.concurrencyGate, Limits.maxConcurrency, hmax]
    | some max =>
      obtain ⟨hz, hlt⟩ := hcard (by rw [hmax]; rfl)
      have hmod : s.inFlight.card % 2 ^ 32 = s.inFlight.card := Nat.mod_eq_of_lt hlt
      simp only [KeyState.concurrencyGate, Limits.maxConcurrency, hmax, Option.map_some,
        Option.bind_some, hz, hmod, ge_iff_le]
  have hall : (limits.granted.bind fun granted =>
      if (toDouble granted : Int) ≤ db.get now (.consumed keyPrefix) then
        some RateLimitError.allowanceExhausted else none) = KeyState.allowanceGate limits s := by
    cases hg : limits.granted with
    | none => simp [KeyState.allowanceGate, hg]
    | some granted =>
      have hlt := hexact.get_lt now (.consumed keyPrefix)
      simp only [KeyState.allowanceGate, hg, Option.bind_some, toDouble_le_iff hlt]
      rw [h.consumed now]
      simp
  unfold redisRefusal KeyState.refusal
  rw [tokenDims_refusal h hexact, requestDims_refusal h hexact, ← hconc, ← hall]

end Verdict

section Effects

variable {concTtl now : Nat} {s s' : KeyState} {keyPrefix : String} {db db' : Db} {limits : Limits}

theorem LeasesAgree.mono {inFlight inFlight' : Finset String}
    {z : Redis.Cell (Redis.ZSet String Int)} (h : LeasesAgree now concTtl inFlight z)
    (hsub : inFlight ⊆ inFlight') : LeasesAgree now concTtl inFlight' z :=
  ⟨h.subset.trans hsub, h.score, h.outlives⟩

theorem BucketAgrees.mono (h : BucketAgrees concTtl now s keyPrefix db) {now' : Nat}
    (hle : now ≤ now') : BucketAgrees concTtl now' s keyPrefix db where
  req d := (h.req d).mono hle
  tok d := (h.tok d).mono hle
  consumed := h.consumed
  lasting := h.lasting
  leases z hz := by
    have hz := h.leases z hz
    refine ⟨hz.subset, fun m hm => ⟨(hz.score m hm).1, ?_⟩, hz.outlives⟩
    have := (hz.score m hm).2
    omega

theorem BucketAgrees.settle (h : BucketAgrees concTtl now s keyPrefix db)
    (hreq : ∀ d, s'.req d = s.req d ∨ s'.req d = (s.req d).rollIfStale now)
    (htok : ∀ d, s'.tok d = s.tok d ∨ s'.tok d = (s.tok d).rollIfStale now)
    (hconsumed : s'.consumedMicroUsd = s.consumedMicroUsd) (hinFlight : s'.inFlight = s.inFlight) :
    BucketAgrees concTtl now s' keyPrefix db where
  req d := (h.req d).of_eq_or_roll (hreq d)
  tok d := (h.tok d).of_eq_or_roll (htok d)
  consumed t := by rw [hconsumed]; exact h.consumed t
  lasting := h.lasting
  leases z hz := hinFlight ▸ h.leases z hz

theorem BucketAgrees.lease (h : BucketAgrees concTtl now s keyPrefix db)
    (hints : ∀ k, k ≠ .conc keyPrefix → db'.ints k = db.ints k) (hreq : ∀ d, s'.req d = s.req d)
    (htok : ∀ d, s'.tok d = s.tok d) (hconsumed : s'.consumedMicroUsd = s.consumedMicroUsd)
    (hleases : ∀ z, db'.zsets (.conc keyPrefix) = some z → LeasesAgree now concTtl s'.inFlight z) :
    BucketAgrees concTtl now s' keyPrefix db' where
  req d := by rw [hreq]; exact (h.req d).congr fun ws => hints _ (by simp)
  tok d := by rw [htok]; exact (h.tok d).congr fun ws => hints _ (by simp)
  consumed t := by
    rw [hconsumed, Redis.Db.get_congr (hints _ (by simp))]; exact h.consumed t
  lasting cell hcell := h.lasting cell (by rwa [hints _ (by simp)] at hcell)
  leases := hleases

theorem BucketAgrees.spend {n : Nat} (h : BucketAgrees concTtl now s keyPrefix db)
    (hreq : ∀ d, s'.req d = s.req d) (htok : ∀ d, s'.tok d = s.tok d)
    (hconsumed : s'.consumedMicroUsd = s.consumedMicroUsd + n)
    (hinFlight : s'.inFlight = s.inFlight) :
    BucketAgrees concTtl now s' keyPrefix (db.incrBy now (.consumed keyPrefix) n).2 := by
  have hother : ∀ k, k ≠ .consumed keyPrefix →
      (db.incrBy now (.consumed keyPrefix) n).2.ints k = db.ints k := fun k hk =>
    Redis.Db.incrBy_ints_of_ne hk
  have hcell : (db.incrBy now (.consumed keyPrefix) n).2.ints (.consumed keyPrefix) =
      some ⟨db.get now (.consumed keyPrefix) + n, none⟩ := by
    rw [Redis.Db.incrBy_ints_self, Option.some.injEq, Redis.Cell.mk.injEq]
    refine ⟨rfl, ?_⟩
    cases hc : (db.ints (.consumed keyPrefix)).filter (·.live now) with
    | none => rfl
    | some cell => exact h.lasting cell (Option.filter_eq_some_iff.1 hc).1
  constructor
  · intro d; rw [hreq]; exact (h.req d).congr fun ws => hother _ (by simp)
  · intro d; rw [htok]; exact (h.tok d).congr fun ws => hother _ (by simp)
  · intro t
    rw [Redis.Db.get_of_live hcell rfl, h.consumed now, hconsumed]
    rfl
  · intro cell hc
    rw [hcell] at hc
    rw [← Option.some.inj hc]
  · intro z hz
    exact hinFlight ▸ h.leases z hz

theorem LeasesAgree.zrem {member : String}
    (h : ∀ z, db.zsets (.conc keyPrefix) = some z → LeasesAgree now concTtl s.inFlight z)
    {z : Redis.Cell (Redis.ZSet String Int)}
    (hz : (db.zrem now (.conc keyPrefix) member).zsets (.conc keyPrefix) = some z) :
    LeasesAgree now concTtl (s.inFlight.erase member) z := by
  have hkept := LeasesAgree.zkeep h hz
  obtain ⟨z₀, -, -, -, -, hmem⟩ := Redis.Db.zkeep_zsets_self hz
  refine ⟨fun m hm => Finset.mem_erase.2 ⟨?_, hkept.subset hm⟩, hkept.score, hkept.outlives⟩
  rw [hmem] at hm
  simpa using (Finset.mem_filter.1 hm).2

theorem BucketAgrees.release (h : BucketAgrees concTtl now s keyPrefix db) (member : String)
    (hreq : ∀ d, s'.req d = s.req d) (htok : ∀ d, s'.tok d = s.tok d)
    (hconsumed : s'.consumedMicroUsd = s.consumedMicroUsd)
    (hinFlight : s'.inFlight = s.inFlight.erase member) :
    BucketAgrees concTtl now s' keyPrefix (db.zrem now (.conc keyPrefix) member) :=
  h.lease (fun _ _ => rfl) hreq htok hconsumed fun _ hz => hinFlight ▸ LeasesAgree.zrem h.leases hz

theorem LeasesAgree.zadd {member : String} {secs : Nat} {score : Int} (hnow : score = now * 1000000)
    (hsecs : min (concTtl + 1) (2 ^ 53) ≤ secs)
    (h : ∀ z, db.zsets (.conc keyPrefix) = some z → LeasesAgree now concTtl s.inFlight z)
    {z : Redis.Cell (Redis.ZSet String Int)}
    (hz : ((db.zadd now (.conc keyPrefix) score member).expire now
      (.conc keyPrefix) secs).zsets (.conc keyPrefix) = some z) :
    LeasesAgree now concTtl (insert member s.inFlight) z := by
  obtain ⟨c, hc, hlive, hmem, hscore, hothers⟩ :=
    Redis.Db.zadd_zsets_self now (.conc keyPrefix) score member db
  rw [Redis.Db.expire_zsets_self hc hlive] at hz
  obtain rfl := Option.some.inj hz
  have hbound : ∀ m ∈ c.val.members, 0 ≤ c.val.score m ∧ c.val.score m ≤ now * 1000000 := by
    intro m hm
    by_cases hne : m = member
    · subst hne; rw [hscore, hnow]; omega
    · obtain ⟨z₀, hz₀, hm₀, heq⟩ := hothers m hm hne
      rw [heq]; exact (h z₀ hz₀).score m hm₀
  refine ⟨fun m hm => ?_, hbound, fun m hm t ht => ?_⟩
  · by_cases hne : m = member
    · subst hne; exact Finset.mem_insert_self ..
    · obtain ⟨z₀, hz₀, hm₀, -⟩ := hothers m hm hne
      exact Finset.mem_insert_of_mem ((h z₀ hz₀).subset hm₀)
  · have := (hbound m hm).2
    rw [← Option.some.inj ht]
    change c.val.score m + _ ≤ _
    omega

end Effects

end RateLimit
end Aisix
