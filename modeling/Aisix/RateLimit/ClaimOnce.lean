import Aisix.Lts
import Aisix.RateLimit.LocalStore
import Aisix.RateLimit.Scripts

/-!
# Aisix.RateLimit.ClaimOnce

One-shot claims of the shared backend in one process. A call asks Redis (`SET … NX EX`); when Redis
cannot be reached, or its reply is lost after the marker was set, the process-local store answers
instead. Each store refuses while it holds a live marker, but neither looks at the other's.

* `Inv.step` — a grant is remembered in the store that gave it for as long as the ttl runs.
* `granted_once` — while the two stores do not disagree (`Agree`), no span shorter than the ttl sees
  two grants.
* `granted_twice` — an outage that ends between two calls grants both.
-/

namespace Aisix
namespace RateLimit
namespace ClaimOnce

/-- What becomes of the `SET` of one call. -/
inductive Outcome where
  | answered
  | unreachable
  | replyLost
  deriving DecidableEq

structure State where
  clock : Nat
  store : LocalStore
  db : Db
  /-- Whether a caller was told that it got the marker Redis holds. -/
  told : Bool
  /-- When the calls on the key returned `true`, the latest first. -/
  granted : List Nat

inductive Act where
  | tick (secs : Nat)
  | claim (key : String) (ttl : Nat) (outcome : Outcome)

def State.init (clock : Nat) : State := ⟨clock, .empty, .empty, false, []⟩

/-- The Redis key of a claim. -/
def marker (cfg : RedisConfig) (key : String) : RedisKey :=
  .marker (cfg.bucketPrefix ("claim:" ++ key))

/-- `RedisStore::claim_once`: the answer, and the two stores it leaves behind. -/
def claimOnce (cfg : RedisConfig) (now : Nat) (key : String) (ttl : Nat) (outcome : Outcome)
    (store : LocalStore) (db : Db) : Bool × LocalStore × Db :=
  match outcome with
  | .answered =>
    let (set, db) := db.setNx now (marker cfg key) (max ttl 1)
    (set, store, db)
  | .unreachable =>
    let (got, store) := store.claimOnce now key ttl
    (got, store, db)
  | .replyLost =>
    let (_, db) := db.setNx now (marker cfg key) (max ttl 1)
    let (got, store) := store.claimOnce now key ttl
    (got, store, db)

section Key

variable (cfg : RedisConfig) (key : String) (ttl : Nat)

/-- Whether Redis holds a live marker for the key. -/
def State.redisLive (st : State) : Bool :=
  ((st.db.ints (marker cfg key)).filter (·.live st.clock)).isSome

/-- Whether the local store holds a live marker for the key. -/
def State.localLive (st : State) : Bool := (st.store.liveClaims st.clock key).isSome

/-- One step; every claim on `key` has the ttl `ttl`. The clock is the system's, in seconds since
the epoch, and stays far below `u64::MAX`. -/
def step (st : State) : Act → Option State
  | .tick secs =>
    if st.clock + secs < 2 ^ 63 then some { st with clock := st.clock + secs } else none
  | .claim k ttl' outcome =>
    if k = key → ttl' = ttl then
      let (got, store, db) := claimOnce cfg st.clock k ttl' outcome st.store st.db
      let fresh := k = key ∧ st.redisLive cfg key = false
      some { st with
        store
        db
        told :=
          match outcome with
          | .answered => if fresh then true else st.told
          | .unreachable => st.told
          | .replyLost => if fresh then false else st.told
        granted := if k = key ∧ got = true then st.clock :: st.granted else st.granted }
    else none

/-- A store that holds no live marker of its own answers only when the other one holds none that a
caller was told it got. -/
def Agree (st : State) : Act → Prop
  | .tick _ => True
  | .claim k _ outcome => k = key →
    match outcome with
    | .answered => st.redisLive cfg key = false → st.localLive key = false
    | _ => st.localLive key = false → (st.told && st.redisLive cfg key) = false

instance (st : State) : (a : Act) → Decidable (Agree cfg key st a)
  | .tick _ => inferInstanceAs (Decidable True)
  | .claim k _ .answered =>
    inferInstanceAs (Decidable (k = key → st.redisLive cfg key = false → st.localLive key = false))
  | .claim k _ .unreachable | .claim k _ .replyLost =>
    inferInstanceAs (Decidable (k = key → st.localLive key = false →
      (st.told && st.redisLive cfg key) = false))

/-- A grant whose ttl still runs is on record in the store that gave it. -/
def OnRecord (st : State) (t : Nat) : Prop :=
  (∃ e ∈ st.store.claims key, min (t + max ttl 1) u64Max ≤ e) ∨
    (st.told = true ∧ ∃ c, st.db.ints (marker cfg key) = some c ∧
      ∃ e ∈ c.deadline, t + max ttl 1 ≤ e)

structure Inv (st : State) : Prop where
  clock : st.clock < 2 ^ 63
  past : ∀ t ∈ st.granted, t ≤ st.clock
  spaced : st.granted.Pairwise fun later earlier => earlier + max ttl 1 ≤ later
  recorded : ∀ t ∈ st.granted, st.clock < t + max ttl 1 → OnRecord cfg key ttl st t

variable {cfg key ttl}

theorem Inv.init {clock : Nat} (h : clock < 2 ^ 63) : Inv cfg key ttl (State.init clock) where
  clock := h
  past := by simp [State.init]
  spaced := .nil
  recorded := by simp [State.init]

/-- What is on record and still running keeps the store that holds it from granting again. -/
theorem OnRecord.live {st : State} {t : Nat} (h : OnRecord cfg key ttl st t)
    (hclock : st.clock < 2 ^ 63) (hrun : st.clock < t + max ttl 1) :
    st.localLive key = true ∨ (st.told = true ∧ st.redisLive cfg key = true) := by
  rcases h with ⟨e, he, hle⟩ | ⟨htold, c, hc, e, he, hle⟩
  · left
    have he' : st.store.claims key = some e := he
    have hlive : st.clock < e := by simp only [u64Max] at hle; omega
    rw [State.localLive, LocalStore.liveClaims_of_lt he' hlive]; rfl
  · right
    have hlive : c.live st.clock = true := Redis.Cell.live_of_lt fun e' he' => by
      have : e' = e := Option.some.inj (he'.symm.trans he)
      omega
    exact ⟨htold, by simp [State.redisLive, hc, Option.filter, hlive]⟩

theorem OnRecord.keep {st st' : State} {t : Nat} (h : OnRecord cfg key ttl st t)
    (hclock : st.clock < 2 ^ 63) (hrun : st.clock < t + max ttl 1)
    (hclaims : ∀ e, st.store.claims key = some e → st.clock < e → st'.store.claims key = some e)
    (hdb : ∀ c, st.db.ints (marker cfg key) = some c → c.live st.clock = true →
      st'.db.ints (marker cfg key) = some c)
    (htold : st.redisLive cfg key = true → st'.told = st.told) : OnRecord cfg key ttl st' t := by
  rcases h with ⟨e, he, hle⟩ | ⟨ht, c, hc, e, he, hle⟩
  · exact .inl ⟨e, hclaims e he (by simp only [u64Max] at hle; omega), hle⟩
  · have hlive : c.live st.clock = true := Redis.Cell.live_of_lt fun e' he' => by
      have : e' = e := Option.some.inj (he'.symm.trans he)
      omega
    have hredis : st.redisLive cfg key = true := by simp [State.redisLive, hc, Option.filter, hlive]
    exact .inr ⟨(htold hredis).trans ht, c, hdb c hc hlive, e, he, hle⟩

variable (cfg key) in
theorem claimOnce_keeps (now : Nat) (k : String) (ttl' : Nat) (outcome : Outcome)
    (store : LocalStore) (db : Db) :
    (∀ e, store.claims key = some e → now < e →
      (claimOnce cfg now k ttl' outcome store db).2.1.claims key = some e) ∧
    (∀ c, db.ints (marker cfg key) = some c → c.live now = true →
      (claimOnce cfg now k ttl' outcome store db).2.2.ints (marker cfg key) = some c) := by
  cases outcome with
  | answered => exact ⟨fun e he _ => he, fun c hc hl => Redis.Db.setNx_keeps hc hl⟩
  | unreachable => exact ⟨fun e he hl => LocalStore.claims_claimOnce_keeps he hl, fun c hc _ => hc⟩
  | replyLost =>
    exact ⟨fun e he hl => LocalStore.claims_claimOnce_keeps he hl,
      fun c hc hl => Redis.Db.setNx_keeps hc hl⟩

/-- Who answers a call decides which store has to hold no live marker for it to be granted. -/
theorem claimOnce_fst (st : State) (outcome : Outcome) :
    (claimOnce cfg st.clock key ttl outcome st.store st.db).1 =
      match outcome with
      | .answered => !st.redisLive cfg key
      | _ => !st.localLive key := by
  cases outcome with
  | answered => exact Redis.Db.setNx_fst
  | unreachable => exact LocalStore.claimOnce_fst ..
  | replyLost => exact LocalStore.claimOnce_fst ..

theorem Inv.tick {st : State} (h : Inv cfg key ttl st) {secs : Nat}
    (hclock : st.clock + secs < 2 ^ 63) : Inv cfg key ttl { st with clock := st.clock + secs } where
  clock := hclock
  past t ht := (h.past t ht).trans (Nat.le_add_right ..)
  spaced := h.spaced
  recorded t ht hrun := h.recorded t ht (by dsimp only at hrun; omega)

/-- The state after a claim keeps its grants on record, so only a new grant has to be looked at. -/
theorem Inv.of_claim {st st' : State} (h : Inv cfg key ttl st) {k : String} {ttl' : Nat}
    {outcome : Outcome} (hclock : st'.clock = st.clock)
    (hstores : (st'.store, st'.db) = (claimOnce cfg st.clock k ttl' outcome st.store st.db).2)
    (htold : st.redisLive cfg key = true → st'.told = st.told)
    (hgranted : st'.granted = st.granted ∨
      (st'.granted = st.clock :: st.granted ∧ OnRecord cfg key ttl st' st.clock ∧
        ∀ t ∈ st.granted, t + max ttl 1 ≤ st.clock)) : Inv cfg key ttl st' := by
  have hkeeps := claimOnce_keeps cfg key st.clock k ttl' outcome st.store st.db
  rw [← hstores] at hkeeps
  have hold : ∀ t ∈ st.granted, st'.clock < t + max ttl 1 → OnRecord cfg key ttl st' t := by
    intro t ht hrun
    rw [hclock] at hrun
    exact (h.recorded t ht hrun).keep h.clock hrun hkeeps.1 hkeeps.2 htold
  rcases hgranted with hg | ⟨hg, hnew, hspaced⟩
  · exact ⟨hclock ▸
      h.clock, by rw [hg, hclock]; exact h.past, hg ▸ h.spaced, by rw [hg]; exact hold⟩
  · refine ⟨hclock ▸ h.clock, ?_, ?_, ?_⟩
    · rw [hg, hclock]
      intro t ht
      rcases List.mem_cons.1 ht with rfl | ht
      · exact le_rfl
      · exact h.past t ht
    · rw [hg]
      exact List.pairwise_cons.2 ⟨hspaced, h.spaced⟩
    · rw [hg]
      intro t ht hrun
      rcases List.mem_cons.1 ht with rfl | ht
      · exact hnew
      · exact hold t ht hrun

theorem Inv.spent {st : State} (h : Inv cfg key ttl st) {outcome : Outcome}
    (hagree : Agree cfg key st (.claim key ttl outcome))
    (hgot : (claimOnce cfg st.clock key ttl outcome st.store st.db).1 = true) :
    ∀ t ∈ st.granted, t + max ttl 1 ≤ st.clock := by
  intro t ht
  by_contra hrun
  have hlive := (h.recorded t ht (by omega)).live h.clock (by omega)
  have hagree := hagree rfl
  rw [claimOnce_fst] at hgot
  cases outcome <;> simp_all

theorem onRecord_of_granted {st st' : State} {outcome : Outcome}
    (hstores : (st'.store, st'.db) = (claimOnce cfg st.clock key ttl outcome st.store st.db).2)
    (hgot : (claimOnce cfg st.clock key ttl outcome st.store st.db).1 = true)
    (htold : outcome = .answered → st.redisLive cfg key = false → st'.told = true) :
    OnRecord cfg key ttl st' st.clock := by
  rw [claimOnce_fst] at hgot
  cases outcome with
  | answered =>
    have hredis : st.redisLive cfg key = false := by simpa using hgot
    have hdb : st'.db = (st.db.setNx st.clock (marker cfg key) (max ttl 1)).2 :=
      congrArg Prod.snd hstores
    exact .inr ⟨htold rfl hredis, _, hdb ▸ Redis.Db.setNx_ints_self hredis, _, rfl, le_rfl⟩
  | unreachable | replyLost =>
    have hlocal : st.store.liveClaims st.clock key = none := by
      simpa [State.localLive] using hgot
    have hstore : st'.store = (st.store.claimOnce st.clock key ttl).2 := congrArg Prod.fst hstores
    exact .inl ⟨_, hstore ▸ LocalStore.claims_claimOnce_self hlocal, le_rfl⟩

theorem Inv.step {st st' : State} {a : Act} (h : Inv cfg key ttl st) (hagree : Agree cfg key st a)
    (hs : step cfg key ttl st a = some st') : Inv cfg key ttl st' := by
  cases a with
  | tick secs =>
    simp only [ClaimOnce.step, Option.ite_none_right_eq_some, Option.some.injEq] at hs
    obtain ⟨hclock, rfl⟩ := hs
    exact h.tick hclock
  | claim k ttl' outcome =>
    simp only [ClaimOnce.step, Option.ite_none_right_eq_some, Option.some.injEq] at hs
    obtain ⟨httl, rfl⟩ := hs
    refine h.of_claim rfl rfl (fun hlive => ?_) ?_
    · cases outcome <;> simp [hlive]
    · by_cases hk : k = key ∧ (claimOnce cfg st.clock k ttl' outcome st.store st.db).1 = true
      · obtain ⟨rfl, hgot⟩ := hk
        obtain rfl := httl rfl
        refine .inr ⟨by simp [hgot], onRecord_of_granted rfl hgot ?_, h.spent hagree hgot⟩
        rintro rfl hredis
        simp [hredis]
      · exact .inl (if_neg hk)

theorem countP_le_one {granted : List Nat} {a b : Nat} (hb : b < a + ttl)
    (h : granted.Pairwise fun later earlier => earlier + max ttl 1 ≤ later) :
    granted.countP (fun t => a ≤ t ∧ t ≤ b) ≤ 1 := by
  induction h with
  | nil => simp
  | @cons t ts hts _ ih =>
    rw [List.countP_cons]
    split
    next hin =>
      have hnone : ts.countP (fun t => a ≤ t ∧ t ≤ b) = 0 := by
        refine List.countP_eq_zero.2 fun t' ht' => ?_
        have := hts t' ht'
        simp only [decide_eq_true_eq] at hin ⊢
        omega
      omega
    next => exact ih

variable (cfg key ttl) in
/-- A claim is granted once in every span shorter than its ttl, in a run in which the two stores
never disagree. -/
theorem granted_once {clock a b : Nat} {acts : List Act} {st : State} (hclock : clock < 2 ^ 63)
    (hm : Lts.Meets (step cfg key ttl) (Agree cfg key) (State.init clock) acts)
    (hr : Lts.run (step cfg key ttl) (State.init clock) acts = some st) (hb : b < a + ttl) :
    st.granted.countP (fun t => a ≤ t ∧ t ≤ b) ≤ 1 :=
  countP_le_one hb
    (Lts.run_invariant_of_meets (fun _ _ _ h hc hs => Inv.step h hc hs)
      (Inv.init hclock) hm hr).spaced

end Key

/-- Redis goes down after a grant, and the local marker is asked for only when the ttl is over. -/
def agreed : List Act :=
  [.claim "k" 60 .answered, .tick 59, .claim "k" 60 .answered, .tick 1, .claim "k" 60 .unreachable]

theorem granted_once_agreed :
    ∃ st, Lts.run (step defaultConfig "k" 60) (State.init 0) agreed = some st ∧
      st.granted.countP (fun t => 1 ≤ t ∧ t ≤ 60) ≤ 1 := by
  obtain ⟨st, hst⟩ := Option.isSome_iff_exists.1
    (show (Lts.run (step defaultConfig "k" 60) (State.init 0) agreed).isSome by decide)
  exact ⟨st, hst, granted_once defaultConfig "k" 60 (by decide) (by decide) hst (by decide)⟩

/-- An outage that ends between two calls: each store grants its own marker. -/
def outage : List Act := [.claim "k" 60 .unreachable, .claim "k" 60 .answered]

theorem granted_twice :
    ¬ ∀ acts st a b, Lts.run (step defaultConfig "k" 60) (State.init 0) acts = some st →
      b < a + 60 → st.granted.countP (fun t => a ≤ t ∧ t ≤ b) ≤ 1 := by
  intro h
  have hrun : (Lts.run (step defaultConfig "k" 60) (State.init 0) outage).map
      (fun st => st.granted.countP (fun t => 0 ≤ t ∧ t ≤ 0)) = some 2 := by decide
  obtain ⟨st, hst, htwo⟩ := Option.map_eq_some_iff.1 hrun
  have := h outage st 0 0 hst (by decide)
  omega

end ClaimOnce
end RateLimit
end Aisix
