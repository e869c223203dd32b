import Aisix.RateLimit.KeyState

/-!
# Aisix.RateLimit.Bucket

The body that each operation of the local store runs while it holds a bucket's mutex.

`KeyState.refusal` is the decision of `acquire` read off the counters as they stood before the
call. The body itself checks, increments and rolls back counter by counter; `acquireBody_spec` says
that it decides as `refusal` does, and what becomes of every counter, admitted or refused.
-/

namespace Aisix
namespace RateLimit
namespace KeyState

open FixedWindowCounter (rollIfStale countAt add decrement)

/-- Concurrency first: cheapest and never consumes a window slot. -/
def concurrencyGate (limits : Limits) (s : KeyState) : Option RateLimitError :=
  match limits.maxConcurrency with
  | none => none
  | some max =>
    -- `in_flight.len() as u32` truncates
    let inFlight := s.inFlight.card % 2 ^ 32
    if inFlight ≥ max then some (.concurrency (LimitDetail.concurrency max s.inFlight.card))
    else none

def allowanceGate (limits : Limits) (s : KeyState) : Option RateLimitError :=
  match limits.granted with
  | none => none
  | some granted => if s.consumedMicroUsd ≥ granted then some .allowanceExhausted else none

/-- One token limit: checked but not incremented. -/
def tokenGate (now : Nat) (limits : Limits) (d : TokDim) (s : KeyState) :
    Option RateLimitError × KeyState :=
  match limits.tok d with
  | none => (none, s)
  | some max =>
    let (exceeded, c) := (s.tok d).isExceeded now max
    match exceeded with
    | none => (none, s.setTok d c)
    | some retry =>
      let (used, c) := c.current now
      (some (.tokens .tokens (LimitDetail.window d.name max used retry)), s.setTok d c)

def tokenChain (now : Nat) (limits : Limits) :
    List TokDim → KeyState → Option RateLimitError × KeyState
  | [], s => (none, s)
  | d :: ds, s =>
    match tokenGate now limits d s with
    | (some e, s) => (some e, s)
    | (none, s) => tokenChain now limits ds s

/-- Undo one increment on each of the counters in `incremented`. -/
def rollBack (now : Nat) : List ReqDim → KeyState → KeyState
  | [], s => s
  | d :: incremented, s => rollBack now incremented (s.setReq d ((s.req d).decrement now 1))

/-- Request limits, checked and incremented; `incremented` are the counters this call has already
taken a unit of, the latest first. -/
def requestChain (now : Nat) (limits : Limits) :
    List ReqDim → List ReqDim → KeyState → Option RateLimitError × KeyState
  | [], _, s => (none, s)
  | d :: ds, incremented, s =>
    match limits.req d with
    | none => requestChain now limits ds incremented s
    | some max =>
      match (s.req d).checkAndIncrement now 1 max with
      | (.full retryAfterSecs, c) =>
        let (used, c) := c.current now
        let detail := LimitDetail.window d.name max used retryAfterSecs
        (some (.requests .requests detail), rollBack now incremented (s.setReq d c))
      | (.ok, c) => requestChain now limits ds (d :: incremented) (s.setReq d c)

/-- `RateStore::acquire` under the bucket's mutex, with the reading `now` the caller took before.
The result is the refusal, if any, and the state the bucket is left in. -/
def acquireBody (now : Nat) (limits : Limits) (member : String) (s : KeyState) :
    Option RateLimitError × KeyState :=
  match concurrencyGate limits s with
  | some e => (some e, s)
  | none =>
    let s := s.markAllowance limits.granted.isSome
    match allowanceGate limits s with
    | some e => (some e, s)
    | none =>
      match tokenChain now limits TokDim.chain s with
      | (some e, s) => (some e, s)
      | (none, s) =>
        match requestChain now limits ReqDim.chain [] s with
        | (some e, s) => (some e, s)
        | (none, s) => (none, s.takeSlot now member)

/-- The three token counters and the cumulative one, as `commit` and `add_tokens` charge them. -/
def charge (now tokens : Nat) (s : KeyState) : KeyState :=
  { s with
    tpm := s.tpm.add now tokens
    tph := s.tph.add now tokens
    tpd := s.tpd.add now tokens
    consumedMicroUsd := satAdd s.consumedMicroUsd tokens }

def commitBody (now tokens : Nat) (member : String) (s : KeyState) : KeyState :=
  { s.charge now tokens with inFlight := s.inFlight.erase member, lastTouched := now }

def addTokensBody (now tokens : Nat) (s : KeyState) : KeyState :=
  { s.charge now tokens with lastTouched := now }

def releaseBody (now : Nat) (member : String) (s : KeyState) : KeyState :=
  { s with inFlight := s.inFlight.erase member, lastTouched := now }

/-- The refusal of a token limit, by the counts before the call. -/
def tokenRefusal (now : Nat) (limits : Limits) (s : KeyState) (d : TokDim) :
    Option RateLimitError :=
  match limits.tok d with
  | none => none
  | some max =>
    let used := (s.tok d).countAt now
    if max ≤ used then
      some
        (.tokens .tokens (LimitDetail.window d.name max used (d.windowSecs - now % d.windowSecs)))
    else none

/-- The refusal of a request limit, by the counts before the call. -/
def requestRefusal (now : Nat) (limits : Limits) (s : KeyState) (d : ReqDim) :
    Option RateLimitError :=
  match limits.req d with
  | none => none
  | some max =>
    let used := (s.req d).countAt now
    if max < satAdd used 1 then
      some (.requests .requests
        (LimitDetail.window d.name max used (d.windowSecs - now % d.windowSecs)))
    else none

/-- The first limit, in the order of the checks, that the counts before the call refuse. -/
def refusal (now : Nat) (limits : Limits) (s : KeyState) : Option RateLimitError :=
  concurrencyGate limits s <|> allowanceGate limits s <|>
    TokDim.chain.findSome? (tokenRefusal now limits s) <|>
    ReqDim.chain.findSome? (requestRefusal now limits s)

theorem findSome?_congr {α β : Type*} {f g : α → Option β} {l : List α}
    (h : ∀ a ∈ l, f a = g a) : l.findSome? f = l.findSome? g := by
  induction l with
  | nil => rfl
  | cons a l ih =>
    simp only [List.findSome?_cons, h a List.mem_cons_self,
      ih fun b hb => h b (List.mem_cons_of_mem a hb)]

section Token

variable {now : Nat} {limits : Limits}

theorem tokenGate_eq (d : TokDim) (s : KeyState) :
    tokenGate now limits d s =
      (tokenRefusal now limits s d,
        if (limits.tok d).isSome then s.setTok d ((s.tok d).rollIfStale now) else s) := by
  unfold tokenGate tokenRefusal
  cases h : limits.tok d with
  | none => rfl
  | some max =>
    simp only [FixedWindowCounter.isExceeded_eq d.windowSecs_pos]
    by_cases hc : max ≤ (s.tok d).countAt now
    · simp only [if_pos hc, Option.isSome_some, if_true, FixedWindowCounter.current_eq,
        FixedWindowCounter.rollIfStale_rollIfStale, FixedWindowCounter.countAt_rollIfStale_self]
    · simp only [if_neg hc, Option.isSome_some, if_true]

theorem tokenRefusal_congr {s s' : KeyState} {d : TokDim} (h : s'.tok d = s.tok d) :
    tokenRefusal now limits s' d = tokenRefusal now limits s d := by
  simp only [tokenRefusal, h]

variable (now limits) in
theorem tokenGate_same (d : TokDim) (s : KeyState) :
    SameBesidesTok s (tokenGate now limits d s).2 := by
  rw [tokenGate_eq]
  split
  · exact .setTok s d _
  · exact .refl s

variable (now limits) in
theorem tokenGate_tok (d d' : TokDim) (s : KeyState) :
    (tokenGate now limits d s).2.tok d' = s.tok d' ∨
      (tokenGate now limits d s).2.tok d' = (s.tok d').rollIfStale now := by
  rw [tokenGate_eq]
  by_cases hd : d' = d
  · subst hd; split
    · right; simp
    · left; rfl
  · left; split
    · exact tok_setTok_of_ne s hd _
    · rfl

theorem tokenChain_refusal (ds : List TokDim) (hnd : ds.Nodup) (s : KeyState) :
    (tokenChain now limits ds s).1 = ds.findSome? (tokenRefusal now limits s) := by
  induction ds generalizing s with
  | nil => rfl
  | cons d ds ih =>
    obtain ⟨hd, hnd⟩ := List.nodup_cons.1 hnd
    simp only [tokenChain, tokenGate_eq, List.findSome?_cons]
    cases tokenRefusal now limits s d with
    | some e => rfl
    | none =>
      simp only [ih hnd]
      apply findSome?_congr
      intro d' hd'
      apply tokenRefusal_congr
      have hne : d' ≠ d := fun h => hd (h ▸ hd')
      split
      · exact tok_setTok_of_ne s hne _
      · rfl

variable (now limits) in
theorem tokenChain_same (ds : List TokDim) (s : KeyState) :
    SameBesidesTok s (tokenChain now limits ds s).2 := by
  induction ds generalizing s with
  | nil => exact .refl s
  | cons d ds ih =>
    have hg := tokenGate_same now limits d s
    unfold tokenChain
    cases h : tokenGate now limits d s with
    | mk r s' =>
      rw [h] at hg
      cases r with
      | some e => exact hg
      | none => exact hg.trans (ih s')

variable (now limits) in
theorem tokenChain_tok (ds : List TokDim) (d : TokDim) (s : KeyState) :
    (tokenChain now limits ds s).2.tok d = s.tok d ∨
      (tokenChain now limits ds s).2.tok d = (s.tok d).rollIfStale now := by
  induction ds generalizing s with
  | nil => exact .inl rfl
  | cons d' ds ih =>
    have hg := tokenGate_tok now limits d' d s
    unfold tokenChain
    cases h : tokenGate now limits d' s with
    | mk r s' =>
      rw [h] at hg
      cases r with
      | some e => exact hg
      | none =>
        rcases hg with hg | hg <;> rcases ih s' with hi | hi <;> rw [hg] at hi <;> simp_all

end Token

section Request

variable {now : Nat} {limits : Limits}

theorem rollBack_same (ds : List ReqDim) (s : KeyState) : SameBesidesReq s (rollBack now ds s) := by
  induction ds generalizing s with
  | nil => exact .refl s
  | cons d ds ih => exact (SameBesidesReq.setReq s d _).trans (ih _)

theorem rollBack_req (ds : List ReqDim) (hnd : ds.Nodup) (d : ReqDim) (s : KeyState) :
    (rollBack now ds s).req d = if d ∈ ds then (s.req d).decrement now 1 else s.req d := by
  induction ds generalizing s with
  | nil => simp [rollBack]
  | cons d' ds ih =>
    obtain ⟨hd', hnd⟩ := List.nodup_cons.1 hnd
    rw [rollBack, ih hnd]
    by_cases hd : d = d'
    · subst hd; simp [hd']
    · simp [hd, req_setReq_of_ne s hd]

theorem requestRefusal_congr {s s' : KeyState} {d : ReqDim} (h : s'.req d = s.req d) :
    requestRefusal now limits s' d = requestRefusal now limits s d := by
  simp only [requestRefusal, h]

/-- One stage of the chain: the limit refuses, or one unit is taken, or there is no limit. -/
theorem requestChain_cons (d : ReqDim) (ds incremented : List ReqDim) (s : KeyState) :
    requestChain now limits (d :: ds) incremented s =
      match requestRefusal now limits s d with
      | some e => (some e, rollBack now incremented (s.setReq d ((s.req d).rollIfStale now)))
      | none =>
        if (limits.req d).isSome then
          requestChain now limits ds (d :: incremented) (s.setReq d ((s.req d).add now 1))
        else requestChain now limits ds incremented s := by
  rw [requestChain]
  cases h : limits.req d with
  | none => simp [requestRefusal, h]
  | some max =>
    by_cases hc : max < satAdd ((s.req d).countAt now) 1
    · simp only [FixedWindowCounter.checkAndIncrement_full d.windowSecs_pos hc, requestRefusal, h,
        if_pos hc, FixedWindowCounter.current_eq, FixedWindowCounter.rollIfStale_rollIfStale,
        FixedWindowCounter.countAt_rollIfStale_self]
    · simp [FixedWindowCounter.checkAndIncrement_ok (Nat.not_lt.1 hc), requestRefusal, h, hc]

theorem requestChain_refusal (ds : List ReqDim) (hnd : ds.Nodup) (incremented : List ReqDim)
    (s : KeyState) :
    (requestChain now limits ds incremented s).1 = ds.findSome? (requestRefusal now limits s) := by
  induction ds generalizing s incremented with
  | nil => rfl
  | cons d ds ih =>
    obtain ⟨hd, hnd⟩ := List.nodup_cons.1 hnd
    rw [requestChain_cons, List.findSome?_cons]
    cases requestRefusal now limits s d with
    | some e => rfl
    | none =>
      dsimp only
      split
      · rw [ih hnd]
        refine findSome?_congr fun d' hd' => requestRefusal_congr ?_
        have hne : d' ≠ d := fun h => hd (h ▸ hd')
        exact req_setReq_of_ne s hne _
      · exact ih hnd _ s

variable (now limits) in
theorem requestChain_same (ds incremented : List ReqDim) (s : KeyState) :
    SameBesidesReq s (requestChain now limits ds incremented s).2 := by
  induction ds generalizing s incremented with
  | nil => exact .refl s
  | cons d ds ih =>
    rw [requestChain_cons]
    cases requestRefusal now limits s d with
    | some e => exact (SameBesidesReq.setReq s d _).trans (rollBack_same incremented _)
    | none =>
      dsimp only
      split
      · exact (SameBesidesReq.setReq s d _).trans (ih _ _)
      · exact ih _ s

variable (now limits) in
/-- An admitted request took one unit of every configured counter, and touched no other. -/
theorem requestChain_req_of_none (ds : List ReqDim) (hnd : ds.Nodup) (incremented : List ReqDim)
    (s : KeyState) (h : (requestChain now limits ds incremented s).1 = none) (d : ReqDim) :
    (requestChain now limits ds incremented s).2.req d =
      if d ∈ ds ∧ (limits.req d).isSome then (s.req d).add now 1 else s.req d := by
  induction ds generalizing s incremented with
  | nil => simp [requestChain]
  | cons d' ds ih =>
    obtain ⟨hd', hnd⟩ := List.nodup_cons.1 hnd
    rw [requestChain_cons] at h ⊢
    cases hr : requestRefusal now limits s d' with
    | some e => simp [hr] at h
    | none =>
      simp only [hr] at h ⊢
      by_cases hl : (limits.req d').isSome
      · simp only [hl, if_true] at h ⊢
        rw [ih hnd _ _ h]
        by_cases hd : d = d'
        · subst hd; simp [hd', hl]
        · simp [hd, req_setReq_of_ne s hd]
      · simp only [hl] at h ⊢
        rw [if_neg (by simp)] at h ⊢
        rw [ih hnd _ _ h]
        by_cases hd : d = d'
        · subst hd; simp [hl]
        · simp [hd]

/-- What a refused acquire may leave of a request counter. -/
def Settled {w : Nat} (now : Nat) (c c' : FixedWindowCounter w) : Prop :=
  c' = c ∨ c' = c.rollIfStale now ∨ c' = (c.add now 1).decrement now 1

theorem Settled.eq_or_roll {w : Nat} {c c' : FixedWindowCounter w} (h : Settled now c c')
    (hc : c.countAt now < u64Max) : c' = c ∨ c' = c.rollIfStale now := by
  rcases h with h | h | h
  · exact .inl h
  · exact .inr h
  · exact .inr (h.trans (FixedWindowCounter.decrement_add hc))

variable (now limits) in
/-- A refused request left every counter still ahead of it settled, and took back the units it had
taken of those behind it. -/
theorem requestChain_req_of_some (ds incremented : List ReqDim) (hnd : (ds ++ incremented).Nodup)
    (s : KeyState) {e : RateLimitError} (h : (requestChain now limits ds incremented s).1 = some e)
    (d : ReqDim) :
    (d ∈ incremented →
      (requestChain now limits ds incremented s).2.req d = (s.req d).decrement now 1) ∧
    (d ∉ incremented →
    Settled now (s.req d) ((requestChain now limits ds incremented s).2.req d)) := by
  induction ds generalizing s incremented with
  | nil => simp [requestChain] at h
  | cons d' ds ih =>
    have hd' : d' ∉ incremented := fun hm =>
      (List.nodup_cons.1 hnd).1 (List.mem_append_right ds hm)
    have hinc : incremented.Nodup := (List.nodup_append.1 hnd).2.1
    rw [requestChain_cons] at h ⊢
    cases hr : requestRefusal now limits s d' with
    | some e' =>
      simp only [rollBack_req _ hinc]
      refine ⟨fun hd => ?_, fun hd => ?_⟩
      · have hne : d ≠ d' := fun h => hd' (h ▸ hd)
        rw [if_pos hd, req_setReq_of_ne s hne]
      · rw [if_neg hd]
        by_cases hdd : d = d'
        · subst hdd; exact .inr (.inl (req_setReq s d _))
        · exact .inl (req_setReq_of_ne s hdd _)
    | none =>
      simp only [hr] at h ⊢
      by_cases hl : (limits.req d').isSome
      · simp only [hl, if_true] at h ⊢
        have hperm : (ds ++ d' :: incremented).Nodup := List.perm_middle.nodup_iff.2 hnd
        obtain ⟨hin, hout⟩ := ih _ hperm _ h
        refine ⟨fun hd => ?_, fun hd => ?_⟩
        · have hne : d ≠ d' := fun h => hd' (h ▸ hd)
          rw [hin (List.mem_cons_of_mem d' hd), req_setReq_of_ne s hne]
        · by_cases hdd : d = d'
          · subst hdd
            right; right
            rw [hin List.mem_cons_self, req_setReq]
          · have := hout (by simp [hdd, hd])
            rwa [req_setReq_of_ne s hdd] at this
      · simp only [hl] at h ⊢
        rw [if_neg (by simp)] at h ⊢
        exact ih _ (List.nodup_cons.1 hnd).2 _ h

end Request

section Acquire

variable {now : Nat} {limits : Limits} {member : String}

theorem refusal_eq_none_iff (s : KeyState) :
    s.refusal now limits = none ↔
      concurrencyGate limits s = none ∧ allowanceGate limits s = none ∧
        (∀ d, tokenRefusal now limits s d = none) ∧ ∀ d, requestRefusal now limits s d = none := by
  simp [KeyState.refusal, List.findSome?_eq_none_iff, TokDim.mem_chain, ReqDim.mem_chain]

theorem requestRefusal_eq_none_iff {s : KeyState} {d : ReqDim} {max : Nat}
    (h : limits.req d = some max) :
    requestRefusal now limits s d = none ↔ satAdd ((s.req d).countAt now) 1 ≤ max := by
  simp only [requestRefusal, h]
  split <;> simp <;> omega

/-- What one run of the body decides and what it leaves in the bucket. -/
structure AcquireSpec (now : Nat) (limits : Limits) (member : String) (s : KeyState)
    (r : Option RateLimitError × KeyState) : Prop where
  refusal : r.1 = s.refusal now limits
  tok : ∀ d, r.2.tok d = s.tok d ∨ r.2.tok d = (s.tok d).rollIfStale now
  req_of_none : r.1 = none →
    ∀ d, r.2.req d = if (limits.req d).isSome then (s.req d).add now 1 else s.req d
  req_of_some : r.1 ≠ none → ∀ d, Settled now (s.req d) (r.2.req d)
  consumed : r.2.consumedMicroUsd = s.consumedMicroUsd
  inFlight : r.2.inFlight = if r.1 = none then insert member s.inFlight else s.inFlight
  carries : r.2.carriesAllowance =
    if concurrencyGate limits s = none then limits.granted.isSome else s.carriesAllowance

variable (now limits member) in
theorem acquireBody_spec (s : KeyState) :
    AcquireSpec now limits member s (acquireBody now limits member s) := by
  unfold acquireBody
  cases hconc : concurrencyGate limits s with
  | some e =>
    exact ⟨by simp [KeyState.refusal, hconc], fun _ => .inl rfl, by simp, fun _ _ => .inl rfl, rfl,
      by simp, by simp [hconc]⟩
  | none =>
  dsimp only
  -- the flag is written before the allowance is compared, so a refusal keeps it
  set s₀ := s.markAllowance limits.granted.isSome with hs₀
  have hall₀ : allowanceGate limits s₀ = allowanceGate limits s := rfl
  cases hall : allowanceGate limits s with
  | some e =>
    rw [hall₀, hall]
    exact ⟨by
      simp [KeyState.refusal, hconc, hall], fun d => .inl (tok_markAllowance s _ d), by simp,
      fun _ d => .inl (req_markAllowance s _ d), rfl, by simp [s₀, markAllowance],
      by simp [hconc, s₀, markAllowance]⟩
  | none =>
  rw [hall₀, hall]
  have htsame := tokenChain_same now limits TokDim.chain s₀
  have httok := fun d => tokenChain_tok now limits TokDim.chain d s₀
  have htref : (tokenChain now limits TokDim.chain s₀).1 =
      TokDim.chain.findSome? (tokenRefusal now limits s) := by
    rw [tokenChain_refusal _ (by decide)]
    exact findSome?_congr fun d _ => tokenRefusal_congr (tok_markAllowance s _ d)
  simp only [s₀, tok_markAllowance] at httok
  cases htok : tokenChain now limits TokDim.chain s₀ with
  | mk rt s₁ =>
  rw [htok] at htsame htref httok
  cases rt with
  | some e =>
    exact ⟨by simp [KeyState.refusal, hconc, hall, ← htref], httok, by simp,
      fun _ d => .inl ((htsame.req d).trans (req_markAllowance s _ d)), htsame.consumed,
      by rw [if_neg (by simp)]; exact htsame.inFlight,
      by rw [if_pos hconc]; exact htsame.carries⟩
  | none =>
  dsimp only at htsame htref httok ⊢
  have hreq₁ : ∀ d, s₁.req d = s.req d := fun d =>
    (htsame.req d).trans (req_markAllowance s _ d)
  have hrsame := requestChain_same now limits ReqDim.chain [] s₁
  have hrref : (requestChain now limits ReqDim.chain [] s₁).1 =
      ReqDim.chain.findSome? (requestRefusal now limits s) := by
    rw [requestChain_refusal _ ReqDim.chain_nodup]
    exact findSome?_congr fun d _ => requestRefusal_congr (hreq₁ d)
  have hnone := requestChain_req_of_none now limits ReqDim.chain ReqDim.chain_nodup [] s₁
  have hsome := fun e => requestChain_req_of_some now limits ReqDim.chain [] (by decide) s₁ (e := e)
  cases hreq : requestChain now limits ReqDim.chain [] s₁ with
  | mk rr s₂ =>
  rw [hreq] at hrsame hrref hnone hsome
  have htok₂ : ∀ d, s₂.tok d = s.tok d ∨ s₂.tok d = (s.tok d).rollIfStale now := fun d => by
    rw [hrsame.tok d]; exact httok d
  have hcons : s₂.consumedMicroUsd = s.consumedMicroUsd := hrsame.consumed.trans htsame.consumed
  have hin : s₂.inFlight = s.inFlight := hrsame.inFlight.trans htsame.inFlight
  have hcar : s₂.carriesAllowance = limits.granted.isSome := hrsame.carries.trans htsame.carries
  cases rr with
  | some e =>
    refine ⟨by simp [KeyState.refusal, hconc, hall, ← htref, ← hrref], htok₂, by simp, ?_, hcons,
      by simpa using hin, by simpa [hconc] using hcar⟩
    intro _ d
    rw [← hreq₁ d]
    exact (hsome e rfl d).2 List.not_mem_nil
  | none =>
    refine ⟨by simp [KeyState.refusal, hconc, hall, ← htref, ← hrref], fun d => ?_, ?_, by simp,
      hcons, by simp [takeSlot, hin], by simpa [hconc, takeSlot] using hcar⟩
    · rw [tok_takeSlot]; exact htok₂ d
    · intro _ d
      rw [req_takeSlot, hnone rfl d, hreq₁ d]
      simp [ReqDim.mem_chain d]

end Acquire

end KeyState
end RateLimit
end Aisix
