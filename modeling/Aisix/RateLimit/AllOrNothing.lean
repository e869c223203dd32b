import Aisix.RateLimit.LocalStore
import Mathlib.Data.List.Basic

/-!
# Aisix.RateLimit.AllOrNothing

`acquire` as one transaction over nine gates. `Gate.Admits` says what each gate asks of the bucket
before the call, and `firstFailing` is the first one, in the order of the checks, that does not
get it. `AllOrNothing` compares the call with these: what a refusal leaves and what an admission
takes.

A gate can slip: let a request through that it should have stopped (`Gate.Slips`). A request window
does where the count and the limit both stand at `u64::MAX`, because the increment saturates, and
the concurrency gate does where the number of members does not fit a `u32`.
`acquire_allOrNothing_iff`: a call is all-or-nothing exactly when the first failing gate does not
slip.
-/

namespace Aisix
namespace RateLimit

open FixedWindowCounter (rollIfStale countAt)

/-- The limits of a bucket, each of which can refuse a request. -/
inductive Gate where
  | concurrency
  | allowance
  | tok (d : TokDim)
  | req (d : ReqDim)
  deriving DecidableEq, Repr

namespace Gate

/-- concurrency, allowance, tpm, tph, tpd, rps, rpm, rph, rpd. -/
def order : List Gate :=
  [.concurrency, .allowance] ++ TokDim.chain.map .tok ++ ReqDim.chain.map .req

/-- The bucket has room under the gate, if the request carries its limit. -/
def Admits (now : Nat) (limits : Limits) (s : KeyState) : Gate → Prop
  | .concurrency => ∀ max ∈ limits.maxConcurrency, s.inFlight.card < max
  | .allowance => ∀ granted ∈ limits.granted, s.consumedMicroUsd < granted
  | .tok d => ∀ max ∈ limits.tok d, (s.tok d).countAt now < max
  | .req d => ∀ max ∈ limits.req d, (s.req d).countAt now < max

instance (now : Nat) (limits : Limits) (s : KeyState) : DecidablePred (Admits now limits s)
  | .concurrency =>
    inferInstanceAs (Decidable (∀ max ∈ limits.maxConcurrency, s.inFlight.card < max))
  | .allowance =>
    inferInstanceAs (Decidable (∀ granted ∈ limits.granted, s.consumedMicroUsd < granted))
  | .tok d => inferInstanceAs (Decidable (∀ max ∈ limits.tok d, (s.tok d).countAt now < max))
  | .req d => inferInstanceAs (Decidable (∀ max ∈ limits.req d, (s.req d).countAt now < max))

/-- The first gate, in the order of the checks, that has no room. -/
def firstFailing (now : Nat) (limits : Limits) (s : KeyState) : Option Gate :=
  order.find? fun g => ¬ g.Admits now limits s

/-- The code's arithmetic does not see that the gate has no room. -/
def Slips (now : Nat) (limits : Limits) (s : KeyState) : Gate → Prop
  | .concurrency => ∀ max ∈ limits.maxConcurrency, s.inFlight.card % 2 ^ 32 < max
  | .req d => limits.req d = some u64Max ∧ u64Max ≤ (s.req d).countAt now
  | _ => False

/-- The refusal the gate answers with, by the counts before the call. -/
def refusal (now : Nat) (limits : Limits) (s : KeyState) : Gate → Option RateLimitError
  | .concurrency => s.concurrencyGate limits
  | .allowance => s.allowanceGate limits
  | .tok d => s.tokenRefusal now limits d
  | .req d => s.requestRefusal now limits d

end Gate

/-- The error is the one of the gate `g`. -/
def RateLimitError.Names : RateLimitError → Gate → Prop
  | .concurrency detail, .concurrency => detail.dimension = concurrencyDimension
  | .allowanceExhausted, .allowance => True
  | .tokens scope detail, .tok d => scope = .tokens ∧ detail.dimension = d.name
  | .requests scope detail, .req d => scope = .requests ∧ detail.dimension = d.name
  | _, _ => False

theorem RateLimitError.Names.unique {e : RateLimitError} {g g' : Gate} (h : e.Names g)
    (h' : e.Names g') : g = g' := by
  cases e <;> cases g <;> cases g' <;> simp only [RateLimitError.Names] at h h'
  case concurrency => rfl
  case allowanceExhausted => rfl
  case tokens scope detail d d' =>
    have hname : d.name = d'.name := h.2.symm.trans h'.2
    cases d <;> cases d' <;> first | rfl | exact absurd hname (by decide)
  case requests scope detail d d' =>
    have hname : d.name = d'.name := h.2.symm.trans h'.2
    cases d <;> cases d' <;> first | rfl | exact absurd hname (by decide)

namespace Gate

variable {now : Nat} {limits : Limits} {s : KeyState}

theorem mem_order (g : Gate) : g ∈ order := by
  cases g with
  | concurrency => decide
  | allowance => decide
  | tok d => cases d <;> decide
  | req d => cases d <;> decide

theorem names_refusal {g : Gate} {e : RateLimitError} (h : g.refusal now limits s = some e) :
    e.Names g := by
  cases g with
  | concurrency =>
    simp only [refusal, KeyState.concurrencyGate] at h
    split at h
    · cases h
    · split at h
      · cases h; rfl
      · cases h
  | allowance =>
    simp only [refusal, KeyState.allowanceGate] at h
    split at h
    · cases h
    · split at h
      · cases h; trivial
      · cases h
  | tok d =>
    simp only [refusal, KeyState.tokenRefusal] at h
    split at h
    · cases h
    · split at h
      · cases h; exact ⟨rfl, rfl⟩
      · cases h
  | req d =>
    simp only [refusal, KeyState.requestRefusal] at h
    split at h
    · cases h
    · split at h
      · cases h; exact ⟨rfl, rfl⟩
      · cases h

theorem refusal_of_admits {g : Gate} (h : g.Admits now limits s) :
    g.refusal now limits s = none := by
  cases g with
  | concurrency =>
    simp only [refusal, KeyState.concurrencyGate]
    cases hmax : limits.maxConcurrency with
    | none => rfl
    | some max =>
      have hroom : s.inFlight.card < max := h max hmax
      have := Nat.mod_le s.inFlight.card (2 ^ 32)
      exact if_neg (by omega)
  | allowance =>
    simp only [refusal, KeyState.allowanceGate]
    cases hmax : limits.granted with
    | none => rfl
    | some granted => exact if_neg (Nat.not_le.2 (h granted hmax))
  | tok d =>
    simp only [refusal, KeyState.tokenRefusal]
    cases hmax : limits.tok d with
    | none => rfl
    | some max => exact if_neg (Nat.not_le.2 (h max hmax))
  | req d =>
    cases hmax : limits.req d with
    | none => simp only [refusal, KeyState.requestRefusal, hmax]
    | some max =>
      have hroom : (s.req d).countAt now < max := h max hmax
      refine (KeyState.requestRefusal_eq_none_iff hmax).2 ?_
      simp only [satAdd]; omega

theorem refusal_of_not_admits {g : Gate} (h : ¬ g.Admits now limits s) :
    g.refusal now limits s = none ↔ g.Slips now limits s := by
  cases g with
  | concurrency =>
    simp only [refusal, KeyState.concurrencyGate, Slips]
    cases hmax : limits.maxConcurrency with
    | none => exact absurd (by simp [Admits, hmax]) h
    | some max => simp
  | allowance =>
    simp only [refusal, KeyState.allowanceGate, Slips]
    cases hmax : limits.granted with
    | none => exact absurd (by simp [Admits, hmax]) h
    | some granted =>
      have : granted ≤ s.consumedMicroUsd := by simpa [Admits, hmax] using h
      simp [this]
  | tok d =>
    simp only [refusal, KeyState.tokenRefusal, Slips]
    cases hmax : limits.tok d with
    | none => exact absurd (by simp [Admits, hmax]) h
    | some max =>
      have : max ≤ (s.tok d).countAt now := by simpa [Admits, hmax] using h
      simp [this]
  | req d =>
    cases hmax : limits.req d with
    | none => exact absurd (by simp [Admits, hmax]) h
    | some max =>
      have hfull : max ≤ (s.req d).countAt now := by simpa [Admits, hmax] using h
      have hmax' : max ≤ u64Max := Limits.le_u64Max_of_req hmax
      simp only [refusal, Slips, KeyState.requestRefusal_eq_none_iff hmax, hmax,
        Option.some.injEq, satAdd]
      omega

theorem refusal_eq (now : Nat) (limits : Limits) (s : KeyState) :
    s.refusal now limits = order.findSome? (refusal now limits s) := by
  simp only [KeyState.refusal, order, List.findSome?_append, List.findSome?_map,
    List.findSome?_cons, List.findSome?_nil]
  have htok : refusal now limits s ∘ Gate.tok = s.tokenRefusal now limits := rfl
  have hreq : refusal now limits s ∘ Gate.req = s.requestRefusal now limits := rfl
  rw [htok, hreq]
  simp only [refusal]
  cases s.concurrencyGate limits <;> cases s.allowanceGate limits <;> simp

end Gate

/-- What an acquire is to do to the bucket `s`, given its answer and the bucket `s'` it leaves. The
counters are compared by what `current` reads of them. -/
structure AllOrNothing (now : Nat) (limits : Limits) (member : String) (s : KeyState)
    (answer : Option RateLimitError) (s' : KeyState) : Prop where
  refused : answer ≠ none →
    s'.inFlight = s.inFlight ∧ s'.consumedMicroUsd = s.consumedMicroUsd ∧
      (∀ d, ((s'.req d).current now).1 = ((s.req d).current now).1) ∧
      ∀ d, ((s'.tok d).current now).1 = ((s.tok d).current now).1
  admitted : answer = none →
    member ∈ s'.inFlight ∧
      (∀ d, ∀ max ∈ limits.req d,
        ((s.req d).current now).1 < max ∧
          ((s'.req d).current now).1 = ((s.req d).current now).1 + 1) ∧
      (∀ d, limits.req d = none → ((s'.req d).current now).1 = ((s.req d).current now).1) ∧
      ∀ d, ((s'.tok d).current now).1 = ((s.tok d).current now).1
  admits : answer = none ↔ ∀ g : Gate, g.Admits now limits s
  names : ∀ e ∈ answer, ∃ g, Gate.firstFailing now limits s = some g ∧ e.Names g

namespace KeyState

variable {now : Nat} {limits : Limits} {member : String} {s : KeyState}

/-- Refused at `d`, the chain has taken nothing of the counters it had not yet come to, nor of those
without a limit. -/
theorem requestChain_untouched (before after incremented : List ReqDim) {d : ReqDim} (s : KeyState)
    (hnd : (before ++ d :: after ++ incremented).Nodup)
    (hbefore : ∀ d' ∈ before, s.requestRefusal now limits d' = none) {e : RateLimitError}
    (hd : s.requestRefusal now limits d = some e) {d' : ReqDim}
    (hd' : d' ∈ before → limits.req d' = none) (hinc : d' ∉ incremented) :
    (requestChain now limits (before ++ d :: after) incremented s).2.req d' = s.req d' ∨
      (requestChain now limits (before ++ d :: after) incremented s).2.req d' =
        (s.req d').rollIfStale now := by
  induction before generalizing s incremented with
  | nil =>
    have hnd' : incremented.Nodup := (List.nodup_append.1 hnd).2.1
    simp only [List.nil_append, requestChain_cons, hd, rollBack_req _ hnd', if_neg hinc]
    by_cases hdd : d' = d
    · subst hdd; exact .inr (req_setReq s d' _)
    · exact .inl (req_setReq_of_ne s hdd _)
  | cons b before ih =>
    have hrest : d' ∈ before → limits.req d' = none := fun h => hd' (List.mem_cons_of_mem b h)
    have hb : s.requestRefusal now limits b = none := hbefore b List.mem_cons_self
    rw [List.cons_append, requestChain_cons, hb]
    dsimp only
    obtain ⟨hbnd, hnd'⟩ := List.nodup_cons.1 hnd
    split
    · next hlim =>
      -- the counter of `b` is raised, which the later gates do not read
      have hne : d' ≠ b := by
        rintro rfl
        simp [hd' List.mem_cons_self] at hlim
      have hother : ∀ {d'' : ReqDim}, d'' ≠ b →
          (s.setReq b ((s.req b).add now 1)).req d'' = s.req d'' := fun h => req_setReq_of_ne s h _
      have hperm : (before ++ d :: after ++ b :: incremented).Nodup :=
        List.perm_middle.nodup_iff.2 hnd
      have hrefuse : ∀ {d'' : ReqDim}, d'' ≠ b →
          (s.setReq b ((s.req b).add now 1)).requestRefusal now limits d'' =
            s.requestRefusal now limits d'' := fun h => requestRefusal_congr (hother h)
      have hbd : d ≠ b := fun h => hbnd (by simp [h])
      have := ih (b :: incremented) (s.setReq b ((s.req b).add now 1)) hperm
        (fun d'' hd'' => by
          have hne'' : d'' ≠ b := fun h => hbnd (by simp [← h, hd''])
          rw [hrefuse hne'']; exact hbefore d'' (List.mem_cons_of_mem b hd''))
        (by rw [hrefuse hbd]; exact hd) hrest (by simp [hne, hinc])
      rwa [hother hne] at this
    · exact ih incremented s hnd'
        (fun d'' hd'' => hbefore d'' (List.mem_cons_of_mem b hd'')) hd hrest hinc

variable (now limits member) in
/-- The request counters are left alone, or are what the chain makes of them; the refusal is then
the chain's. -/
theorem acquireBody_req (s : KeyState) :
    (∀ d, (acquireBody now limits member s).2.req d = s.req d) ∨
      ∃ s₁, (∀ d, s₁.req d = s.req d) ∧
        (acquireBody now limits member s).1 = (requestChain now limits ReqDim.chain [] s₁).1 ∧
        ∀ d, (acquireBody now limits member s).2.req d =
          (requestChain now limits ReqDim.chain [] s₁).2.req d := by
  unfold acquireBody
  split
  · exact .inl fun _ => rfl
  · dsimp only
    split
    · exact .inl fun d => req_markAllowance s _ d
    · have hsame := tokenChain_same now limits TokDim.chain (s.markAllowance limits.granted.isSome)
      split
      · next h =>
        rw [h] at hsame
        exact .inl fun d => (hsame.req d).trans (req_markAllowance s _ d)
      · next s₁ h =>
        rw [h] at hsame
        refine .inr ⟨s₁, fun d => (hsame.req d).trans (req_markAllowance s _ d), ?_⟩
        split
        · next h' => rw [h']; exact ⟨rfl, fun _ => rfl⟩
        · next h' => rw [h']; exact ⟨rfl, fun d => req_takeSlot _ _ _ d⟩

/-- When the first gate without room is a request window, the windows before it have room. -/
theorem admits_of_firstFailing {before after : List ReqDim} {d₀ : ReqDim}
    (hsplit : ReqDim.chain = before ++ d₀ :: after)
    (hg : Gate.firstFailing now limits s = some (.req d₀)) {d : ReqDim} (hd : d ∈ before) :
    (Gate.req d).Admits now limits s := by
  by_contra hna
  set p : Gate → Bool := fun g => ¬ g.Admits now limits s
  set front : List Gate := [.concurrency, .allowance] ++ TokDim.chain.map .tok ++ before.map .req
    with hfront
  have horder : Gate.order = front ++ (d₀ :: after).map .req := by
    simp [Gate.order, hfront, hsplit]
  have hsome : (front.find? p).isSome := by
    refine List.find?_isSome.2 ⟨.req d, ?_, by simpa [p] using hna⟩
    simp [hfront, hd]
  obtain ⟨g, hfound⟩ := Option.isSome_iff_exists.1 hsome
  have hgd : g = .req d₀ := by
    have : Gate.firstFailing now limits s = some g := by
      rw [Gate.firstFailing, horder, List.find?_append, hfound]; rfl
    rw [hg] at this
    exact (Option.some.inj this).symm
  have hmem : Gate.req d₀ ∈ front := hgd ▸ List.mem_of_find?_eq_some hfound
  have hd₀ : d₀ ∈ before := by simpa [hfront] using hmem
  have hnd : (before ++ d₀ :: after).Nodup := hsplit ▸ ReqDim.chain_nodup
  exact (List.nodup_append.1 hnd).2.2 d₀ hd₀ d₀ List.mem_cons_self rfl

/-- Refused by the first gate without room, a call leaves every request counter as it read. -/
theorem countAt_of_refused {g : Gate} (hg : Gate.firstFailing now limits s = some g)
    {e : RateLimitError} (he : g.refusal now limits s = some e)
    (hans : (acquireBody now limits member s).1 = some e) (d : ReqDim) :
    ((acquireBody now limits member s).2.req d).countAt now = (s.req d).countAt now := by
  rcases acquireBody_req now limits member s with h | ⟨s₁, hreq, hfst, hsnd⟩
  · rw [h d]
  have hchain : ReqDim.chain.findSome? (s.requestRefusal now limits) = some e := by
    rw [← hans, hfst, requestChain_refusal _ ReqDim.chain_nodup]
    exact findSome?_congr fun d _ => (requestRefusal_congr (hreq d)).symm
  -- the chain refused, so the first gate without room is one of its own
  obtain ⟨before, d₀, after, hsplit, hd₀, hbefore⟩ := List.findSome?_eq_some_iff.1 hchain
  have hgd : g = .req d₀ := (Gate.names_refusal he).unique (Gate.names_refusal (g := .req d₀) hd₀)
  subst hgd
  rw [hsnd d]
  by_cases hd : d ∈ before ∧ (limits.req d).isSome
  · obtain ⟨hd, hlim⟩ := hd
    obtain ⟨max, hmax⟩ := Option.isSome_iff_exists.1 hlim
    have hroom : (s.req d).countAt now < max := admits_of_firstFailing hsplit hg hd max hmax
    have hfits : (s.req d).countAt now < u64Max :=
      lt_of_lt_of_le hroom (Limits.le_u64Max_of_req hmax)
    have hset := (requestChain_req_of_some now limits ReqDim.chain [] (by decide) s₁
      (hfst.symm.trans hans) d).2 List.not_mem_nil
    rw [hreq d] at hset
    rcases hset.eq_or_roll hfits with h | h
    · rw [h]
    · rw [h, FixedWindowCounter.countAt_rollIfStale_self]
  · have hnone : d ∈ before → limits.req d = none := fun h => by
      rw [← Option.not_isSome_iff_eq_none]; exact fun hs => hd ⟨h, hs⟩
    have hnd : (before ++ d₀ :: after ++ []).Nodup := by
      rw [List.append_nil, ← hsplit]; exact ReqDim.chain_nodup
    have := requestChain_untouched before after [] s₁ hnd
      (fun d' hd' => by rw [requestRefusal_congr (hreq d')]; exact hbefore d' hd')
      (by rw [requestRefusal_congr (hreq d₀)]; exact hd₀) hnone List.not_mem_nil
    rw [← hsplit, hreq d] at this
    rcases this with h | h
    · rw [h]
    · rw [h, FixedWindowCounter.countAt_rollIfStale_self]

variable (member) in
/-- The answer is the refusal of the first gate without room, unless that gate slips. -/
theorem acquireBody_answer (hslip : ∀ g, Gate.firstFailing now limits s = some g →
    ¬ g.Slips now limits s) :
    (acquireBody now limits member s).1 =
      (Gate.firstFailing now limits s).bind (Gate.refusal now limits s) := by
  rw [(acquireBody_spec now limits member s).refusal, Gate.refusal_eq]
  cases hg : Gate.firstFailing now limits s with
  | none =>
    have hall := List.find?_eq_none.1 hg
    refine List.findSome?_eq_none_iff.2 fun g hmem => Gate.refusal_of_admits ?_
    simpa using hall g hmem
  | some g =>
    obtain ⟨hna, as, bs, horder, has⟩ := List.find?_eq_some_iff_append.1 hg
    have hna : ¬ g.Admits now limits s := by simpa using hna
    obtain ⟨e, he⟩ := Option.ne_none_iff_exists'.1 fun h =>
      hslip g hg ((Gate.refusal_of_not_admits hna).1 h)
    have hfirst : as.findSome? (Gate.refusal now limits s) = none :=
      List.findSome?_eq_none_iff.2 fun g' hg' => Gate.refusal_of_admits (by simpa using has g' hg')
    rw [horder, List.findSome?_append, hfirst, List.findSome?_cons, he]
    simp [he]

theorem acquireBody_tok_current (s : KeyState) (d : TokDim) :
    ((acquireBody now limits member s).2.tok d).countAt now = (s.tok d).countAt now := by
  rcases (acquireBody_spec now limits member s).tok d with h | h
  · rw [h]
  · rw [h, FixedWindowCounter.countAt_rollIfStale_self]

theorem forall_admits_iff :
    (∀ g : Gate, g.Admits now limits s) ↔ Gate.firstFailing now limits s = none := by
  rw [Gate.firstFailing, List.find?_eq_none]
  simp [Gate.mem_order]

theorem acquireBody_allOrNothing
    (hslip : ∀ g, Gate.firstFailing now limits s = some g → ¬ g.Slips now limits s) :
    AllOrNothing now limits member s (acquireBody now limits member s).1
      (acquireBody now limits member s).2 := by
  have hspec := acquireBody_spec now limits member s
  have hanswer := acquireBody_answer member hslip
  have hadmits : (acquireBody now limits member s).1 = none ↔ ∀ g : Gate,
      g.Admits now limits s := by
    rw [forall_admits_iff, hanswer]
    cases hg : Gate.firstFailing now limits s with
    | none => simp
    | some g =>
      have hna := List.find?_some hg
      have hna : ¬ g.Admits now limits s := by simpa using hna
      simp [Gate.refusal_of_not_admits hna, hslip g hg]
  have hnames : ∀ e ∈ (acquireBody now limits member s).1,
      ∃ g, Gate.firstFailing now limits s = some g ∧ g.refusal now limits s = some e := by
    intro e he
    rw [hanswer] at he
    exact Option.bind_eq_some_iff.1 he
  refine ⟨fun href => ?_, fun hok => ?_, hadmits, fun e he => ?_⟩
  · obtain ⟨e, he⟩ := Option.ne_none_iff_exists'.1 href
    obtain ⟨g, hg, hge⟩ := hnames e he
    refine ⟨by rw [hspec.inFlight, if_neg href], hspec.consumed, fun d => ?_, fun d => ?_⟩
    · exact countAt_of_refused hg hge he d
    · exact acquireBody_tok_current s d
  · refine ⟨by rw [hspec.inFlight, if_pos hok]; exact Finset.mem_insert_self _ _, ?_, ?_, ?_⟩
    · intro d max hmax
      have hroom : (s.req d).countAt now < max := hadmits.1 hok (.req d) max hmax
      have hfits := Limits.le_u64Max_of_req hmax
      refine ⟨hroom, ?_⟩
      rw [hspec.req_of_none hok d, if_pos (by rw [hmax]; rfl)]
      simp only [FixedWindowCounter.current_eq, FixedWindowCounter.countAt_add, if_pos]
      exact satAdd_of_lt (by omega)
    · intro d hnone
      rw [hspec.req_of_none hok d, if_neg (by simp [hnone])]
    · exact fun d => acquireBody_tok_current s d
  · obtain ⟨g, hg, hge⟩ := hnames e he
    exact ⟨g, hg, Gate.names_refusal hge⟩

end KeyState

/-- A call is all-or-nothing exactly when the first gate that has no room for it does not slip. -/
theorem LocalStore.acquire_allOrNothing_iff (now : Nat) (key : String) (limits : Limits)
    (member : String) (st : LocalStore) :
    AllOrNothing now limits member (st.stateFor now key) (st.acquire now key limits member).1
        ((st.acquire now key limits member).2.stateFor now key) ↔
      ∀ g, Gate.firstFailing now limits (st.stateFor now key) = some g →
        ¬ g.Slips now limits (st.stateFor now key) := by
  simp only [LocalStore.acquire, LocalStore.stateFor_setState]
  set s := st.stateFor now key
  constructor
  · intro h g hg hslip
    have hna : ¬ g.Admits now limits s := by simpa using List.find?_some hg
    have hsilent := (Gate.refusal_of_not_admits hna).2 hslip
    -- a call that goes on past `g` is admitted, or refused under another gate's name
    cases hans : (s.acquireBody now limits member).1 with
    | none => exact hna (h.admits.1 hans g)
    | some e =>
      obtain ⟨g', hg', hname⟩ := h.names e hans
      obtain rfl : g' = g := Option.some.inj (hg'.symm.trans hg)
      have href : s.refusal now limits = some e := by
        rw [← hans, (KeyState.acquireBody_spec now limits member s).refusal]
      rw [Gate.refusal_eq] at href
      obtain ⟨as, g'', bs, -, he, -⟩ := List.findSome?_eq_some_iff.1 href
      rw [(Gate.names_refusal he).unique hname, hsilent] at he
      cases he
  · exact KeyState.acquireBody_allOrNothing

/-- A full window whose limit is `u64::MAX` lets the request through, and the rollback after the
next refusal takes a unit off it that the call had not added. -/
theorem LocalStore.acquire_takes_back_unadded :
    let full : FixedWindowCounter secondSecs := ⟨7, u64Max⟩
    let st := LocalStore.empty.setState "k" { KeyState.new 7 with rps := full }
    ¬ AllOrNothing 7 { rps := some (UInt64.ofNat u64Max), rpm := some 0 } "m" (st.stateFor 7 "k")
      (st.acquire 7 "k" { rps := some (UInt64.ofNat u64Max), rpm := some 0 } "m").1
      ((st.acquire 7 "k" { rps := some (UInt64.ofNat u64Max), rpm := some 0 } "m").2.stateFor 7
        "k") := by
  intro full st h
  have hread := (h.refused (by decide +kernel)).2.2.1 .rps
  revert hread
  decide +kernel

end RateLimit
end Aisix
