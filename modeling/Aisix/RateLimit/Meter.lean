import Aisix.RateLimit.LocalStore

/-!
# Aisix.RateLimit.Meter

What a key's bucket reads at one second, and how each operation of the local store moves it: the
three token windows and the cumulative total (`Meter`), which `commit` and `add_tokens` charge
alike, and the members in flight. A key without a bucket reads like a new one.
-/

namespace Aisix
namespace RateLimit

/-- The counters that `commit` and `add_tokens` charge. -/
inductive Meter where
  | window (d : TokDim)
  | total
  deriving DecidableEq

namespace KeyState

def reading (s : KeyState) (now : Nat) : Meter → Nat
  | .window d => (s.tok d).countAt now
  | .total => s.consumedMicroUsd

theorem reading_charge (s : KeyState) (now tokens : Nat) (m : Meter) :
    (s.charge now tokens).reading now m = satAdd (s.reading now m) tokens := by
  cases m with
  | total => rfl
  | window d =>
    have htok : (s.charge now tokens).tok d = (s.tok d).add now tokens := by cases d <;> rfl
    rw [reading, htok, FixedWindowCounter.countAt_add, if_pos rfl]; rfl

theorem reading_congr {s s' : KeyState} (htok : ∀ d, s'.tok d = s.tok d)
    (htotal : s'.consumedMicroUsd = s.consumedMicroUsd) (now : Nat) (m : Meter) :
    s'.reading now m = s.reading now m := by
  cases m with
  | total => exact htotal
  | window d => rw [reading, htok]; rfl

theorem reading_acquireBody (s : KeyState) (now : Nat) (limits : Limits) (member : String)
    (m : Meter) : (s.acquireBody now limits member).2.reading now m = s.reading now m := by
  have hspec := acquireBody_spec now limits member s
  cases m with
  | total => exact hspec.consumed
  | window d =>
    rw [reading]
    rcases hspec.tok d with h | h
    · rw [h]; rfl
    · rw [h, FixedWindowCounter.countAt_rollIfStale_self]; rfl

end KeyState

namespace LocalStore

variable {st : LocalStore} {key k member : String} {now : Nat} {m : Meter}

def reading (st : LocalStore) (now : Nat) (key : String) (m : Meter) : Nat :=
  (st.stateFor now key).reading now m

def inFlight (st : LocalStore) (key : String) : Finset String :=
  ((st.states key).map (·.inFlight)).getD ∅

variable (now) in
theorem inFlight_eq_stateFor : st.inFlight key = (st.stateFor now key).inFlight := by
  unfold inFlight stateFor
  cases st.states key <;> rfl

theorem reading_setState (s : KeyState) :
    (st.setState k s).reading now key m =
      if k = key then s.reading now m else st.reading now key m := by
  unfold reading
  split
  next h => subst h; rw [stateFor_setState]
  next h => rw [stateFor_setState_of_ne st (Ne.symm h)]

theorem inFlight_setState (s : KeyState) :
    (st.setState k s).inFlight key = if k = key then s.inFlight else st.inFlight key := by
  rw [inFlight_eq_stateFor 0]
  split
  next h => subst h; rw [stateFor_setState]
  next h => rw [stateFor_setState_of_ne st (Ne.symm h), ← inFlight_eq_stateFor 0]

theorem reading_setState_of_eq {s : KeyState}
    (h : s.reading now m = (st.stateFor now k).reading now m) :
    (st.setState k s).reading now key m = st.reading now key m := by
  rw [reading_setState]
  split
  next hk => subst hk; exact h
  next => rfl

variable (now) in
theorem inFlight_setState_of_eq {s : KeyState} (h : s.inFlight = (st.stateFor now k).inFlight) :
    (st.setState k s).inFlight key = st.inFlight key := by
  rw [inFlight_setState]
  split
  next hk => subst hk; rw [h, inFlight_eq_stateFor now]
  next => rfl

theorem reading_acquire (limits : Limits) :
    (st.acquire now k limits member).2.reading now key m = st.reading now key m :=
  reading_setState_of_eq (KeyState.reading_acquireBody _ now limits member m)

theorem reading_commit (tokens : Nat) :
    (st.commit now k tokens member).reading now key m =
      if k = key then satAdd (st.reading now key m) tokens else st.reading now key m := by
  rw [commit, reading_setState]
  split
  next h =>
    subst h
    exact (KeyState.reading_congr (s := (st.stateFor now k).charge now tokens)
      (fun d => by cases d <;> rfl) rfl now m).trans (KeyState.reading_charge ..)
  next => rfl

theorem reading_addTokens (hcap : st.reading now key m ≤ u64Max) (tokens : Nat) :
    (st.addTokens now k tokens).reading now key m =
      if k = key then satAdd (st.reading now key m) tokens else st.reading now key m := by
  unfold addTokens
  split
  next h => subst h; rw [satAdd_zero hcap, ite_self]
  next =>
    rw [reading_setState]
    split
    next h =>
      subst h
      exact (KeyState.reading_congr (s := (st.stateFor now k).charge now tokens)
        (fun d => by cases d <;> rfl) rfl now m).trans (KeyState.reading_charge ..)
    next => rfl

theorem reading_release (at_ : Nat) :
    (st.release at_ k member).reading now key m = st.reading now key m := by
  unfold release
  cases h : st.states k with
  | none => rfl
  | some s =>
    refine reading_setState_of_eq ?_
    rw [stateFor, h]
    exact KeyState.reading_congr (fun d => by cases d <;> rfl) rfl now m

theorem reading_noteAllowance (limits : Limits) :
    (st.noteAllowance now k limits).reading now key m = st.reading now key m := by
  unfold noteAllowance
  split
  · exact reading_setState_of_eq (KeyState.reading_congr (fun d => by cases d <;> rfl) rfl now m)
  · cases h : st.states k with
    | none => rfl
    | some s =>
      refine reading_setState_of_eq ?_
      rw [stateFor, h]
      exact KeyState.reading_congr (fun d => by cases d <;> rfl) rfl now m

theorem inFlight_commit (tokens : Nat) :
    (st.commit now k tokens member).inFlight key =
      if k = key then (st.inFlight key).erase member else st.inFlight key := by
  rw [commit, inFlight_setState]
  split
  next h => subst h; rw [inFlight_eq_stateFor now]; rfl
  next => rfl

theorem inFlight_addTokens (tokens : Nat) :
    (st.addTokens now k tokens).inFlight key = st.inFlight key := by
  unfold addTokens
  split
  · rfl
  · exact inFlight_setState_of_eq now rfl

theorem inFlight_release :
    (st.release now k member).inFlight key =
      if k = key then (st.inFlight key).erase member else st.inFlight key := by
  unfold release
  cases h : st.states k with
  | none =>
    dsimp only
    split
    next hk => subst hk; simp [inFlight, h]
    next => rfl
  | some s =>
    dsimp only
    rw [inFlight_setState]
    split
    next hk => subst hk; simp [inFlight, h, KeyState.releaseBody]
    next => rfl

/-- No token counter is in a window after `now`: the clock has not gone back. -/
def NotAhead (now : Nat) (st : LocalStore) : Prop :=
  ∀ key, ∀ s ∈ st.states key, ∀ d, (s.tok d).windowStart ≤ now

theorem NotAhead.stateFor (h : st.NotAhead now) (key : String) (d : TokDim) :
    ((st.stateFor now key).tok d).windowStart ≤ now := by
  unfold LocalStore.stateFor
  cases hs : st.states key with
  | none => simp [FixedWindowCounter.new]
  | some s => exact h key s hs d

theorem NotAhead.setState (h : st.NotAhead now) {s : KeyState}
    (hs : ∀ d, (s.tok d).windowStart ≤ now) : (st.setState k s).NotAhead now := by
  intro key s' hs'
  by_cases hk : key = k
  · subst hk
    obtain rfl : s = s' := by simpa using hs'
    exact hs
  · rw [states_setState_of_ne st hk] at hs'
    exact h key s' hs'

theorem NotAhead.commit (h : st.NotAhead now) (tokens : Nat) :
    (st.commit now k tokens member).NotAhead now :=
  h.setState fun d => by
    cases d <;> exact (FixedWindowCounter.add_windowStart ..).trans_le (bucketStart_le ..)

theorem NotAhead.addTokens (h : st.NotAhead now) (tokens : Nat) :
    (st.addTokens now k tokens).NotAhead now := by
  unfold LocalStore.addTokens
  split
  · exact h
  · exact h.setState fun d => by
      cases d <;> exact (FixedWindowCounter.add_windowStart ..).trans_le (bucketStart_le ..)

theorem NotAhead.release (h : st.NotAhead now) : (st.release now k member).NotAhead now := by
  unfold LocalStore.release
  cases hs : st.states k with
  | none => exact h
  | some s =>
    refine h.setState fun d => ?_
    have htok : (s.releaseBody now member).tok d = s.tok d := by cases d <;> rfl
    rw [htok]
    exact h k s hs d

theorem NotAhead.reading (h : st.NotAhead now) {t : Nat} (ht : now ≤ t) (key : String) (m : Meter) :
    st.reading t key m =
      match m with
      | .window d =>
        if bucketStart d.windowSecs t =
          bucketStart d.windowSecs now then st.reading now key m else 0
      | .total => st.reading now key m := by
  have hstate : ∀ m, st.reading t key m = (st.stateFor now key).reading t m := by
    intro m
    unfold LocalStore.reading LocalStore.stateFor
    cases st.states key with
    | some s => rfl
    | none =>
      cases m with
      | window d => simp [KeyState.reading]
      | total => rfl
  rw [hstate]
  cases m with
  | window d => exact FixedWindowCounter.countAt_of_le (h.stateFor key d) ht
  | total => rfl

end LocalStore
end RateLimit
end Aisix
