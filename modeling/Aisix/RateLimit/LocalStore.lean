import Aisix.RateLimit.Bucket
import Mathlib.Logic.Function.Basic

/-!
# Aisix.RateLimit.LocalStore

The in-process store: the map of buckets and the map of one-shot claims, with every operation of
`RateStore` run to its end at one clock reading `now`. `Admission` and `Slots` take the same bodies
apart into the steps that other threads can come between.
-/

namespace Aisix
namespace RateLimit

structure LocalStore where
  states : String → Option KeyState
  /-- `claim_once` markers, expiring at the stored second. -/
  claims : String → Option Nat

namespace LocalStore

def empty : LocalStore := ⟨fun _ => none, fun _ => none⟩

/-- The bucket's state, a new one if the key has none. -/
def stateFor (st : LocalStore) (now : Nat) (key : String) : KeyState :=
  (st.states key).getD (KeyState.new now)

def setState (st : LocalStore) (key : String) (s : KeyState) : LocalStore :=
  { st with states := Function.update st.states key (some s) }

def acquire (now : Nat) (key : String) (limits : Limits) (member : String) (st : LocalStore) :
    Option RateLimitError × LocalStore :=
  let (r, s) := (st.stateFor now key).acquireBody now limits member
  (r, st.setState key s)

def commit (now : Nat) (key : String) (tokens : Nat) (member : String) (st : LocalStore) :
    LocalStore :=
  st.setState key ((st.stateFor now key).commitBody now tokens member)

/-- Non-inserting: a release for a bucket that was never acquired is a no-op. -/
def release (now : Nat) (key : String) (member : String) (st : LocalStore) : LocalStore :=
  match st.states key with
  | some s => st.setState key (s.releaseBody now member)
  | none => st

def addTokens (now : Nat) (key : String) (tokens : Nat) (st : LocalStore) : LocalStore :=
  if tokens = 0 then st
  else st.setState key ((st.stateFor now key).addTokensBody now tokens)

def noteAllowance (now : Nat) (key : String) (limits : Limits) (st : LocalStore) : LocalStore :=
  if limits.granted.isSome then st.setState key ((st.stateFor now key).markAllowance true)
  else
    match st.states key with
    | some s => st.setState key (s.markAllowance false)
    | none => st

/-- Whether `reap` leaves a bucket in place. -/
def retained (cutoff : Nat) (s : KeyState) : Bool :=
  s.inFlight.Nonempty || s.lastTouched ≥ cutoff || (s.carriesAllowance && s.consumedMicroUsd > 0)

def reap (now idleFor : Nat) (st : LocalStore) : LocalStore :=
  { st with states := fun key => (st.states key).filter (retained (now - idleFor)) }

/-- The claims that `claim_once` retains: those whose own deadline has not passed. -/
def liveClaims (now : Nat) (st : LocalStore) (key : String) : Option Nat :=
  (st.claims key).filter (· > now)

def claimOnce (now : Nat) (key : String) (ttl : Nat) (st : LocalStore) : Bool × LocalStore :=
  let claims := st.liveClaims now
  match claims key with
  | some _ => (false, { st with claims })
  | none => (true, { st with claims := Function.update claims key (some (satAdd now (max ttl 1))) })

@[simp] theorem states_setState (st : LocalStore) (key : String) (s : KeyState) :
    (st.setState key s).states key = some s := Function.update_self ..

theorem states_setState_of_ne (st : LocalStore) {key key' : String} (h : key' ≠ key)
    (s : KeyState) :
    (st.setState key s).states key' = st.states key' := Function.update_of_ne h _ _

@[simp] theorem stateFor_setState (st : LocalStore) (key : String) (s : KeyState) (now : Nat) :
    (st.setState key s).stateFor now key = s := by simp [stateFor]

theorem stateFor_setState_of_ne (st : LocalStore) {key key' : String} (h : key' ≠ key)
    (s : KeyState) (now : Nat) : (st.setState key s).stateFor now key' = st.stateFor now key' := by
  simp [stateFor, states_setState_of_ne st h]

theorem liveClaims_of_lt {now e : Nat} {key : String} {st : LocalStore} (h : st.claims key = some e)
    (he : now < e) : st.liveClaims now key = some e := by simp [liveClaims, h, he]

theorem claimOnce_fst (now : Nat) (key : String) (ttl : Nat) (st : LocalStore) :
    (st.claimOnce now key ttl).1 = !(st.liveClaims now key).isSome := by
  cases h : st.liveClaims now key <;> simp only [claimOnce, h] <;> rfl

theorem claims_claimOnce_self {now : Nat} {key : String} {ttl : Nat} {st : LocalStore}
    (h : st.liveClaims now key = none) :
    (st.claimOnce now key ttl).2.claims key = some (satAdd now (max ttl 1)) := by
  simp only [claimOnce, h, Function.update_self]

theorem claims_claimOnce_keeps {now : Nat} {key key' : String} {ttl e : Nat} {st : LocalStore}
    (h : st.claims key = some e) (he : now < e) :
    (st.claimOnce now key' ttl).2.claims key = some e := by
  have hlive := liveClaims_of_lt h he
  cases hk : st.liveClaims now key' with
  | some _ => simp only [claimOnce, hk, hlive]
  | none =>
    have hne : key ≠ key' := fun heq => by rw [← heq, hlive] at hk; cases hk
    simp only [claimOnce, hk, Function.update_of_ne hne, hlive]

end LocalStore
end RateLimit
end Aisix
