import Aisix.RateLimit.Window
import Mathlib.Data.Finset.Card

/-!
# Aisix.RateLimit.KeyState

What the limiter's stores agree on (the dimensions and their windows, the limits a request carries,
the errors a refusal answers with) and the state the local store keeps behind one bucket key.

The seven counters are the source's named fields; `req`/`tok` and `setReq`/`setTok` reach them by
dimension, so that the operations can be written once for the whole family.
-/

namespace Aisix
namespace RateLimit

def secondSecs : Nat := 1
def minuteSecs : Nat := 60
def hourSecs : Nat := 60 * 60
def daySecs : Nat := 24 * 60 * 60

/-- The windows that count requests. -/
inductive ReqDim where
  | rps | rpm | rph | rpd
  deriving DecidableEq, Repr

/-- The windows that count tokens; there is no per-second one. -/
inductive TokDim where
  | tpm | tph | tpd
  deriving DecidableEq, Repr

namespace ReqDim

@[reducible] def windowSecs : ReqDim → Nat
  | rps => secondSecs
  | rpm => minuteSecs
  | rph => hourSecs
  | rpd => daySecs

def name : ReqDim → String
  | rps => "rps"
  | rpm => "rpm"
  | rph => "rph"
  | rpd => "rpd"

theorem windowSecs_pos (d : ReqDim) : 0 < d.windowSecs := by cases d <;> decide

/-- The order in which a request is counted. -/
def chain : List ReqDim := [rps, rpm, rph, rpd]

theorem mem_chain (d : ReqDim) : d ∈ chain := by cases d <;> decide

theorem chain_nodup : chain.Nodup := by decide

end ReqDim

namespace TokDim

@[reducible] def windowSecs : TokDim → Nat
  | tpm => minuteSecs
  | tph => hourSecs
  | tpd => daySecs

def name : TokDim → String
  | tpm => "tpm"
  | tph => "tph"
  | tpd => "tpd"

theorem windowSecs_pos (d : TokDim) : 0 < d.windowSecs := by cases d <;> decide

def chain : List TokDim := [tpm, tph, tpd]

theorem mem_chain (d : TokDim) : d ∈ chain := by cases d <;> decide

end TokDim

/-- The limits a bucket is asked to enforce; an absent one is not checked. -/
structure Limits where
  tpm : Option UInt64 := none
  tph : Option UInt64 := none
  tpd : Option UInt64 := none
  rps : Option UInt64 := none
  rpm : Option UInt64 := none
  rph : Option UInt64 := none
  rpd : Option UInt64 := none
  concurrency : Option UInt32 := none
  grantedMicroUsd : Option UInt64 := none
  deriving DecidableEq

namespace Limits

def req (limits : Limits) (d : ReqDim) : Option Nat :=
  (match d with
    | .rps => limits.rps
    | .rpm => limits.rpm
    | .rph => limits.rph
    | .rpd => limits.rpd).map UInt64.toNat

def tok (limits : Limits) (d : TokDim) : Option Nat :=
  (match d with
    | .tpm => limits.tpm
    | .tph => limits.tph
    | .tpd => limits.tpd).map UInt64.toNat

def maxConcurrency (limits : Limits) : Option Nat := limits.concurrency.map UInt32.toNat

def granted (limits : Limits) : Option Nat := limits.grantedMicroUsd.map UInt64.toNat

theorem le_u64Max_of_req {limits : Limits} {d : ReqDim} {max : Nat} (h : limits.req d = some max) :
    max ≤ u64Max := by
  obtain ⟨a, -, rfl⟩ := Option.map_eq_some_iff.1 h
  have := a.toNat_lt
  simp only [u64Max]; omega

end Limits

inductive RateLimitScope where
  | requests
  | tokens
  deriving DecidableEq, Repr

/-- The single limit that produced a rejection, and its state at that moment. -/
structure LimitDetail where
  dimension : String
  limit : Nat
  remaining : Nat
  resetSecs : Nat
  deriving DecidableEq, Repr

def concurrencyRetryAfterSecs : Nat := 60

def concurrencyDimension : String := "concurrency"

namespace LimitDetail

def window (dimension : String) (limit used resetSecs : Nat) : LimitDetail :=
  { dimension, limit, remaining := limit - used, resetSecs }

def concurrency (limit inFlight : Nat) : LimitDetail :=
  { dimension := concurrencyDimension
    limit
    remaining := limit - inFlight
    resetSecs := concurrencyRetryAfterSecs }

end LimitDetail

inductive RateLimitError where
  | requests (scope : RateLimitScope) (detail : LimitDetail)
  | tokens (scope : RateLimitScope) (detail : LimitDetail)
  | concurrency (detail : LimitDetail)
  | allowanceExhausted
  deriving DecidableEq, Repr

/-- The state behind one bucket key, guarded by one mutex. -/
structure KeyState where
  rps : FixedWindowCounter secondSecs
  rpm : FixedWindowCounter minuteSecs
  rph : FixedWindowCounter hourSecs
  rpd : FixedWindowCounter daySecs
  tpm : FixedWindowCounter minuteSecs
  tph : FixedWindowCounter hourSecs
  tpd : FixedWindowCounter daySecs
  consumedMicroUsd : Nat
  carriesAllowance : Bool
  inFlight : Finset String
  lastTouched : Nat

namespace KeyState

def new (now : Nat) : KeyState where
  rps := .new secondSecs
  rpm := .new minuteSecs
  rph := .new hourSecs
  rpd := .new daySecs
  tpm := .new minuteSecs
  tph := .new hourSecs
  tpd := .new daySecs
  consumedMicroUsd := 0
  carriesAllowance := false
  inFlight := ∅
  lastTouched := now

def req (s : KeyState) : (d : ReqDim) → FixedWindowCounter d.windowSecs
  | .rps => s.rps
  | .rpm => s.rpm
  | .rph => s.rph
  | .rpd => s.rpd

def setReq (s : KeyState) : (d : ReqDim) → FixedWindowCounter d.windowSecs → KeyState
  | .rps, c => { s with rps := c }
  | .rpm, c => { s with rpm := c }
  | .rph, c => { s with rph := c }
  | .rpd, c => { s with rpd := c }

def tok (s : KeyState) : (d : TokDim) → FixedWindowCounter d.windowSecs
  | .tpm => s.tpm
  | .tph => s.tph
  | .tpd => s.tpd

def setTok (s : KeyState) : (d : TokDim) → FixedWindowCounter d.windowSecs → KeyState
  | .tpm, c => { s with tpm := c }
  | .tph, c => { s with tph := c }
  | .tpd, c => { s with tpd := c }

@[simp] theorem req_new (now : Nat) (d : ReqDim) : (new now).req d = .new d.windowSecs := by
  cases d <;> rfl

@[simp] theorem tok_new (now : Nat) (d : TokDim) : (new now).tok d = .new d.windowSecs := by
  cases d <;> rfl

@[simp] theorem req_setReq (s : KeyState) (d : ReqDim) (c) : (s.setReq d c).req d = c := by
  cases d <;> rfl

theorem req_setReq_of_ne (s : KeyState) {d d' : ReqDim} (h : d' ≠ d) (c) :
    (s.setReq d c).req d' = s.req d' := by
  cases d <;> cases d' <;> first | rfl | exact absurd rfl h

@[simp] theorem tok_setTok (s : KeyState) (d : TokDim) (c) : (s.setTok d c).tok d = c := by
  cases d <;> rfl

theorem tok_setTok_of_ne (s : KeyState) {d d' : TokDim} (h : d' ≠ d) (c) :
    (s.setTok d c).tok d' = s.tok d' := by
  cases d <;> cases d' <;> first | rfl | exact absurd rfl h

/-- Write the flag that says whether the bucket carries a cumulative allowance. -/
def markAllowance (s : KeyState) (carries : Bool) : KeyState :=
  { s with carriesAllowance := carries }

/-- Give `member` a concurrency slot. -/
def takeSlot (s : KeyState) (now : Nat) (member : String) : KeyState :=
  { s with inFlight := insert member s.inFlight, lastTouched := now }

@[simp] theorem req_markAllowance (s : KeyState) (b : Bool) (d : ReqDim) :
    (s.markAllowance b).req d = s.req d := by cases d <;> rfl

@[simp] theorem tok_markAllowance (s : KeyState) (b : Bool) (d : TokDim) :
    (s.markAllowance b).tok d = s.tok d := by cases d <;> rfl

@[simp] theorem req_takeSlot (s : KeyState) (now : Nat) (m : String) (d : ReqDim) :
    (s.takeSlot now m).req d = s.req d := by cases d <;> rfl

@[simp] theorem tok_takeSlot (s : KeyState) (now : Nat) (m : String) (d : TokDim) :
    (s.takeSlot now m).tok d = s.tok d := by cases d <;> rfl

/-- The two states agree on everything but the request counters. -/
structure SameBesidesReq (s s' : KeyState) : Prop where
  tok : ∀ d, s'.tok d = s.tok d
  consumed : s'.consumedMicroUsd = s.consumedMicroUsd
  carries : s'.carriesAllowance = s.carriesAllowance
  inFlight : s'.inFlight = s.inFlight
  lastTouched : s'.lastTouched = s.lastTouched

/-- The two states agree on everything but the token counters. -/
structure SameBesidesTok (s s' : KeyState) : Prop where
  req : ∀ d, s'.req d = s.req d
  consumed : s'.consumedMicroUsd = s.consumedMicroUsd
  carries : s'.carriesAllowance = s.carriesAllowance
  inFlight : s'.inFlight = s.inFlight
  lastTouched : s'.lastTouched = s.lastTouched

theorem SameBesidesReq.refl (s : KeyState) : SameBesidesReq s s :=
  ⟨fun _ => rfl, rfl, rfl, rfl, rfl⟩

theorem SameBesidesReq.trans {s s' s'' : KeyState} (h : SameBesidesReq s s')
    (h' : SameBesidesReq s' s'') : SameBesidesReq s s'' where
  tok d := (h'.tok d).trans (h.tok d)
  consumed := h'.consumed.trans h.consumed
  carries := h'.carries.trans h.carries
  inFlight := h'.inFlight.trans h.inFlight
  lastTouched := h'.lastTouched.trans h.lastTouched

theorem SameBesidesReq.setReq (s : KeyState) (d : ReqDim) (c) :
    SameBesidesReq s (s.setReq d c) := by
  constructor
  case tok => intro d'; cases d <;> rfl
  all_goals cases d <;> rfl

theorem SameBesidesTok.refl (s : KeyState) : SameBesidesTok s s :=
  ⟨fun _ => rfl, rfl, rfl, rfl, rfl⟩

theorem SameBesidesTok.trans {s s' s'' : KeyState} (h : SameBesidesTok s s')
    (h' : SameBesidesTok s' s'') : SameBesidesTok s s'' where
  req d := (h'.req d).trans (h.req d)
  consumed := h'.consumed.trans h.consumed
  carries := h'.carries.trans h.carries
  inFlight := h'.inFlight.trans h.inFlight
  lastTouched := h'.lastTouched.trans h.lastTouched

theorem SameBesidesTok.setTok (s : KeyState) (d : TokDim) (c) :
    SameBesidesTok s (s.setTok d c) := by
  constructor
  case req => intro d'; cases d <;> rfl
  all_goals cases d <;> rfl

end KeyState
end RateLimit
end Aisix
