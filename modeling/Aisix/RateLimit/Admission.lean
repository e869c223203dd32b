import Aisix.Lts
import Aisix.RateLimit.LocalStore

/-!
# Aisix.RateLimit.Admission

Concurrent `acquire` calls on one bucket key, all with the limit `limit` on the request dimension
`d`. A call is two atomic steps: it reads the clock, and later it takes the bucket's mutex and runs
the body with that reading. The clock only moves forward, so readings are taken in order, but the
bodies run in any order.

The windows a counter has left behind are forgotten, so the bound per window holds as long as no
body runs with a reading from before the window the counter is in (`InOrder`):

* `Inv.step` — one step meeting `InOrder` keeps the accounting invariant.
* `admitted_le_of_inOrder` — after a run of such steps every window admitted at most `limit`.
* `admitted_exceeds` — without the condition, three calls across a boundary break the bound.
-/

namespace Aisix
namespace RateLimit
namespace Admission

/-- An `acquire` that has read the clock and not yet taken the mutex. -/
structure Call where
  now : Nat
  limits : Limits
  member : String

structure State where
  clock : Nat
  store : LocalStore
  waiting : List Call
  /-- The readings of the calls that returned `Ok`. -/
  admitted : List Nat

inductive Act where
  | tick (secs : Nat)
  | read (limits : Limits) (member : String)
  | body (i : Nat)

def State.init (clock : Nat) : State := ⟨clock, .empty, [], []⟩

section Bound

variable (key : String) (d : ReqDim) (limit : Nat)

/-- Run the body of `call` under the mutex of the bucket. -/
def State.runBody (st : State) (call : Call) (i : Nat) : State :=
  let (refusal, s) := (st.store.stateFor st.clock key).acquireBody call.now call.limits call.member
  { st with
    store := st.store.setState key s
    waiting := st.waiting.eraseIdx i
    admitted := if refusal = none then call.now :: st.admitted else st.admitted }

def step (st : State) : Act → Option State
  | .tick secs => some { st with clock := st.clock + secs }
  | .read limits member =>
    if limits.req d = some limit then
      some { st with waiting := st.waiting ++ [⟨st.clock, limits, member⟩] }
    else none
  | .body i => (st.waiting[i]?).map fun call => st.runBody key call i

/-- The bucket's counter for `d`. -/
def State.counter (st : State) : FixedWindowCounter d.windowSecs :=
  (st.store.stateFor st.clock key).req d

/-- How many calls with a reading in `[k * W, (k + 1) * W)` returned `Ok`. -/
def State.admittedIn (st : State) (k : Nat) : Nat :=
  st.admitted.countP fun now => k * d.windowSecs ≤ now ∧ now < (k + 1) * d.windowSecs

/-- A body runs with a reading no older than the window its counter is in, and its counter is not
saturated at the largest limit there is. -/
def InOrder (st : State) : Act → Prop
  | .body i => ∀ call ∈ st.waiting[i]?,
      (st.counter key d).windowStart ≤ bucketStart d.windowSecs call.now ∧
        ((st.counter key d).count < u64Max ∨ limit < u64Max)
  | _ => True

instance (st : State) : (a : Act) → Decidable (InOrder key d limit st a)
  | .tick _ => inferInstanceAs (Decidable True)
  | .read _ _ => inferInstanceAs (Decidable True)
  | .body i => inferInstanceAs (Decidable (∀ call ∈ st.waiting[i]?,
      (st.counter key d).windowStart ≤ bucketStart d.windowSecs call.now ∧
        ((st.counter key d).count < u64Max ∨ limit < u64Max)))

/-- How many of the readings `l` lie in the window number `k`. -/
def inWindow (l : List Nat) (k : Nat) : Nat := l.countP fun now => now / d.windowSecs = k

/-- The accounting invariant of a counter against the readings admitted so far: the count covers
its own window, and no later window has been entered. -/
structure Accounts (c : FixedWindowCounter d.windowSecs) (admitted : List Nat) : Prop where
  aligned : c.windowStart = c.windowStart / d.windowSecs * d.windowSecs
  count_le : c.count ≤ limit
  covers : inWindow d admitted (c.windowStart / d.windowSecs) ≤ c.count
  later : ∀ k, c.windowStart / d.windowSecs < k → inWindow d admitted k = 0
  bounded : ∀ k, inWindow d admitted k ≤ limit

structure Inv (st : State) : Prop where
  accounts : Accounts d limit (st.counter key d) st.admitted
  waiting : ∀ call ∈ st.waiting, call.limits.req d = some limit

variable {key d limit}

theorem admittedIn_eq (st : State) (k : Nat) : st.admittedIn d k = inWindow d st.admitted k := by
  refine List.countP_congr fun now _ => ?_
  simp only [decide_eq_true_eq, Nat.div_eq_iff d.windowSecs_pos, Nat.succ_mul]
  have := d.windowSecs_pos
  omega

theorem inWindow_cons (now : Nat) (l : List Nat) (k : Nat) :
    inWindow d (now :: l) k = inWindow d l k + if now / d.windowSecs = k then 1 else 0 := by
  simp [inWindow, List.countP_cons]

theorem bucketStart_div (now : Nat) :
    bucketStart d.windowSecs now / d.windowSecs = now / d.windowSecs :=
  Nat.mul_div_cancel _ d.windowSecs_pos

namespace Accounts

variable {c : FixedWindowCounter d.windowSecs} {admitted : List Nat} {now : Nat}

/-- A reading in order is in the counter's window or in a later one, which nobody has entered. -/
theorem same_or_later (h : Accounts d limit c admitted)
    (ho : c.windowStart ≤ bucketStart d.windowSecs now) :
    c.windowStart = bucketStart d.windowSecs now ∨
      c.windowStart / d.windowSecs < now / d.windowSecs ∧ c.countAt now = 0 := by
  rcases Nat.eq_or_lt_of_le ho with heq | hlt
  · exact .inl heq
  · right
    constructor
    · rw [h.aligned] at hlt
      exact Nat.lt_of_mul_lt_mul_right hlt
    · rw [FixedWindowCounter.countAt_eq, if_neg (by omega)]

theorem roll (h : Accounts d limit c admitted) (ho : c.windowStart ≤ bucketStart d.windowSecs now) :
    Accounts d limit (c.rollIfStale now) admitted := by
  rcases h.same_or_later ho with heq | ⟨hlt, hzero⟩
  · rwa [FixedWindowCounter.rollIfStale_of_eq heq]
  · rw [FixedWindowCounter.rollIfStale_eta, hzero]
    constructor
    · simp only [bucketStart_div]; rfl
    · exact Nat.zero_le _
    · simp only [bucketStart_div, h.later _ hlt, le_refl]
    · intro k hk
      rw [bucketStart_div] at hk
      exact h.later k (hlt.trans hk)
    · exact h.bounded

theorem add (h : Accounts d limit c admitted) (ho : c.windowStart ≤ bucketStart d.windowSecs now)
    (hsat : c.count < u64Max ∨ limit < u64Max) (hfits : satAdd (c.countAt now) 1 ≤ limit) :
    Accounts d limit (c.add now 1) (now :: admitted) := by
  have hcount : c.countAt now < u64Max := by
    have := c.countAt_le_count now
    have := h.count_le
    omega
  rw [satAdd_of_lt (by omega)] at hfits
  have hcover : inWindow d admitted (now / d.windowSecs) ≤ c.countAt now := by
    rcases h.same_or_later ho with heq | ⟨hlt, -⟩
    · have := h.covers
      rwa [heq, bucketStart_div, ← show c.countAt now = c.count by
        rw [FixedWindowCounter.countAt_eq, if_pos heq.symm]] at this
    · rw [h.later _ hlt]; exact Nat.zero_le _
  have hle : c.windowStart / d.windowSecs ≤ now / d.windowSecs := by
    rw [← bucketStart_div now]; exact Nat.div_le_div_right ho
  rw [FixedWindowCounter.add_eq, satAdd_of_lt (by omega)]
  constructor
  · simp only [bucketStart_div]; rfl
  · exact hfits
  · simp only [bucketStart_div, inWindow_cons, if_true]; omega
  · intro k hk
    rw [bucketStart_div] at hk
    rw [inWindow_cons, if_neg (by omega), h.later k (by omega)]
  · intro k
    rw [inWindow_cons]
    split
    next hk => subst hk; omega
    next => exact h.bounded k

end Accounts

theorem Inv.init (clock : Nat) : Inv key d limit (State.init clock) where
  accounts := by
    have hc : (State.init clock).counter key d = .new d.windowSecs := KeyState.req_new clock d
    rw [hc]
    exact ⟨by simp [FixedWindowCounter.new], Nat.zero_le _, Nat.zero_le _, fun _ _ => rfl,
      fun _ => Nat.zero_le _⟩
  waiting := by simp [State.init]

/-- The counter does not depend on the clock: a bucket that is not there yet starts from zero. -/
theorem counter_congr {st st' : State} (h : st'.store = st.store) :
    st'.counter key d = st.counter key d := by
  simp only [State.counter, LocalStore.stateFor, h]
  cases st.store.states key <;> simp

/-- One body in order keeps the accounts, whatever the other limits make of the call. -/
theorem Inv.runBody {st : State} {call : Call} {i : Nat} (h : Inv key d limit st)
    (hlim : call.limits.req d = some limit)
    (ho : (st.counter key d).windowStart ≤ bucketStart d.windowSecs call.now)
    (hsat : (st.counter key d).count < u64Max ∨ limit < u64Max) :
    Accounts d limit ((st.runBody key call i).counter key d) (st.runBody key call i).admitted := by
  have hspec := KeyState.acquireBody_spec call.now call.limits call.member
    (st.store.stateFor st.clock key)
  have hcounter : (st.store.stateFor st.clock key).req d = st.counter key d := rfl
  simp only [State.runBody, State.counter, LocalStore.stateFor_setState]
  by_cases hr : ((st.store.stateFor st.clock key).acquireBody call.now call.limits
      call.member).1 = none
  · rw [if_pos hr, hspec.req_of_none hr d, hlim, Option.isSome_some, if_pos rfl, hcounter]
    refine h.accounts.add ho hsat ?_
    -- the call was admitted, so its own limit did not refuse it
    rw [hspec.refusal, KeyState.refusal_eq_none_iff] at hr
    exact (KeyState.requestRefusal_eq_none_iff hlim).1 (hr.2.2.2 d)
  · rw [if_neg hr]
    have hcount : (st.counter key d).countAt call.now < u64Max := by
      have := (st.counter key d).countAt_le_count call.now
      have := h.accounts.count_le
      omega
    rcases (hspec.req_of_some hr d).eq_or_roll hcount with heq | heq
    · rw [heq]; exact h.accounts
    · rw [heq]; exact h.accounts.roll ho

theorem Inv.step {st st' : State} {a : Act} (h : Inv key d limit st) (ho : InOrder key d limit st a)
    (hs : step key d limit st a = some st') : Inv key d limit st' := by
  cases a with
  | tick secs =>
    obtain rfl : _ = st' := Option.some.inj hs
    have hc : ({ st with clock := st.clock + secs } : State).counter key d = st.counter key d :=
      counter_congr rfl
    exact ⟨hc.symm ▸ h.accounts, h.waiting⟩
  | read limits member =>
    simp only [Admission.step, Option.ite_none_right_eq_some, Option.some.injEq] at hs
    obtain ⟨hlim, rfl⟩ := hs
    refine ⟨h.accounts, fun call hcall => ?_⟩
    rcases List.mem_append.1 hcall with hcall | hcall
    · exact h.waiting call hcall
    · rw [List.mem_singleton.1 hcall]; exact hlim
  | body i =>
    simp only [Admission.step, Option.map_eq_some_iff] at hs
    obtain ⟨call, hcall, rfl⟩ := hs
    have hlim := h.waiting call (List.mem_of_getElem? hcall)
    obtain ⟨horder, hsat⟩ := ho call hcall
    exact ⟨h.runBody hlim horder hsat, fun c hc => h.waiting c (List.mem_of_mem_eraseIdx hc)⟩

/-- Every window admits at most the limit in a run whose bodies come in order. -/
theorem admitted_le_of_inOrder {clock : Nat} {acts : List Act} {st : State}
    (hm : Lts.Meets (step key d limit) (InOrder key d limit) (State.init clock) acts)
    (hr : Lts.run (step key d limit) (State.init clock) acts = some st) (k : Nat) :
    st.admittedIn d k ≤ limit := by
  have hinv := Lts.run_invariant_of_meets (fun _ _ _ h ho hs => Inv.step h ho hs)
    (Inv.init clock) hm hr
  rw [admittedIn_eq]
  exact hinv.accounts.bounded k

end Bound

/-- One request a minute. -/
def oneRpm : Limits := { rpm := some 1 }

/-- The calls `a` and `b` read the clock in the last second of a minute and `c` in the first second
of the next one; `b` takes the mutex last. -/
def crossing : List Act :=
  [.read oneRpm "a", .read oneRpm "b", .tick 1, .read oneRpm "c", .body 0, .body 1, .body 0]

/-- The same calls, each taking the mutex before the next one reads the clock. -/
def inTurn : List Act :=
  [.read oneRpm "a", .body 0, .read oneRpm "b", .body 0, .tick 1, .read oneRpm "c", .body 0]

theorem admitted_le_inTurn :
    ∃ st, Lts.run (step "k" .rpm 1) (State.init 59) inTurn = some st ∧
      st.admittedIn .rpm 0 ≤ 1 := by
  obtain ⟨st, hst⟩ := Option.isSome_iff_exists.1
    (show (Lts.run (step "k" .rpm 1) (State.init 59) inTurn).isSome by decide)
  exact ⟨st, hst, admitted_le_of_inOrder (by decide) hst 0⟩

/-- A body that runs with a reading from the window before resets the counter of the new one. -/
theorem admitted_exceeds :
    ¬ ∀ acts st, Lts.run (step "k" .rpm 1) (State.init 59) acts = some st →
      ∀ k, st.admittedIn .rpm k ≤ 1 := by
  intro h
  have hrun : (Lts.run (step "k" .rpm 1) (State.init 59) crossing).map (State.admittedIn .rpm · 0) =
      some 2 := by decide
  obtain ⟨st, hst, htwo⟩ := Option.map_eq_some_iff.1 hrun
  have := h crossing st hst 0
  omega

end Admission
end RateLimit
end Aisix
