import Mathlib.Algebra.Order.Ring.Nat
import Mathlib.Data.Nat.Basic

/-!
# Aisix.RateLimit.Window

The fixed-window counter of `window.rs`. A counter belongs to one window length, which is a
parameter of its type; `count` and `windowStart` are the source's `u64` fields, with its saturating
arithmetic.

`countAt c now` is the value the counter shows to a reader at `now`: every operation of the source
rolls first, so it decides by this value alone, and the lemmas below say what each operation does
to it.
-/

namespace Aisix

/-- `u64::MAX`. -/
def u64Max : Nat := 2 ^ 64 - 1

/-- `u64::saturating_add`. -/
def satAdd (a b : Nat) : Nat := min (a + b) u64Max

theorem satAdd_zero {a : Nat} (h : a ≤ u64Max) : satAdd a 0 = a := by simp [satAdd, h]

theorem satAdd_le (a b : Nat) : satAdd a b ≤ u64Max := Nat.min_le_right _ _

theorem satAdd_of_lt {a b : Nat} (h : a + b ≤ u64Max) : satAdd a b = a + b := Nat.min_eq_left h

theorem satAdd_eq_min {a b c : Nat} (h : a = min b u64Max) : satAdd a c = min (b + c) u64Max := by
  simp only [satAdd, h]; omega

namespace RateLimit

/-- Result of attempting to reserve capacity. -/
inductive WindowCheck where
  | ok
  | full (retryAfterSecs : Nat)
  deriving DecidableEq, Repr

/-- A counter that resets at the start of every new window of `windowSecs` seconds. -/
@[ext] structure FixedWindowCounter (windowSecs : Nat) where
  windowStart : Nat
  count : Nat
  deriving DecidableEq, Repr

/-- The start of the window that `now` lies in. -/
def bucketStart (windowSecs now : Nat) : Nat := now / windowSecs * windowSecs

theorem bucketStart_le (w now : Nat) : bucketStart w now ≤ now := Nat.div_mul_le_self now w

theorem sub_bucketStart (w now : Nat) : now - bucketStart w now = now % w := by
  have := Nat.div_add_mod now w
  rw [Nat.mul_comm] at this
  simp only [bucketStart]; omega

/-- A reading between the start of a window and a reading in it lies in the same window. -/
theorem bucketStart_eq_of_between {w t t' : Nat} (h : bucketStart w t' ≤ t) (h' : t ≤ t') :
    bucketStart w t = bucketStart w t' := by
  rcases Nat.eq_zero_or_pos w with rfl | hw
  · simp [bucketStart]
  · have hle : t / w ≤ t' / w := Nat.div_le_div_right h'
    have hge : t' / w ≤ t / w := (Nat.le_div_iff_mul_le hw).2 h
    simp only [bucketStart, Nat.le_antisymm hle hge]

namespace FixedWindowCounter

variable {w : Nat}

def new (w : Nat) : FixedWindowCounter w := ⟨0, 0⟩

def rollIfStale (c : FixedWindowCounter w) (now : Nat) : FixedWindowCounter w :=
  if bucketStart w now ≠ c.windowStart then ⟨bucketStart w now, 0⟩ else c

/-- Seconds until the window that contains `now` rolls over, never less than one. -/
def remainder (c : FixedWindowCounter w) (now : Nat) : Nat := max (w - (now - c.windowStart)) 1

def checkAndIncrement (c : FixedWindowCounter w) (now delta limit : Nat) :
    WindowCheck × FixedWindowCounter w :=
  let c := c.rollIfStale now
  let wouldBe := satAdd c.count delta
  if wouldBe > limit then (.full (c.remainder now), c) else (.ok, { c with count := wouldBe })

def add (c : FixedWindowCounter w) (now delta : Nat) : FixedWindowCounter w :=
  let c := c.rollIfStale now
  { c with count := satAdd c.count delta }

/-- No-op when `now` falls outside the current window. -/
def decrement (c : FixedWindowCounter w) (now delta : Nat) : FixedWindowCounter w :=
  if bucketStart w now = c.windowStart then { c with count := c.count - delta } else c

def current (c : FixedWindowCounter w) (now : Nat) : Nat × FixedWindowCounter w :=
  let c := c.rollIfStale now
  (c.count, c)

def isExceeded (c : FixedWindowCounter w) (now limit : Nat) : Option Nat × FixedWindowCounter w :=
  let c := c.rollIfStale now
  (if c.count ≥ limit then some (c.remainder now) else none, c)

/-- The count a reader at `now` sees. -/
def countAt (c : FixedWindowCounter w) (now : Nat) : Nat := (c.rollIfStale now).count

@[simp] theorem rollIfStale_windowStart (c : FixedWindowCounter w) (now : Nat) :
    (c.rollIfStale now).windowStart = bucketStart w now := by
  unfold rollIfStale; split <;> simp_all

theorem rollIfStale_of_eq {c : FixedWindowCounter w} {now : Nat}
    (h : c.windowStart = bucketStart w now) : c.rollIfStale now = c := by
  simp [rollIfStale, h]

@[simp] theorem rollIfStale_rollIfStale (c : FixedWindowCounter w) (now : Nat) :
    (c.rollIfStale now).rollIfStale now = c.rollIfStale now :=
  rollIfStale_of_eq (rollIfStale_windowStart c now)

@[simp] theorem countAt_rollIfStale_self (c : FixedWindowCounter w) (now : Nat) :
    (c.rollIfStale now).countAt now = c.countAt now := by
  rw [countAt, rollIfStale_rollIfStale]; rfl

theorem rollIfStale_eta (c : FixedWindowCounter w) (now : Nat) :
    c.rollIfStale now = ⟨bucketStart w now, c.countAt now⟩ := by
  ext <;> simp [countAt]

theorem countAt_eq (c : FixedWindowCounter w) (now : Nat) :
    c.countAt now = if bucketStart w now = c.windowStart then c.count else 0 := by
  unfold countAt rollIfStale; split <;> simp_all

theorem countAt_new (now : Nat) : (new w).countAt now = 0 := by
  rw [countAt_eq]; split <;> rfl

theorem countAt_le_count (c : FixedWindowCounter w) (now : Nat) : c.countAt now ≤ c.count := by
  rw [countAt_eq]; split <;> omega

/-- A rolled counter shows later readers what it showed before, unless it sat in the future. -/
theorem countAt_rollIfStale {c : FixedWindowCounter w} {now t : Nat} (hc : c.windowStart ≤ now)
    (ht : now ≤ t) : (c.rollIfStale now).countAt t = c.countAt t := by
  rw [rollIfStale_eta, countAt_eq, countAt_eq, countAt_eq]
  by_cases hw : bucketStart w t = c.windowStart
  · have : bucketStart w now = bucketStart w t := bucketStart_eq_of_between (by omega) ht
    simp [this, hw]
  · by_cases ht' : bucketStart w t = bucketStart w now
    · have : bucketStart w now ≠ c.windowStart := by omega
      simp [ht', this]
    · simp [hw, ht']

theorem countAt_of_le {c : FixedWindowCounter w} {now t : Nat} (hc : c.windowStart ≤ now)
    (ht : now ≤ t) :
    c.countAt t = if bucketStart w t = bucketStart w now then c.countAt now else 0 := by
  rw [← countAt_rollIfStale hc ht, rollIfStale_eta, countAt_eq]

theorem remainder_rollIfStale (hw : 0 < w) (c : FixedWindowCounter w) (now : Nat) :
    (c.rollIfStale now).remainder now = w - now % w := by
  have := Nat.mod_lt now hw
  simp only [remainder, rollIfStale_windowStart, sub_bucketStart]; omega

theorem add_eq (c : FixedWindowCounter w) (now delta : Nat) :
    c.add now delta = ⟨bucketStart w now, satAdd (c.countAt now) delta⟩ := by
  ext <;> simp [add, countAt]

@[simp] theorem add_windowStart (c : FixedWindowCounter w) (now delta : Nat) :
    (c.add now delta).windowStart = bucketStart w now := by rw [add_eq]

theorem countAt_add (c : FixedWindowCounter w) (now delta t : Nat) :
    (c.add now delta).countAt t =
      if bucketStart w t = bucketStart w now then satAdd (c.countAt now) delta else 0 := by
  rw [countAt_eq, add_eq]

@[simp] theorem current_eq (c : FixedWindowCounter w) (now : Nat) :
    c.current now = (c.countAt now, c.rollIfStale now) := rfl

theorem isExceeded_eq (hw : 0 < w) (c : FixedWindowCounter w) (now limit : Nat) :
    c.isExceeded now limit =
      (if limit ≤ c.countAt now then some (w - now % w) else none, c.rollIfStale now) := by
  simp only [isExceeded, remainder_rollIfStale hw, ge_iff_le]; rfl

theorem checkAndIncrement_full (hw : 0 < w) {c : FixedWindowCounter w} {now delta limit : Nat}
    (h : limit < satAdd (c.countAt now) delta) :
    c.checkAndIncrement now delta limit = (.full (w - now % w), c.rollIfStale now) := by
  simp only [countAt] at h
  simp [checkAndIncrement, h, remainder_rollIfStale hw]

theorem checkAndIncrement_ok {c : FixedWindowCounter w} {now delta limit : Nat}
    (h : satAdd (c.countAt now) delta ≤ limit) :
    c.checkAndIncrement now delta limit = (.ok, c.add now delta) := by
  simp only [countAt] at h
  simp [checkAndIncrement, add, Nat.not_lt.2 h]

/-- Undoing an increment at the same reading leaves the rolled counter, below saturation. -/
theorem decrement_add {c : FixedWindowCounter w} {now : Nat} (h : c.countAt now < u64Max) :
    (c.add now 1).decrement now 1 = c.rollIfStale now := by
  rw [rollIfStale_eta, add_eq, satAdd_of_lt (by omega)]
  simp [decrement]

end FixedWindowCounter
end RateLimit
end Aisix
