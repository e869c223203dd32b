import Mathlib.Algebra.Order.Ring.Nat
import Mathlib.Data.Finset.Card
import Mathlib.Data.Finset.Filter
import Mathlib.Logic.Function.Basic

/-!
# Aisix.Redis

The documented meaning of the Redis commands a counting script uses, over any type `κ` of keys, `μ`
of sorted-set members and `ς` of scores. A key whose deadline has been reached reads as absent and
is written afresh; a sorted set that loses its last member is gone, and its deadline with it.

Counters and sorted sets live in two maps: a script that keeps each key to one kind of value never
sees the difference.
-/

namespace Aisix
namespace Redis

/-- A value and the second it expires at, if it does. -/
structure Cell (α : Type*) where
  val : α
  deadline : Option Nat

namespace Cell

variable {α : Type*}

def live (now : Nat) (c : Cell α) : Bool := c.deadline.all (now < ·)

theorem live_of_lt {c : Cell α} {now : Nat} (h : ∀ t ∈ c.deadline, now < t) :
    c.live now = true := by
  simpa [live, Option.all_eq_true] using h

end Cell

/-- The members of a sorted set; the score of a name that is not a member means nothing. -/
structure ZSet (μ ς : Type*) where
  members : Finset μ
  score : μ → ς

structure Db (κ μ ς : Type*) where
  ints : κ → Option (Cell Int)
  zsets : κ → Option (Cell (ZSet μ ς))

/-- The upper end of a score range, inclusive or exclusive. -/
inductive Bound (ς : Type*) where
  | incl (hi : ς)
  | excl (hi : ς)

def Bound.admits {ς : Type*} [LinearOrder ς] : Bound ς → ς → Bool
  | .incl hi, x => x ≤ hi
  | .excl hi, x => x < hi

namespace Db

variable {κ μ ς : Type*} [DecidableEq κ]

def empty : Db κ μ ς := ⟨fun _ => none, fun _ => none⟩

/-- `GET key`, an absent key read as zero. -/
def get (now : Nat) (k : κ) (db : Db κ μ ς) : Int :=
  (((db.ints k).filter (·.live now)).map (·.val)).getD 0

/-- `INCRBY key n`: the new value, the deadline of a live key kept. -/
def incrBy (now : Nat) (k : κ) (n : Int) (db : Db κ μ ς) : Int × Db κ μ ς :=
  let val := db.get now k + n
  let deadline := ((db.ints k).filter (·.live now)).bind (·.deadline)
  (val, { db with ints := Function.update db.ints k (some ⟨val, deadline⟩) })

/-- `EXPIRE key secs`. -/
def expire (now : Nat) (k : κ) (secs : Nat) (db : Db κ μ ς) : Db κ μ ς where
  ints := Function.update db.ints k
    (((db.ints k).filter (·.live now)).map ({ · with deadline := some (now + secs) }))
  zsets := Function.update db.zsets k
    (((db.zsets k).filter (·.live now)).map ({ · with deadline := some (now + secs) }))

/-- `SET key 1 NX EX secs`: whether the key was set. -/
def setNx (now : Nat) (k : κ) (secs : Nat) (db : Db κ μ ς) : Bool × Db κ μ ς :=
  if ((db.ints k).filter (·.live now)).isSome then (false, db)
  else (true, { db with ints := Function.update db.ints k (some ⟨1, some (now + secs)⟩) })

/-- `ZCARD key`. -/
def zcard (now : Nat) (k : κ) (db : Db κ μ ς) : Nat :=
  (((db.zsets k).filter (·.live now)).map (·.val.members.card)).getD 0

/-- `ZADD key score member`. -/
def zadd [DecidableEq μ] [Inhabited ς] (now : Nat) (k : κ) (score : ς) (member : μ)
    (db : Db κ μ ς) : Db κ μ ς :=
  let c := ((db.zsets k).filter (·.live now)).getD ⟨⟨∅, fun _ => default⟩, none⟩
  let z := ⟨insert member c.val.members, Function.update c.val.score member score⟩
  { db with zsets := Function.update db.zsets k (some { c with val := z }) }

/-- Keep the members that meet `p`; an empty sorted set is removed. -/
def zkeep (now : Nat) (k : κ) (p : μ → ς → Bool) (db : Db κ μ ς) : Db κ μ ς :=
  let kept := ((db.zsets k).filter (·.live now)).map fun c =>
    { c with val := { c.val with members := c.val.members.filter fun m => p m (c.val.score m) } }
  { db with zsets := Function.update db.zsets k (kept.filter (·.val.members.Nonempty)) }

/-- `ZREM key member`. -/
def zrem [DecidableEq μ] (now : Nat) (k : κ) (member : μ) : Db κ μ ς → Db κ μ ς :=
  zkeep now k fun m _ => m ≠ member

/-- `ZREMRANGEBYSCORE key lo hi`. -/
def zremRangeByScore [LinearOrder ς] (now : Nat) (k : κ) (lo : ς) (hi : Bound ς) :
    Db κ μ ς → Db κ μ ς :=
  zkeep now k fun _ x => !(lo ≤ x && hi.admits x)

section Ints

variable {db : Db κ μ ς} {now t : Nat} {k k' : κ} {n : Int}

omit [DecidableEq κ] in
theorem get_eq_of_none (h : db.ints k = none) : db.get now k = 0 := by simp [get, h]

omit [DecidableEq κ] in
theorem get_congr {db' : Db κ μ ς} (h : db'.ints k = db.ints k) : db'.get now k = db.get now k := by
  simp [get, h]

omit [DecidableEq κ] in
theorem get_of_live {c : Cell Int} (h : db.ints k = some c) (hl : c.live now = true) :
    db.get now k = c.val := by simp [get, h, Option.filter, hl]

omit [DecidableEq κ] in
theorem live_of_get_ne_zero (h : db.get now k ≠ 0) :
    ∃ c, db.ints k = some c ∧ c.live now = true ∧ c.val = db.get now k := by
  cases hc : db.ints k with
  | none => exact absurd (get_eq_of_none hc) h
  | some c =>
    by_cases hl : c.live now = true
    · exact ⟨c, rfl, hl, by simp [get, hc, Option.filter, hl]⟩
    · exact absurd (by simp [get, hc, Option.filter, hl]) h

@[simp] theorem incrBy_fst : (db.incrBy now k n).1 = db.get now k + n := rfl

theorem incrBy_ints_self : (db.incrBy now k n).2.ints k =
    some ⟨db.get now k + n, ((db.ints k).filter (·.live now)).bind (·.deadline)⟩ :=
  Function.update_self ..

theorem incrBy_ints_of_ne (h : k' ≠ k) : (db.incrBy now k n).2.ints k' = db.ints k' :=
  Function.update_of_ne h _ _

@[simp] theorem incrBy_zsets : (db.incrBy now k n).2.zsets = db.zsets := rfl

theorem setNx_fst {secs : Nat} :
    (db.setNx now k secs).1 = !((db.ints k).filter (·.live now)).isSome := by
  unfold setNx; split <;> simp_all

theorem setNx_ints_self {secs : Nat} (h : ((db.ints k).filter (·.live now)).isSome = false) :
    (db.setNx now k secs).2.ints k = some ⟨1, some (now + secs)⟩ := by
  simp [setNx, h]

theorem setNx_keeps {secs : Nat} {c : Cell Int} (h : db.ints k' = some c) (hl : c.live now = true) :
    (db.setNx now k secs).2.ints k' = some c := by
  unfold setNx
  split
  · exact h
  next hnone =>
    have hne : k' ≠ k := fun e => hnone (by simp [← e, h, Option.filter, hl])
    exact (Function.update_of_ne hne _ _).trans h

theorem expire_ints_of_ne {secs : Nat} (h : k' ≠ k) : (db.expire now k secs).ints k' = db.ints k' :=
  Function.update_of_ne h _ _

theorem expire_zsets_of_ne {secs : Nat} (h : k' ≠ k) :
    (db.expire now k secs).zsets k' = db.zsets k' :=
  Function.update_of_ne h _ _

theorem expire_ints_self {secs : Nat} {c : Cell Int} (h : db.ints k = some c)
    (hl : c.live now = true) :
    (db.expire now k secs).ints k = some { c with deadline := some (now + secs) } := by
  simp [expire, h, Option.filter, hl]

theorem expire_zsets_self {secs : Nat} {c : Cell (ZSet μ ς)} (h : db.zsets k = some c)
    (hl : c.live now = true) :
    (db.expire now k secs).zsets k = some { c with deadline := some (now + secs) } := by
  simp [expire, h, Option.filter, hl]

end Ints

section ZSets

variable {db : Db κ μ ς} {now : Nat} {k k' : κ} {p : μ → ς → Bool}

/-- The members stored under a key, whether or not its deadline has passed. -/
def members (k : κ) (db : Db κ μ ς) : Finset μ := ((db.zsets k).map (·.val.members)).getD ∅

@[simp] theorem zkeep_ints : (db.zkeep now k p).ints = db.ints := rfl

theorem zkeep_zsets_of_ne (h : k' ≠ k) : (db.zkeep now k p).zsets k' = db.zsets k' :=
  Function.update_of_ne h _ _

/-- What is left of a sorted set is a live one, with some of its members and their scores. -/
theorem zkeep_zsets_self {c' : Cell (ZSet μ ς)} (h : (db.zkeep now k p).zsets k = some c') :
    ∃ c, db.zsets k = some c ∧ c.live now = true ∧ c'.deadline = c.deadline ∧
      c'.val.score = c.val.score ∧
      c'.val.members = c.val.members.filter fun m => p m (c.val.score m) := by
  simp only [zkeep, Function.update_self, Option.filter_eq_some_iff, Option.map_eq_some_iff] at h
  obtain ⟨⟨c, ⟨hc, hlive⟩, rfl⟩, -⟩ := h
  exact ⟨c, hc, hlive, rfl, rfl, rfl⟩

theorem zcard_zkeep (h : ∀ c, db.zsets k = some c → ∀ m ∈ c.val.members, p m (c.val.score m)) :
    (db.zkeep now k p).zcard now k = db.zcard now k := by
  cases hc : db.zsets k with
  | none => simp [zcard, zkeep, hc]
  | some c =>
    have hall : (c.val.members.filter fun m => p m (c.val.score m)) = c.val.members :=
      Finset.filter_true_of_mem (h c hc)
    by_cases hl : c.live now = true
    · by_cases hne : c.val.members.Nonempty
      · simp only [zcard, zkeep, hc, Function.update_self, Option.filter, hl, if_true,
          Option.map_some, hall, hne, decide_true]
      · have he : c.val.members = ∅ := Finset.not_nonempty_iff_eq_empty.1 hne
        simp [zcard, zkeep, hc, Option.filter, hl, he]
    · simp [zcard, zkeep, hc, Option.filter, hl]

omit [DecidableEq κ] in
/-- As long as no live member is lost to the key's deadline, the count is that of the members. -/
theorem zcard_eq_card (h : ∀ c, db.zsets k = some c → c.val.members.Nonempty → c.live now = true) :
    db.zcard now k = (db.members k).card := by
  cases hc : db.zsets k with
  | none => simp [zcard, members, hc]
  | some c =>
    by_cases hne : c.val.members.Nonempty
    · simp [zcard, members, hc, Option.filter, h c hc hne]
    · have he : c.val.members = ∅ := Finset.not_nonempty_iff_eq_empty.1 hne
      simp only [zcard, members, hc, Option.filter]
      split <;> simp [he]

@[simp] theorem zadd_ints [DecidableEq μ] [Inhabited ς] {x : ς} {m : μ} :
    (db.zadd now k x m).ints = db.ints := rfl

theorem zadd_zsets_of_ne [DecidableEq μ] [Inhabited ς] {x : ς} {m : μ} (h : k' ≠ k) :
    (db.zadd now k x m).zsets k' = db.zsets k' := Function.update_of_ne h _ _

theorem zadd_zsets_self [DecidableEq μ] [Inhabited ς] (now : Nat) (k : κ) (x : ς) (m : μ)
    (db : Db κ μ ς) :
    ∃ c, (db.zadd now k x m).zsets k = some c ∧ c.live now = true ∧ m ∈ c.val.members ∧
      c.val.score m = x ∧
      ∀ m' ∈ c.val.members, m' ≠ m →
        ∃ c₀, db.zsets k = some c₀ ∧ m' ∈ c₀.val.members ∧ c.val.score m' = c₀.val.score m' := by
  refine ⟨_, Function.update_self .., ?_, Finset.mem_insert_self .., Function.update_self .., ?_⟩
  · cases hc : (db.zsets k).filter (·.live now) with
    | none => rfl
    | some c₀ => exact (Option.filter_eq_some_iff.1 hc).2
  · intro m' hm' hne
    cases hc : (db.zsets k).filter (·.live now) with
    | none => simp [hc, hne] at hm'
    | some c₀ =>
      refine ⟨c₀, (Option.filter_eq_some_iff.1 hc).1, ?_, ?_⟩
      · simpa [hc, hne] using hm'
      · simp [Function.update_of_ne hne]

end ZSets

end Db
end Redis
end Aisix
