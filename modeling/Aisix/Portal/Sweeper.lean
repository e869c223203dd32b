import Aisix.Counter
import Aisix.KeyMap
import Aisix.RateLimit.Window
import Mathlib.Algebra.BigOperators.Group.List.Basic
import Mathlib.Algebra.Order.Group.Abs
import Mathlib.Algebra.Order.Ring.Int
import Mathlib.Algebra.Order.Ring.Nat
import Mathlib.Data.Finmap

/-!
# Aisix.Portal.Sweeper

The portal's ledger. It is only appended to; a user's balance is the sum of his entries, and what he
was granted is the sum of those of some sources. Amounts are micro-USD in 64-bit integers: an amount
above `i64::MAX` is written as `i64::MAX`, and a sum that overflows is an error.

What a tick of the sweeper charges one user: from the billing basis it read and the reading of the
spend series it took after that, the amount and the next cursors; then one transaction that goes
through only when the basis is still what is stored. Times are in nanoseconds, and the texts the
source stores and compares for them are the times themselves.
-/

namespace Aisix
namespace Portal

/-- `i64::MAX`. -/
def i64Max : Nat := 2 ^ 63 - 1

/-- `i64::try_from(v).unwrap_or(i64::MAX)`. -/
def toI64 (v : Nat) : Int := min v i64Max

def FitsI64 (v : Int) : Prop := -(2 ^ 63) ≤ v ∧ v ≤ i64Max

instance (v : Int) : Decidable (FitsI64 v) := inferInstanceAs (Decidable (_ ∧ _))

theorem toI64_of_le {v : Nat} (h : v ≤ i64Max) : toI64 v = v := by
  simp only [toI64]
  omega

inductive Source where
  | adminGrant
  | consumption
  | topup
  | adminSet
  deriving DecidableEq, Repr

def Source.countsTowardGranted : Source → Bool
  | .adminGrant | .topup | .adminSet => true
  | .consumption => false

/-- A row of the `ledger` table. -/
structure Entry (υ : Type) where
  user : υ
  delta : Int
  source : Source
  deriving DecidableEq, Repr

/-- `SUM` of an integer column, in row order. -/
def sqlSum (l : List Int) : Option Int :=
  l.foldlM (fun sum d => if FitsI64 (sum + d) then some (sum + d) else none) 0

namespace Ledger

section Queries

variable {υ : Type} [DecidableEq υ] (ledger : List (Entry υ)) (u : υ)

def deltas (p : Source → Bool) : List Int :=
  (ledger.filter fun e => e.user = u && p e.source).map (·.delta)

def balance : Option Int := sqlSum (deltas ledger u fun _ => true)

def totalGranted : Option Int := sqlSum (deltas ledger u Source.countsTowardGranted)

/-- The amount of a credit as it is written. -/
def creditDelta (micro : Nat) : Int := toI64 micro

/-- The entry that moves the total from `current` to `target`, where their difference fits. -/
def setDelta (target : Int) : Option Int :=
  (totalGranted ledger u).bind fun current =>
    if FitsI64 (target - current) then some (target - current) else none

def insertEntry (delta : Int) (source : Source) : List (Entry υ) := ledger ++ [⟨u, delta, source⟩]

end Queries

section Sums

variable {υ : Type} [DecidableEq υ] {ledger : List (Entry υ)} {u v : υ}

/-- What the user was charged for consumption. -/
def debited (ledger : List (Entry υ)) (u : υ) : Int :=
  -(deltas ledger u fun s => !s.countsTowardGranted).sum

def granted (ledger : List (Entry υ)) (u : υ) : Int :=
  (deltas ledger u Source.countsTowardGranted).sum

theorem sum_deltas_insertEntry (p : Source → Bool) (delta : Int) (source : Source) :
    (deltas (insertEntry ledger u delta source) v p).sum =
      (deltas ledger v p).sum + if u = v ∧ p source then delta else 0 := by
  rw [deltas, insertEntry, List.filter_append, List.map_append, List.sum_append]
  by_cases h : u = v ∧ p source <;> simp [deltas, h]

theorem sum_deltas : (deltas ledger u fun _ => true).sum = granted ledger u - debited ledger u := by
  rw [granted, debited, sub_neg_eq_add]
  induction ledger with
  | nil => rfl
  | cons e ledger ih =>
    simp only [deltas] at ih ⊢
    by_cases hu : e.user = u
    · cases hs : e.source.countsTowardGranted <;> simp [hu, hs] at ih ⊢ <;> omega
    · simpa [hu] using ih

theorem foldlM_checked {l : List Int} : ∀ {a b : Int},
    l.foldlM (fun sum d => if FitsI64 (sum + d) then some (sum + d) else none) a = some b →
      b = a + l.sum := by
  induction l with
  | nil =>
    intro a b h
    simpa using (Option.some.inj h).symm
  | cons d l ih =>
    intro a b h
    rw [List.foldlM_cons] at h
    split at h
    · rw [ih h, List.sum_cons, Int.add_assoc]
    · cases h

theorem sqlSum_eq {l : List Int} {b : Int} (h : sqlSum l = some b) : b = l.sum := by
  simpa using foldlM_checked h

theorem foldlM_checked_of_small {l : List Int} :
    ∀ {a : Int}, a.natAbs + (l.map Int.natAbs).sum ≤ i64Max →
      l.foldlM (fun sum d => if FitsI64 (sum + d) then some (sum + d) else none) a =
        some (a + l.sum) := by
  induction l with
  | nil =>
    intro a _
    simp [pure]
  | cons d l ih =>
    intro a h
    rw [List.map_cons, List.sum_cons] at h
    have hfits : FitsI64 (a + d) := by
      simp only [FitsI64, i64Max] at h ⊢
      omega
    rw [List.foldlM_cons, if_pos hfits, List.sum_cons, ← Int.add_assoc]
    exact ih (by omega)

theorem sqlSum_of_small {l : List Int} (h : (l.map Int.natAbs).sum ≤ i64Max) :
    sqlSum l = some l.sum := by
  have hsum : (0 : Int).natAbs + (l.map Int.natAbs).sum ≤ i64Max := by simpa using h
  rw [sqlSum, foldlM_checked_of_small hsum, Int.zero_add]

end Sums

end Ledger
/-! ## A tick -/

open Counter (Report Tracks advance)

def seconds (n : Int) : Int := n * 10 ^ 9

def idleSettleEvery : Int := seconds (5 * 60)

def cursorRetention : Int := seconds (30 * 24 * 60 * 60)

def seedGrace : Int := seconds (10 * 60)

/-- A row of `consumption_mark`. -/
structure ConsumptionMark where
  countedThrough : Int
  cursorsSeeded : Bool
  cursorsSeededAt : Option Int
  deriving DecidableEq, Repr

/-- A row of `spend_cursor`. -/
structure CursorRow where
  value : Int
  instanceStarted : Option Int
  updatedAt : Int
  deriving DecidableEq, Repr

/-- The tables a settlement writes. -/
structure Db (υ ι : Type) [DecidableEq ι] where
  ledger : List (Entry υ)
  consumptionMark : υ → Option ConsumptionMark
  spendCursor : υ → KeyMap ι CursorRow

structure BillingBasis (ι : Type) where
  mark : Option ConsumptionMark
  cursors : Finmap fun _ : ι => Int × Option Int
  deriving DecidableEq

/-- The current reading of one spend series. -/
structure SpendSeries (ι : Type) where
  key : ι
  value : Nat
  resetsSince : Nat
  startedMs : Option Int
  deriving DecidableEq, Repr

namespace BillingBasis

variable {ι : Type} (basis : BillingBasis ι)

def countedThrough : Option Int := basis.mark.map (·.countedThrough)

def needsSeeding : Bool := basis.mark.any fun m => !m.cursorsSeeded

def cursorsSeededAt : Option Int := basis.mark.bind (·.cursorsSeededAt)

end BillingBasis

section Tick

variable {υ ι : Type} [DecidableEq υ] [DecidableEq ι]

def billingBasisOn (db : Db υ ι) (u : υ) : BillingBasis ι where
  mark := db.consumptionMark u
  cursors := ((db.spendCursor u).mapValues fun row => (row.value, row.instanceStarted)).toFinmap

/-- What one series is charged, and the value and start time its cursor takes. -/
def charge (cursor : Option (Nat × Option Int)) (seedingGrace : Bool) (s : SpendSeries ι) :
    Nat × Nat × Option Int :=
  match cursor, s.startedMs with
  | none, now => if seedingGrace then (0, s.value, now) else (s.value, s.value, now)
  | some (prev, some was), some now =>
    if now > was then (s.value, s.value, some now)
    else if now < was ∨ s.value < prev then (0, prev, some was)
    else (s.value - prev, s.value, some was)
  | some (prev, was), now =>
    if s.resetsSince > 0 then (s.value, s.value, now)
    else if s.value ≥ prev then (s.value - prev, s.value, now.or was)
    else (0, prev, was)

def BillingBasis.cursor (basis : BillingBasis ι) (k : ι) : Option (Nat × Option Int) :=
  (basis.cursors.lookup k).map fun c => (c.1.toNat, c.2)

def BillingBasis.chargeAt (basis : BillingBasis ι) (now : Int) (s : SpendSeries ι) :
    Nat × Nat × Option Int :=
  charge (basis.cursor s.key) (basis.cursorsSeededAt.any fun at' => now < at' + seedGrace) s

def spent (basis : BillingBasis ι) (now : Int) (series : List (SpendSeries ι)) : Nat :=
  series.foldl (fun spent s => satAdd spent (basis.chargeAt now s).1) 0

def next (basis : BillingBasis ι) (now : Int) (series : List (SpendSeries ι)) :
    List (SpendSeries ι) :=
  series.map fun s =>
    { s with value := (basis.chargeAt now s).2.1, startedMs := (basis.chargeAt now s).2.2 }

/-- Nothing is charged, no cursor moves and the mark is recent. (Nor is any key charged then.) -/
def idle (basis : BillingBasis ι) (now : Int) (series : List (SpendSeries ι)) : Bool :=
  spent basis now series == 0 &&
    (basis.countedThrough.any fun at' => now - at' < idleSettleEvery) &&
    (next basis now series).all fun s => basis.cursors.lookup s.key ==
      some (toI64 s.value, s.startedMs)

/-- The cursor written for a series at `wall`. -/
def SpendSeries.row (s : SpendSeries ι) (wall : Int) : CursorRow :=
  ⟨toI64 s.value, s.startedMs, wall⟩

/-- The upserts of a settlement, then its pruning of cursors not seen for long. -/
def writeCursors (rows : KeyMap ι CursorRow) (series : List (SpendSeries ι)) (wall : Int) :
    KeyMap ι CursorRow :=
  let rows := series.foldl (fun rows s => rows.insert s.key (s.row wall)) rows
  if series.isEmpty then rows
  else rows.retain fun k => !(rows.lookup k).any fun row => row.updatedAt < wall - cursorRetention

def advanceMark (mark : Option ConsumptionMark) (through : Int) : ConsumptionMark where
  countedThrough := through
  cursorsSeeded := true
  cursorsSeededAt := mark.bind fun m => if m.cursorsSeeded then m.cursorsSeededAt else some through

/-- The transaction of a tick; `false` when the basis is no longer what is stored. -/
def settle (db : Db υ ι) (u : υ) (basis : BillingBasis ι) (debit : Nat)
    (series : List (SpendSeries ι)) (through wall : Int) : Db υ ι × Bool :=
  if billingBasisOn db u ≠ basis then (db, false)
  else
    ({ ledger :=
         if -toI64 debit ≠ 0 then Ledger.insertEntry db.ledger u (-toI64 debit) .consumption
         else db.ledger
       consumptionMark :=
         Function.update db.consumptionMark u (some (advanceMark (db.consumptionMark u) through))
       spendCursor :=
         Function.update db.spendCursor u (writeCursors (db.spendCursor u) series wall) },
      true)

/-- A tick for one user, from the answered reading on. -/
def tickUser (db : Db υ ι) (u : υ) (basis : BillingBasis ι) (series : List (SpendSeries ι))
    (now wall : Int) : Db υ ι × Bool :=
  if basis.needsSeeding then settle db u basis 0 series now wall
  else if idle basis now series then (db, false)
  else settle db u basis (spent basis now series) (next basis now series) now wall

end Tick

section Cursors

variable {ι : Type} [DecidableEq ι] {rows : KeyMap ι CursorRow} {series : List (SpendSeries ι)}
    {wall : Int}

/-- A settlement of `series` at `wall` deletes none of the cursors it does not write. -/
def KeepsCursors (rows : KeyMap ι CursorRow) (series : List (SpendSeries ι)) (wall : Int) : Prop :=
  ∀ e ∈ rows.entries, e.1 ∉ series.map (·.key) → wall - cursorRetention ≤ e.2.updatedAt

instance : Decidable (KeepsCursors rows series wall) :=
  inferInstanceAs (Decidable (∀ e ∈ rows.entries, _ → _))

theorem lookup_writeCursors_of_mem (rows : KeyMap ι CursorRow) (wall : Int)
    (hnodup : (series.map (·.key)).Nodup) {s : SpendSeries ι} (hs : s ∈ series) :
    (writeCursors rows series wall).lookup s.key = some (s.row wall) := by
  have hlookup : (series.foldl (fun rows s => rows.insert s.key (s.row wall)) rows).lookup s.key =
      some (s.row wall) := KeyMap.lookup_foldl_insert_of_mem hnodup hs
  have hold : ¬ wall < wall - cursorRetention := by
    simp only [cursorRetention, seconds]
    omega
  rw [writeCursors]
  split
  · exact hlookup
  · rw [KeyMap.lookup_retain, hlookup, if_pos (by simp [SpendSeries.row, hold])]

theorem lookup_writeCursors_of_notMem (hkeep : KeepsCursors rows series wall) {k : ι}
    (hk : k ∉ series.map (·.key)) : (writeCursors rows series wall).lookup k = rows.lookup k := by
  have hlookup : (series.foldl (fun rows s => rows.insert s.key (s.row wall)) rows).lookup k =
      rows.lookup k := by
    refine KeyMap.lookup_foldl_insert_of_notMem fun s hs heq => hk ?_
    exact heq ▸ List.mem_map_of_mem hs
  rw [writeCursors]
  split
  · exact hlookup
  · rw [KeyMap.lookup_retain, hlookup]
    cases hrow : rows.lookup k with
    | none => simp
    | some row =>
      have := hkeep ⟨k, row⟩ (AList.mem_lookup_iff.1 hrow) hk
      rw [if_pos (by simpa using this)]

end Cursors

section Charges

variable {ι : Type}

/-- A cursor whose incarnation is known, without a start time it has a default. -/
def CursorRow.known (row : CursorRow) : Nat × Int := (row.value.toNat, row.instanceStarted.getD 0)

theorem charge_known (c : Option (Nat × Int)) (k : ι) (value resets : Nat) (start : Int) :
    charge (c.map fun p => (p.1, some p.2)) false ⟨k, value, resets, some start⟩ =
      ((advance c start value).1, (advance c start value).2.1,
      some (advance c start value).2.2) := by
  cases c with
  | none => rfl
  | some p =>
    obtain ⟨prev, was⟩ := p
    simp only [charge, advance, Option.map_some]
    split
    · rfl
    · split <;> rfl

theorem foldl_satAdd {α : Type} (f : α → Nat) (l : List α) :
    ∀ acc, acc ≤ u64Max →
      l.foldl (fun acc a => satAdd acc (f a)) acc = min (acc + (l.map f).sum) u64Max := by
  induction l with
  | nil =>
    intro acc hacc
    simp [hacc]
  | cons a l ih =>
    intro acc _
    rw [List.foldl_cons, ih _ (satAdd_le _ _), List.map_cons, List.sum_cons]
    simp only [satAdd]
    omega

theorem spent_eq [DecidableEq ι] (basis : BillingBasis ι) (now : Int)
    (series : List (SpendSeries ι)) :
    spent basis now series = min (series.map fun s => (basis.chargeAt now s).1).sum u64Max := by
  rw [spent, foldl_satAdd _ _ _ (Nat.zero_le _), Nat.zero_add]

section Next

variable [DecidableEq ι] {basis : BillingBasis ι} {now : Int} {series : List (SpendSeries ι)}

theorem next_keys : (next basis now series).map (·.key) = series.map (·.key) := by
  simp [next, Function.comp_def]

theorem mem_next {s : SpendSeries ι} (hs : s ∈ series) :
    { s with value := (basis.chargeAt now s).2.1, startedMs := (basis.chargeAt now s).2.2 } ∈
      next basis now series :=
  List.mem_map_of_mem hs

end Next

end Charges

end Portal
end Aisix
