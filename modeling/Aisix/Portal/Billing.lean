import Aisix.Lts
import Aisix.Portal.Sweeper

/-!
# Aisix.Portal.Billing

Portal instances over one database, gateways that count what users spend, and everything in between
in any order: an instance reads a user's billing basis, takes a reading, which may be old or lack
series, and settles; counters grow and their processes restart; users are granted more.

* `Booked`     — the tables agree, for one user, with the reports settled so far.
* `debited_eq_owed` — after any run a user was charged what `Counter.owed` says, and no more than he
  spent.
-/

namespace Aisix
namespace Portal

open Counter (Report Tracks advance advance_le owed owed_le Justified)

/-- A reading: one report for each series it has, all with a start time, and how often each was
reset. -/
structure Reading (ι : Type) where
  entries : List (Report ι × Nat)
  nodup : (entries.map fun e => e.1.key).Nodup

def Reading.series {ι : Type} (r : Reading ι) : List (SpendSeries ι) :=
  r.entries.map fun e => ⟨e.1.key, e.1.value, e.2, some e.1.start⟩

def Reading.reports {ι : Type} (r : Reading ι) : List (Report ι) := r.entries.map (·.1)

section Reading

variable {ι : Type} {reading : Reading ι}

theorem Reading.series_keys : reading.series.map (·.key) = reading.reports.map Report.key := by
  simp [Reading.series, Reading.reports, Function.comp_def]

theorem Reading.nodup_reports (reading : Reading ι) : (reading.reports.map Report.key).Nodup := by
  simpa [Reading.reports, Function.comp_def] using reading.nodup

theorem Reading.mem_series {r : Report ι} (hr : r ∈ reading.reports) :
    ∃ resets, (⟨r.key, r.value, resets, some r.start⟩ : SpendSeries ι) ∈ reading.series := by
  obtain ⟨⟨r', resets⟩, hmem, rfl⟩ := List.mem_map.1 hr
  exact ⟨resets, List.mem_map.2 ⟨_, hmem, rfl⟩⟩

/-- A reading of one series. -/
def Reading.single (k : ι) (start : Int) (value : Nat) : Reading ι :=
  ⟨[(⟨k, start, value⟩, 0)], List.nodup_singleton _⟩

end Reading

/-- One user's turn in the tick of an instance. -/
structure Turn (υ ι : Type) where
  user : υ
  now : Int
  basis : BillingBasis ι
  reading : Option (Reading ι)

/-- The system, with what was settled (latest first) and granted so far. -/
structure World (π υ ι : Type) [DecidableEq ι] where
  db : Db υ ι
  turns : π → Option (Turn υ ι)
  /-- What each incarnation of a series has counted. -/
  counted : υ → List (Report ι)
  settled : υ → List (Report ι)
  credited : υ → Int

inductive Act (π υ ι : Type) where
  /-- A process with the series `k` of `u` starts. -/
  | restart (u : υ) (k : ι) (start : Int)
  | count (u : υ) (k : ι) (start : Int) (n : Nat)
  | readBasis (p : π) (u : υ) (now : Int)
  | read (p : π) (reading : Reading ι)
  | settle (p : π) (wall : Int)
  | credit (u : υ) (micro : Nat) (source : Source)
  | setTotalGranted (u : υ) (target : Int)

namespace World

section Start

variable {π υ ι : Type} [DecidableEq ι]

/-- Nothing was billed or granted yet. -/
structure Fresh (w : World π υ ι) : Prop where
  ledger : w.db.ledger = []
  mark : ∀ u, w.db.consumptionMark u = none
  cursors : ∀ u, w.db.spendCursor u = ∅
  turns : ∀ p, w.turns p = none
  settled : ∀ u, w.settled u = []
  credited : ∀ u, w.credited u = 0

def empty : World π υ ι :=
  ⟨⟨[], fun _ => none, fun _ => ∅⟩, fun _ => none, fun _ => [], fun _ => [], fun _ => 0⟩

theorem fresh_empty : Fresh (empty : World π υ ι) :=
  ⟨rfl, fun _ => rfl, fun _ => rfl, fun _ => rfl, fun _ => rfl, fun _ => rfl⟩

end Start

variable {π υ ι : Type} [DecidableEq π] [DecidableEq υ] [DecidableEq ι]

/-- A credit of `delta` to `u`. -/
def grant (w : World π υ ι) (u : υ) (delta : Int) (source : Source) : World π υ ι :=
  { w with
    db := { w.db with ledger := Ledger.insertEntry w.db.ledger u delta source }
    credited := Function.update w.credited u (w.credited u + delta) }

def step (w : World π υ ι) : Act π υ ι → Option (World π υ ι)
  | .restart u k start =>
    if ∀ c ∈ w.counted u, c.key = k → c.start < start then
      some { w with counted := Function.update w.counted u (⟨k, start, 0⟩ :: w.counted u) }
    else none
  | .count u k start n =>
    some
      { w with
        counted := Function.update w.counted u ((w.counted u).map fun c =>
          if c.key = k ∧ c.start = start then { c with value := c.value + n } else c) }
  | .readBasis p u now =>
    some { w with turns := Function.update w.turns p (some ⟨u, now, billingBasisOn w.db u, none⟩) }
  | .read p reading =>
    match w.turns p with
    | none => none
    | some turn =>
      if ∀ r ∈ reading.reports, ∃ c ∈ w.counted turn.user, (c.key, c.start) = (r.key, r.start) ∧
        r.value ≤ c.value
      then
        some { w with
          turns := Function.update w.turns p (some { turn with reading := some reading }) }
      else none
  | .settle p wall =>
    match w.turns p with
    | some ⟨u, now, basis, some reading⟩ =>
      let (db, settled) := tickUser w.db u basis reading.series now wall
      some
        { w with
          db := db
          turns := Function.update w.turns p none
          settled :=
            if settled then Function.update w.settled u
              (reading.reports ++ w.settled u) else w.settled }
    | _ => none
  | .credit u micro source =>
    if source.countsTowardGranted then some (w.grant u (Ledger.creditDelta micro) source) else none
  | .setTotalGranted u target =>
    match Ledger.setDelta w.db.ledger u target with
    | none => some w
    | some delta => some (if delta ≠ 0 then w.grant u delta .adminSet else w)

/-- A settlement stays within 64-bit integers and prunes no cursor. -/
def InRange (w : World π υ ι) : Act π υ ι → Prop
  | .settle p wall =>
    ∀ turn ∈ w.turns p, ∀ reading ∈ turn.reading,
      (∀ r ∈ reading.reports, r.value ≤ i64Max) ∧
        spent turn.basis turn.now reading.series ≤ i64Max ∧
        KeepsCursors (w.db.spendCursor turn.user) reading.series wall
  | _ => True

instance (w : World π υ ι) : (act : Act π υ ι) → Decidable (InRange w act)
  | .settle p _ =>
    inferInstanceAs (Decidable (∀ turn ∈ w.turns p, ∀ reading ∈ turn.reading, _ ∧ _ ∧
      KeepsCursors _ _ _))
  | .restart .. | .count .. | .readBasis .. | .read .. | .credit .. | .setTotalGranted .. =>
    inferInstanceAs (Decidable True)

/-- What the user has spent, over all series and processes. -/
def trueSpend (w : World π υ ι) (u : υ) : Nat := ((w.counted u).map Report.value).sum

end World

section Booked

variable {υ ι : Type} [DecidableEq υ] [DecidableEq ι]

/-- The rows of `u` stand for the reports `h`. -/
structure Booked (db : Db υ ι) (u : υ) (h : List (Report ι)) : Prop where
  mark : ∀ m, db.consumptionMark u = some m → m.cursorsSeeded = true ∧ m.cursorsSeededAt = none
  rows : ∀ k row, (db.spendCursor u).lookup k = some row →
    row.instanceStarted.isSome = true ∧ row.value ≤ i64Max
  tracks : ∀ k, Tracks h k (((db.spendCursor u).lookup k).map CursorRow.known)
  debited : Ledger.debited db.ledger u = owed h

variable {db : Db υ ι} {u v : υ} {h : List (Report ι)} {reading : Reading ι}
    {basis : BillingBasis ι} {now wall : Int}

theorem Booked.unseeded (hb : Booked db u h) :
    (billingBasisOn db u).needsSeeding = false ∧ (billingBasisOn db u).cursorsSeededAt = none := by
  cases hm : db.consumptionMark u with
  | none => simp [billingBasisOn, BillingBasis.needsSeeding, BillingBasis.cursorsSeededAt, hm]
  | some m =>
    obtain ⟨hseeded, hat⟩ := hb.mark m hm
    simp [billingBasisOn, BillingBasis.needsSeeding, BillingBasis.cursorsSeededAt, hm, hseeded, hat]

theorem Booked.cursor (hb : Booked db u h) (k : ι) :
    (billingBasisOn db u).cursor k =
      (((db.spendCursor u).lookup k).map CursorRow.known).map fun p => (p.1, some p.2) := by
  simp only [BillingBasis.cursor, billingBasisOn, Finmap.lookup_toFinmap, KeyMap.lookup_mapValues]
  cases hrow : (db.spendCursor u).lookup k with
  | none => rfl
  | some row =>
    obtain ⟨start, hstart⟩ := Option.isSome_iff_exists.1 (hb.rows k row hrow).1
    simp [CursorRow.known, hstart]

theorem Booked.chargeAt (hb : Booked db u h) (r : Report ι) (resets : Nat) :
    let a := advance (((db.spendCursor u).lookup r.key).map CursorRow.known) r.start r.value
    (billingBasisOn db u).chargeAt now ⟨r.key, r.value, resets, some r.start⟩ =
      (a.1, a.2.1, some a.2.2) := by
  intro a
  rw [BillingBasis.chargeAt, hb.unseeded.2, hb.cursor]
  exact charge_known _ r.key r.value resets r.start

/-- The cursor of every series, as the reports see it. -/
def knownCursor (db : Db υ ι) (u : υ) (k : ι) : Option (Nat × Int) :=
  ((db.spendCursor u).lookup k).map CursorRow.known

theorem Booked.spent (hb : Booked db u h)
    (hspent : spent (billingBasisOn db u) now reading.series ≤ i64Max) :
    Portal.spent (billingBasisOn db u) now reading.series =
      (reading.reports.map fun r => (advance (knownCursor db u r.key) r.start r.value).1).sum := by
  have hsum : (reading.series.map fun s => ((billingBasisOn db u).chargeAt now s).1) =
      reading.reports.map fun r => (advance (knownCursor db u r.key) r.start r.value).1 := by
    simp only [Reading.series, Reading.reports, List.map_map]
    refine List.map_congr_left fun e _ => ?_
    simp only [Function.comp_apply, hb.chargeAt e.1 e.2, knownCursor]
  rw [spent_eq, hsum] at hspent ⊢
  simp only [i64Max, u64Max] at hspent ⊢
  omega

/-- A settlement that goes through. -/
def settledDb (db : Db υ ι) (u : υ) (now wall : Int) (series : List (SpendSeries ι)) : Db υ ι :=
  (settle db u (billingBasisOn db u) (Portal.spent (billingBasisOn db u) now series)
    (next (billingBasisOn db u) now series) now wall).1

theorem Booked.lookup_settled (hb : Booked db u h) (now : Int)
    (hkeep : KeepsCursors (db.spendCursor u) reading.series wall) (k : ι) :
    (∃ r ∈ reading.reports, r.key = k ∧
      ((settledDb db u now wall reading.series).spendCursor u).lookup k =
        some ⟨toI64 (advance (knownCursor db u k) r.start r.value).2.1,
          some (advance (knownCursor db u k) r.start r.value).2.2, wall⟩) ∨
    (k ∉ reading.reports.map Report.key ∧
      ((settledDb db u now wall reading.series).spendCursor u).lookup k =
      (db.spendCursor u).lookup k) := by
  have hkeys : (next (billingBasisOn db u) now reading.series).map (·.key) =
      reading.series.map (·.key) := next_keys
  simp only [settledDb, settle, ne_eq, not_true_eq_false, if_false, Function.update_self]
  by_cases hk : k ∈ reading.reports.map Report.key
  · obtain ⟨r, hr, rfl⟩ := List.mem_map.1 hk
    obtain ⟨resets, hs⟩ := Reading.mem_series hr
    have hnodup : ((next (billingBasisOn db u) now reading.series).map (·.key)).Nodup := by
      rw [hkeys, Reading.series_keys]
      exact reading.nodup_reports
    have hlookup := lookup_writeCursors_of_mem (db.spendCursor u) wall hnodup (mem_next hs)
    rw [hb.chargeAt r resets] at hlookup
    exact .inl ⟨r, hr, rfl, hlookup⟩
  · refine .inr ⟨hk, lookup_writeCursors_of_notMem ?_ ?_⟩
    · intro e he hnot
      exact hkeep e he (hkeys ▸ hnot)
    · rw [hkeys, Reading.series_keys]
      exact hk

theorem Booked.debited_settled (hb : Booked db u h)
    (hspent : Portal.spent (billingBasisOn db u) now reading.series ≤ i64Max) :
    Ledger.debited (settledDb db u now wall reading.series).ledger u =
      owed (reading.reports ++ h) := by
  rw [Tracks.owed_append (knownCursor db u) hb.tracks reading.nodup_reports, ← hb.spent hspent,
    Int.natCast_add, ← hb.debited]
  simp only [settledDb, settle, ne_eq, not_true_eq_false, if_false, toI64_of_le hspent]
  split
  · simp only [Ledger.debited, Ledger.sum_deltas_insertEntry, Source.countsTowardGranted]
    simp
    omega
  · simp only [Ledger.debited] at *
    omega

theorem Booked.settled (hb : Booked db u h) (hvalues : ∀ r ∈ reading.reports, r.value ≤ i64Max)
    (hspent : Portal.spent (billingBasisOn db u) now reading.series ≤ i64Max)
    (hkeep : KeepsCursors (db.spendCursor u) reading.series wall) :
    Booked (settledDb db u now wall reading.series) u (reading.reports ++ h) where
  mark m hm := by
    simp only [settledDb, settle, ne_eq, not_true_eq_false, if_false, Function.update_self,
      Option.some.injEq] at hm
    subst hm
    refine ⟨rfl, ?_⟩
    cases hmark : db.consumptionMark u with
    | none => simp [advanceMark]
    | some m => simp [advanceMark, hb.mark m hmark]
  rows k row hrow := by
    rcases hb.lookup_settled now hkeep k with ⟨r, -, -, hlookup⟩ | ⟨-, hlookup⟩
    · obtain rfl := Option.some.inj (hlookup.symm.trans hrow)
      refine ⟨rfl, ?_⟩
      simp only [toI64]
      omega
    · exact hb.rows k row (hlookup.symm.trans hrow)
  tracks k := by
    rcases hb.lookup_settled now hkeep k with ⟨r, hr, rfl, hlookup⟩ | ⟨hk, hlookup⟩
    · have hle : (advance (knownCursor db u r.key) r.start r.value).2.1 ≤ i64Max := by
        refine advance_le (fun p hp => ?_) (hvalues r hr)
        obtain ⟨row, hrow, rfl⟩ := Option.map_eq_some_iff.1 hp
        have := (hb.rows r.key row hrow).2
        simp only [CursorRow.known]
        omega
      rw [hlookup, Option.map_some, CursorRow.known, toI64_of_le hle]
      exact Tracks.append_of_mem (knownCursor db u) hb.tracks reading.nodup_reports hr
    · rw [hlookup]
      exact (hb.tracks k).append_of_notMem hk
  debited := hb.debited_settled hspent

theorem Booked.settled_of_ne (hb : Booked db v h) (hne : v ≠ u) (series : List (SpendSeries ι)) :
    Booked (settledDb db u now wall series) v h where
  mark m hm := by
    refine hb.mark m ?_
    simpa [settledDb, settle, hne] using hm
  rows k row hrow := by
    refine hb.rows k row ?_
    simpa [settledDb, settle, hne] using hrow
  tracks k := by simpa [settledDb, settle, hne] using hb.tracks k
  debited := by
    rw [← hb.debited]
    simp only [settledDb, settle, ne_eq, not_true_eq_false, if_false]
    split
    · simp [Ledger.debited, Ledger.sum_deltas_insertEntry, hne.symm]
    · rfl

theorem granted_settled {series : List (SpendSeries ι)} :
    Ledger.granted (settledDb db u now wall series).ledger v = Ledger.granted db.ledger v := by
  simp only [settledDb, settle, ne_eq, not_true_eq_false, if_false]
  split
  · simp [Ledger.granted, Ledger.sum_deltas_insertEntry, Source.countsTowardGranted]
  · rfl

theorem Booked.tickUser_cases (hb : Booked db u h) (basis : BillingBasis ι)
    (series : List (SpendSeries ι)) (now wall : Int) :
    tickUser db u basis series now wall = (db, false) ∨
      (basis = billingBasisOn db u ∧
        tickUser db u basis series now wall = (settledDb db u now wall series, true)) := by
  by_cases hbasis : billingBasisOn db u = basis
  · subst hbasis
    rw [tickUser, hb.unseeded.1, if_neg Bool.false_ne_true]
    split
    · exact .inl rfl
    · exact .inr ⟨rfl, by simp [settledDb, settle]⟩
  · refine .inl ?_
    simp [tickUser, settle, hbasis]

end Booked

namespace World

section Parts

variable {π υ ι : Type} [DecidableEq υ] [DecidableEq ι] {w : World π υ ι}

structure Inv (w : World π υ ι) : Prop where
  booked : ∀ u, Booked w.db u (w.settled u)
  granted : ∀ u, Ledger.granted w.db.ledger u = w.credited u
  justified : ∀ u, Justified (w.counted u) (w.settled u)
  readings : ∀ p turn, w.turns p = some turn →
    ∀ reading ∈ turn.reading, Justified (w.counted turn.user) reading.reports

theorem Inv.of_fresh (h : Fresh w) : Inv w where
  booked u :=
    { mark := fun m hm => by simp [h.mark u] at hm
      rows := fun k row hrow => by simp [h.cursors u] at hrow
      tracks := fun k => by
        rw [h.cursors u, h.settled u]
        intro q hq
        cases hq
      debited := by
        rw [h.ledger, h.settled u]
        rfl }
  granted u := by
    rw [h.ledger, h.credited u]
    rfl
  justified u := by
    rw [h.settled u]
    intro r hr
    cases hr
  readings p turn ht := by simp [h.turns p] at ht

theorem Inv.grant (h : Inv w) (u : υ) (delta : Int) {source : Source}
    (hsource : source.countsTowardGranted = true) : Inv (w.grant u delta source) where
  booked v :=
    { mark := (h.booked v).mark
      rows := (h.booked v).rows
      tracks := (h.booked v).tracks
      debited := by
        rw [World.grant, Ledger.debited, Ledger.sum_deltas_insertEntry, hsource]
        simpa [Ledger.debited] using (h.booked v).debited }
  granted v := by
    have hv := h.granted v
    rw [World.grant, Ledger.granted, Ledger.sum_deltas_insertEntry, hsource]
    by_cases huv : u = v
    · subst huv
      simpa [Ledger.granted] using hv
    · simpa [Ledger.granted, huv, Ne.symm huv] using hv
  justified := h.justified
  readings := h.readings

theorem Inv.count (h : Inv w) (u : υ) {counted : List (Report ι)}
    (hgrown : ∀ c ∈ w.counted u, ∃ c' ∈ counted, (c'.key, c'.start) = (c.key, c.start) ∧
      c.value ≤ c'.value) :
    Inv { w with counted := Function.update w.counted u counted } := by
  have hmono : ∀ v h, Justified (w.counted v) h →
      Justified (Function.update w.counted u counted v) h := by
    intro v h hj
    by_cases hv : v = u
    · subst hv
      rw [Function.update_self]
      exact hj.mono hgrown
    · rw [Function.update_of_ne hv]
      exact hj
  exact
    { booked := h.booked
      granted := h.granted
      justified := fun v => hmono v _ (h.justified v)
      readings := fun p turn ht reading hr => hmono _ _ (h.readings p turn ht reading hr) }

end Parts

variable {π υ ι : Type} [DecidableEq π] [DecidableEq υ] [DecidableEq ι] {w w' : World π υ ι}

theorem Inv.turn (h : Inv w) (p : π) {turn : Option (Turn υ ι)}
    (hturn : ∀ t ∈ turn, ∀ reading ∈ t.reading, Justified (w.counted t.user) reading.reports) :
    Inv { w with turns := Function.update w.turns p turn } where
  booked := h.booked
  granted := h.granted
  justified := h.justified
  readings q t ht reading hr := by
    by_cases hq : q = p
    · subst hq
      simp only [Function.update_self] at ht
      exact hturn t ht reading hr
    · simp only [Function.update_of_ne hq] at ht
      exact h.readings q t ht reading hr

theorem Inv.settle (h : Inv w) {p : π} {u : υ} {now wall : Int} {reading : Reading ι}
    (hturn : Justified (w.counted u) reading.reports)
    (hvalues : ∀ r ∈ reading.reports, r.value ≤ i64Max)
    (hspent : spent (billingBasisOn w.db u) now reading.series ≤ i64Max)
    (hkeep : KeepsCursors (w.db.spendCursor u) reading.series wall) :
    Inv
      { w with
        db := settledDb w.db u now wall reading.series
        turns := Function.update w.turns p none
        settled := Function.update w.settled u (reading.reports ++ w.settled u) } := by
  have hidle : Inv { w with turns := Function.update w.turns p none } :=
    h.turn p fun t ht => by cases ht
  refine ⟨fun v => ?_, fun v => ?_, fun v => ?_, hidle.readings⟩
  · by_cases hv : v = u
    · subst hv
      simp only [Function.update_self]
      exact (h.booked v).settled hvalues hspent hkeep
    · simp only [Function.update_of_ne hv]
      exact (h.booked v).settled_of_ne hv reading.series
  · exact granted_settled.trans (h.granted v)
  · by_cases hv : v = u
    · subst hv
      simp only [Function.update_self]
      exact hturn.append (h.justified v)
    · simp only [Function.update_of_ne hv]
      exact h.justified v

theorem step_inv {act : Act π υ ι} (h : Inv w) (hok : InRange w act) (hs : step w act = some w') :
    Inv w' := by
  cases act with
  | restart u k start =>
    rw [step] at hs
    split at hs
    · obtain rfl := Option.some.inj hs
      exact h.count u fun c hc => ⟨c, List.mem_cons_of_mem _ hc, rfl, Nat.le_refl _⟩
    · cases hs
  | count u k start n =>
    obtain rfl := Option.some.inj hs
    refine h.count u fun c hc => ⟨_, List.mem_map_of_mem hc, ?_⟩
    split
    · exact ⟨rfl, Nat.le_add_right _ _⟩
    · exact ⟨rfl, Nat.le_refl _⟩
  | readBasis p u now =>
    obtain rfl := Option.some.inj hs
    refine h.turn p fun t ht reading hr => ?_
    obtain rfl := Option.some.inj ht
    cases hr
  | read p reading =>
    simp only [step] at hs
    cases hturn : w.turns p with
    | none => simp [hturn] at hs
    | some turn =>
      simp only [hturn] at hs
      split at hs
      · rename_i hjust
        obtain rfl := Option.some.inj hs
        refine h.turn p fun t ht reading' hr => ?_
        obtain rfl := Option.some.inj ht
        obtain rfl := Option.some.inj hr
        exact hjust
      · cases hs
  | settle p wall =>
    cases hturn : w.turns p with
    | none => simp [step, hturn] at hs
    | some turn =>
      obtain ⟨u, now, basis, reading⟩ := turn
      cases reading with
      | none => simp [step, hturn] at hs
      | some reading =>
        simp only [step, hturn] at hs
        obtain ⟨hvalues, hspent, hkeep⟩ := hok _ hturn reading rfl
        rcases (h.booked u).tickUser_cases basis reading.series now wall with hidle |
          ⟨rfl, hsettled⟩
        · simp only [hidle, Bool.false_eq_true, if_false] at hs
          obtain rfl := Option.some.inj hs
          exact h.turn p fun t ht => by cases ht
        · simp only [hsettled, if_true] at hs
          obtain rfl := Option.some.inj hs
          exact h.settle (h.readings p _ hturn reading rfl) hvalues hspent hkeep
  | credit u micro source =>
    rw [step] at hs
    split at hs
    · rename_i hsource
      obtain rfl := Option.some.inj hs
      exact h.grant u _ hsource
    · cases hs
  | setTotalGranted u target =>
    simp only [step] at hs
    cases hdelta : Ledger.setDelta w.db.ledger u target with
    | none =>
      simp only [hdelta] at hs
      exact Option.some.inj hs ▸ h
    | some delta =>
      simp only [hdelta] at hs
      obtain rfl := Option.some.inj hs
      split
      · exact h.grant u delta rfl
      · exact h

/-- What a user was charged is, over his series and their processes, the most each process was
settled at while it was the newest; that is at most what he spent, and it is what separates his
balance from the credits. -/
theorem debited_eq_owed {w w' : World π υ ι} {acts : List (Act π υ ι)} (hfresh : Fresh w)
    (hok : Lts.Meets step InRange w acts) (hrun : Lts.run step w acts = some w') (u : υ) :
    Ledger.debited w'.db.ledger u = owed (w'.settled u) ∧
      Ledger.debited w'.db.ledger u ≤ w'.trueSpend u ∧
      (∀ b, Ledger.balance w'.db.ledger u = some b →
        b = w'.credited u - Ledger.debited w'.db.ledger u) ∧
      (((Ledger.deltas w'.db.ledger u fun _ => true).map Int.natAbs).sum ≤ i64Max →
        Ledger.balance w'.db.ledger u = some (w'.credited u - Ledger.debited w'.db.ledger u)) := by
  have h : Inv w' := Lts.run_invariant_of_meets (I := Inv) (fun _ _ _ hI hc hs => step_inv hI hc hs)
    (Inv.of_fresh hfresh) hok hrun
  have hbalance : (Ledger.deltas w'.db.ledger u fun _ => true).sum =
      Ledger.granted w'.db.ledger u - Ledger.debited w'.db.ledger u := Ledger.sum_deltas
  rw [h.granted u] at hbalance
  refine ⟨(h.booked u).debited, ?_, fun b hb => ?_, fun hsmall => ?_⟩
  · rw [(h.booked u).debited]
    exact Int.ofNat_le.2 (owed_le (h.justified u))
  · exact (Ledger.sqlSum_eq hb).trans hbalance
  · rw [← hbalance]
    exact Ledger.sqlSum_of_small hsmall

/-- A turn with nothing in between. -/
def wholeTurn (p : π) (u : υ) (now : Int) (reading : Reading ι) : List (Act π υ ι) :=
  [.readBasis p u now, .read p reading, .settle p now]

/-- Two instances and a restart: the second instance settles first. -/
def overlappingTurns : List (Act Bool Unit Unit) :=
  [.credit () 100 .adminGrant, .restart () () 1, .count () () 1 10, .readBasis false () 0,
    .readBasis true () 0, .read false (.single () 1 7), .restart () () 2, .count () () 2 5,
    .read true (.single () 2 4), .settle true 0, .settle false 0] ++
    wholeTurn false () 1 (.single () 1 10) ++ wholeTurn true () 2 (.single () 2 5)

theorem debited_overlappingTurns :
    ∃ w' : World Bool Unit Unit, Lts.run step empty overlappingTurns = some w' ∧
      Ledger.debited w'.db.ledger () = 5 := by
  have hrun : (Lts.run step empty overlappingTurns).isSome := by decide +kernel
  obtain ⟨w', hw'⟩ := Option.isSome_iff_exists.1 hrun
  refine ⟨w', hw', (debited_eq_owed fresh_empty (by decide +kernel) hw' ()).1.trans ?_⟩
  have howed :
      (Lts.run step empty overlappingTurns).map (fun w => owed (w.settled ())) = some 5 := by
    decide +kernel
  rw [hw'] at howed
  exact congrArg _ (Option.some.inj howed)

/-- Two series of half of `2 ^ 63` each. -/
def halves : Reading Bool where
  entries := [(⟨false, 1, 2 ^ 62⟩, 0), (⟨true, 1, 2 ^ 62⟩, 0)]
  nodup := by decide

/-- A round whose total is past `i64::MAX` debits `i64::MAX`, and the rest is never debited. -/
theorem debited_short :
    (Lts.run step (empty : World Unit Unit Bool)
      ([.restart () false 1, .count () false 1 (2 ^ 62), .restart () true 1,
        .count () true 1 (2 ^ 62)] ++ wholeTurn () () 0 halves ++ wholeTurn () () 1 halves)).map
      (fun w => (Ledger.debited w.db.ledger (), owed (w.settled ()), w.trueSpend ())) =
        some (2 ^ 63 - 1, 2 ^ 63, 2 ^ 63) := by
  decide +kernel

end World

end Portal
end Aisix
