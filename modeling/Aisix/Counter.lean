import Mathlib.Algebra.BigOperators.Group.Finset.Basic
import Mathlib.Algebra.Order.BigOperators.Group.Finset
import Mathlib.Algebra.Order.Ring.Nat

/-!
# Aisix.Counter

Counters that restart. A counter, named by a key, is a sequence of incarnations with their start
times; a report says what one incarnation had counted. Reports arrive late and out of order, and a
history of them is written latest first.

* `peak h k t` — the most the incarnation of `k` started at `t` reported while it was the newest.
* `owed h`     — the sum of the peaks.
* `advance`    — a cursor that holds the newest incarnation and its peak, moved by one report.

`Tracks.owed_append` says that the charges of the cursors add up to `owed`, and `owed_le` that they
are never more than what was counted.
-/

namespace Aisix
namespace Counter

structure Report (ι : Type*) where
  key : ι
  start : Int
  value : Nat
  deriving DecidableEq, Repr

variable {ι : Type*} [DecidableEq ι]

/-- No report in `h` is from a later incarnation of the counter. -/
def Report.Leads (r : Report ι) (h : List (Report ι)) : Prop :=
  ∀ q ∈ h, q.key = r.key → q.start ≤ r.start

instance (r : Report ι) (h : List (Report ι)) : Decidable (r.Leads h) :=
  inferInstanceAs (Decidable (∀ q ∈ h, q.key = r.key → q.start ≤ r.start))

def peak : List (Report ι) → ι → Int → Nat
  | [], _, _ => 0
  | r :: h, k, t =>
    if (r.key, r.start) = (k, t) ∧ r.Leads h then max r.value (peak h k t) else peak h k t

/-- The incarnations that reported. -/
def incarnations (h : List (Report ι)) : Finset (ι × Int) :=
  (h.map fun r => (r.key, r.start)).toFinset

def owed (h : List (Report ι)) : Nat := ∑ p ∈ incarnations h, peak h p.1 p.2

/-- What a report adds to the debt, and the cursor after it. -/
def advance : Option (Nat × Int) → Int → Nat → Nat × (Nat × Int)
  | none, start, value => (value, value, start)
  | some (prev, was), start, value =>
    if start > was then (value, value, start)
    else if start < was ∨ value < prev then (0, prev, was)
    else (value - prev, value, was)

/-- The cursor `c` of `k` holds its newest incarnation in `h` and what that one peaked at. -/
def Tracks (h : List (Report ι)) (k : ι) : Option (Nat × Int) → Prop
  | none => ∀ q ∈ h, q.key ≠ k
  | some (prev, was) =>
    (k, was) ∈ incarnations h ∧ (∀ q ∈ h, q.key = k → q.start ≤ was) ∧ prev = peak h k was

theorem advance_le {bound : Nat} {c : Option (Nat × Int)} {start : Int} {value : Nat}
    (hc : ∀ p ∈ c, p.1 ≤ bound) (hvalue : value ≤ bound) : (advance c start value).2.1 ≤ bound := by
  cases c with
  | none => exact hvalue
  | some p =>
    obtain ⟨prev, was⟩ := p
    have hprev : prev ≤ bound := hc (prev, was) rfl
    rw [advance]
    split
    · exact hvalue
    · split
      · exact hprev
      · exact hvalue

section Peak

variable {h : List (Report ι)} {r : Report ι} {k : ι} {t : Int}

theorem mem_incarnations : (k, t) ∈ incarnations h ↔ ∃ q ∈ h, q.key = k ∧ q.start = t := by
  simp [incarnations]

theorem incarnations_cons : incarnations (r :: h) = insert (r.key, r.start) (incarnations h) := by
  simp [incarnations]

theorem peak_eq_zero (hnot : (k, t) ∉ incarnations h) : peak h k t = 0 := by
  induction h with
  | nil => rfl
  | cons r h ih =>
    rw [incarnations_cons, Finset.mem_insert, not_or] at hnot
    rw [peak, if_neg fun hlead => hnot.1 hlead.1.symm, ih hnot.2]

theorem peak_cons_of_ne (hne : (k, t) ≠ (r.key, r.start)) : peak (r :: h) k t = peak h k t := by
  rw [peak, if_neg fun hlead => hne hlead.1.symm]

theorem peak_cons_of_leads (hlead : r.Leads h) :
    peak (r :: h) r.key r.start = max r.value (peak h r.key r.start) := by
  rw [peak, if_pos ⟨rfl, hlead⟩]

theorem peak_cons_of_not_leads (hlead : ¬ r.Leads h) : peak (r :: h) k t = peak h k t := by
  rw [peak, if_neg fun h => hlead h.2]

theorem exists_peak_le (hmem : (k, t) ∈ incarnations h) :
    ∃ r ∈ h, (r.key, r.start) = (k, t) ∧ peak h k t ≤ r.value := by
  induction h with
  | nil => simp [incarnations] at hmem
  | cons r h ih =>
    by_cases hold : (k, t) ∈ incarnations h
    · obtain ⟨q, hq, heq, hle⟩ := ih hold
      rw [peak]
      split
      · rename_i hlead
        rcases Nat.le_total r.value q.value with h | h
        · exact ⟨q, List.mem_cons_of_mem _ hq, heq, Nat.max_le.2 ⟨h, hle⟩⟩
        · exact ⟨r, List.mem_cons_self, hlead.1, Nat.max_le.2 ⟨Nat.le_refl _, hle.trans h⟩⟩
      · exact ⟨q, List.mem_cons_of_mem _ hq, heq, hle⟩
    · rw [incarnations_cons, Finset.mem_insert] at hmem
      refine ⟨r, List.mem_cons_self, (hmem.resolve_right hold).symm, ?_⟩
      rw [peak, peak_eq_zero hold]
      split
      · exact Nat.max_le.2 ⟨Nat.le_refl _, Nat.zero_le _⟩
      · exact Nat.zero_le _

theorem owed_cons :
    owed (r :: h) + peak h r.key r.start = owed h + peak (r :: h) r.key r.start := by
  let p := (r.key, r.start)
  have hmem : p ∈ insert p (incarnations h) := Finset.mem_insert_self _ _
  have hold : owed h = ∑ q ∈ insert p (incarnations h), peak h q.1 q.2 := by
    refine (Finset.sum_insert_of_eq_zero_if_notMem ?_).symm
    exact fun hnot => peak_eq_zero hnot
  have hrest : ∑ q ∈ (insert p (incarnations h)).erase p, peak (r :: h) q.1 q.2 =
      ∑ q ∈ (insert p (incarnations h)).erase p, peak h q.1 q.2 := by
    refine Finset.sum_congr rfl fun q hq => peak_cons_of_ne ?_
    exact (Finset.mem_erase.1 hq).1
  rw [hold, owed, incarnations_cons, ← Finset.add_sum_erase _ _ hmem, hrest,
    ← Finset.add_sum_erase _ (fun q => peak h q.1 q.2) hmem]
  change peak (r :: h) r.key r.start + _ + peak h r.key r.start =
    peak h r.key r.start + _ + peak (r :: h) r.key r.start
  omega

end Peak

section Cursor

variable {h : List (Report ι)} {r : Report ι} {k : ι} {c : Option (Nat × Int)}

theorem Tracks.cons_of_ne (hc : Tracks h k c) (hne : r.key ≠ k) : Tracks (r :: h) k c := by
  cases c with
  | none => exact List.forall_mem_cons.2 ⟨hne, hc⟩
  | some p =>
    obtain ⟨hmem, hmax, hpeak⟩ := hc
    refine ⟨?_, List.forall_mem_cons.2 ⟨fun heq => absurd heq hne, hmax⟩, ?_⟩
    · rw [incarnations_cons]
      exact Finset.mem_insert_of_mem hmem
    · rw [peak_cons_of_ne fun heq => hne (congrArg Prod.fst heq).symm]
      exact hpeak

theorem Tracks.cons_of_leads (hlead : r.Leads h) :
    Tracks (r :: h) r.key (some (max r.value (peak h r.key r.start), r.start)) := by
  refine ⟨?_, ?_, (peak_cons_of_leads hlead).symm⟩
  · rw [incarnations_cons]
    exact Finset.mem_insert_self _ _
  · exact List.forall_mem_cons.2 ⟨fun _ => Int.le_refl _, hlead⟩

theorem Tracks.step (hc : Tracks h r.key c) :
    owed (r :: h) = owed h + (advance c r.start r.value).1 ∧
      Tracks (r :: h) r.key (some (advance c r.start r.value).2) := by
  have howed := owed_cons (h := h) (r := r)
  cases c with
  | none =>
    have hlead : r.Leads h := fun q hq heq => absurd heq (hc q hq)
    have hzero : peak h r.key r.start = 0 := peak_eq_zero fun hmem => by
      obtain ⟨q, hq, heq, -⟩ := mem_incarnations.1 hmem
      exact hc q hq heq
    have htracks := Tracks.cons_of_leads hlead
    rw [peak_cons_of_leads hlead] at howed
    rw [hzero, Nat.max_zero] at howed htracks
    exact ⟨by simpa [advance] using howed, htracks⟩
  | some p =>
    obtain ⟨prev, was⟩ := p
    obtain ⟨hmem, hmax, hpeak⟩ := hc
    rcases lt_trichotomy r.start was with hlt | heq | hgt
    · -- an earlier incarnation: neither the debt nor the cursor moves
      obtain ⟨q, hq, hkey, hstart⟩ := mem_incarnations.1 hmem
      have hlead : ¬ r.Leads h := fun hlead => absurd (hlead q hq hkey) (by omega)
      rw [peak_cons_of_not_leads hlead] at howed
      have hadvance : advance (some (prev, was)) r.start r.value = (0, prev, was) := by
        rw [advance, if_neg (by omega), if_pos (.inl hlt)]
      rw [hadvance]
      refine ⟨by simpa using howed, ?_, ?_, ?_⟩
      · rw [incarnations_cons]
        exact Finset.mem_insert_of_mem hmem
      · exact List.forall_mem_cons.2 ⟨fun _ => Int.le_of_lt hlt, hmax⟩
      · rw [peak_cons_of_not_leads hlead]
        exact hpeak
    · subst heq
      have hlead : r.Leads h := hmax
      have htracks := Tracks.cons_of_leads hlead
      rw [peak_cons_of_leads hlead] at howed
      rw [← hpeak] at howed htracks
      by_cases hback : r.value < prev
      · have hadvance : advance (some (prev, r.start)) r.start r.value = (0, prev, r.start) := by
          rw [advance, if_neg (by omega), if_pos (.inr hback)]
        rw [Nat.max_eq_right (Nat.le_of_lt hback)] at howed htracks
        rw [hadvance]
        exact ⟨by simpa using howed, htracks⟩
      · have hadvance : advance (some (prev, r.start)) r.start r.value =
            (r.value - prev, r.value, r.start) := by
          rw [advance, if_neg (by omega), if_neg (by omega)]
        rw [Nat.max_eq_left (Nat.le_of_not_lt hback)] at howed htracks
        rw [hadvance]
        exact ⟨by change owed _ = owed _ + (r.value - prev); omega, htracks⟩
    · -- a new incarnation: nothing of it was reported before
      have hlead : r.Leads h :=
        fun q hq heq => Int.le_of_lt (Int.lt_of_le_of_lt (hmax q hq heq) hgt)
      have hzero : peak h r.key r.start = 0 := peak_eq_zero fun hmem => by
        obtain ⟨q, hq, heq, hstart⟩ := mem_incarnations.1 hmem
        exact absurd (hmax q hq heq) (by omega)
      have htracks := Tracks.cons_of_leads hlead
      rw [peak_cons_of_leads hlead] at howed
      rw [hzero, Nat.max_zero] at howed htracks
      rw [advance, if_pos hgt]
      exact ⟨by simpa using howed, htracks⟩

end Cursor

section Batch

variable {h rs : List (Report ι)} {k : ι} (cursor : ι → Option (Nat × Int))

theorem Tracks.append_of_notMem {c : Option (Nat × Int)} (hc : Tracks h k c)
    (hnot : k ∉ rs.map Report.key) : Tracks (rs ++ h) k c := by
  induction rs with
  | nil => exact hc
  | cons r rs ih =>
    rw [List.map_cons, List.mem_cons, not_or] at hnot
    exact (ih hnot.2).cons_of_ne fun heq => hnot.1 heq.symm

theorem Tracks.append_of_mem (hc : ∀ k, Tracks h k (cursor k)) (hnodup : (rs.map Report.key).Nodup)
    {r : Report ι} (hr : r ∈ rs) :
    Tracks (rs ++ h) r.key (some (advance (cursor r.key) r.start r.value).2) := by
  induction rs with
  | nil => cases hr
  | cons q rs ih =>
    rw [List.map_cons, List.nodup_cons] at hnodup
    rcases List.mem_cons.1 hr with rfl | hr
    · exact ((hc r.key).append_of_notMem hnodup.1).step.2
    · refine (ih hnodup.2 hr).cons_of_ne fun heq => hnodup.1 ?_
      rw [heq]
      exact List.mem_map_of_mem hr

theorem Tracks.owed_append (hc : ∀ k, Tracks h k (cursor k)) (hnodup : (rs.map Report.key).Nodup) :
    owed (rs ++ h) =
      owed h + (rs.map fun r => (advance (cursor r.key) r.start r.value).1).sum := by
  induction rs with
  | nil => simp
  | cons r rs ih =>
    rw [List.map_cons, List.nodup_cons] at hnodup
    have hstep := ((hc r.key).append_of_notMem hnodup.1).step.1
    rw [List.cons_append, hstep, ih hnodup.2, List.map_cons, List.sum_cons]
    omega

end Batch

section Truth

variable {ι : Type*} {h counted : List (Report ι)}

/-- Every report says no more than its incarnation counted. -/
def Justified (counted h : List (Report ι)) : Prop :=
  ∀ r ∈ h, ∃ c ∈ counted, (c.key, c.start) = (r.key, r.start) ∧ r.value ≤ c.value

theorem Justified.mono {counted' : List (Report ι)} (h' : Justified counted h)
    (hgrown : ∀ c ∈ counted, ∃ c' ∈ counted', (c'.key, c'.start) = (c.key, c.start) ∧
      c.value ≤ c'.value) :
    Justified counted' h := by
  intro r hr
  obtain ⟨c, hc, hkey, hle⟩ := h' r hr
  obtain ⟨c', hc', hkey', hle'⟩ := hgrown c hc
  exact ⟨c', hc', hkey'.trans hkey, hle.trans hle'⟩

theorem Justified.append {rs : List (Report ι)} (hrs : Justified counted rs)
    (h' : Justified counted h) : Justified counted (rs ++ h) :=
  fun r hr => (List.mem_append.1 hr).elim (hrs r) (h' r)

variable [DecidableEq ι]

theorem sum_le_of_covered {f : ι × Int → Nat} :
    ∀ {s : Finset (ι × Int)}, (∀ p ∈ s, ∃ c ∈ counted, (c.key, c.start) = p ∧ f p ≤ c.value) →
      ∑ p ∈ s, f p ≤ (counted.map Report.value).sum := by
  induction counted with
  | nil =>
    intro s hs
    have hempty : s = ∅ := Finset.eq_empty_of_forall_notMem fun p hp => by simpa using hs p hp
    simp [hempty]
  | cons c counted ih =>
    intro s hs
    rw [List.map_cons, List.sum_cons]
    by_cases hrest : ∀ p ∈ s, ∃ c' ∈ counted, (c'.key, c'.start) = p ∧ f p ≤ c'.value
    · exact (ih hrest).trans (Nat.le_add_left _ _)
    · push Not at hrest
      obtain ⟨p, hp, hnone⟩ := hrest
      have hcovered : (c.key, c.start) = p ∧ f p ≤ c.value := by
        obtain ⟨c', hmem, heq, hle⟩ := hs p hp
        rcases List.mem_cons.1 hmem with rfl | hmem
        · exact ⟨heq, hle⟩
        · exact absurd hle (Nat.not_le_of_lt (hnone c' hmem heq))
      have herase : ∑ q ∈ s.erase p, f q ≤ (counted.map Report.value).sum := by
        refine ih fun q hq => ?_
        obtain ⟨hne, hq⟩ := Finset.mem_erase.1 hq
        obtain ⟨c', hmem, heq, hle⟩ := hs q hq
        rcases List.mem_cons.1 hmem with rfl | hmem
        · exact absurd (heq.symm.trans hcovered.1) hne
        · exact ⟨c', hmem, heq, hle⟩
      rw [← Finset.add_sum_erase _ _ hp]
      have := hcovered.2
      omega

theorem peak_covered (hjust : Justified counted h) {k : ι} {t : Int}
    (hmem : (k, t) ∈ incarnations h) :
    ∃ c ∈ counted, (c.key, c.start) = (k, t) ∧ peak h k t ≤ c.value := by
  obtain ⟨r, hr, heq, hpeak⟩ := exists_peak_le hmem
  obtain ⟨c, hc, hkey, hle⟩ := hjust r hr
  exact ⟨c, hc, hkey.trans heq, hpeak.trans hle⟩

theorem owed_le (hjust : Justified counted h) : owed h ≤ (counted.map Report.value).sum :=
  sum_le_of_covered fun _ hp => peak_covered hjust hp

end Truth

end Counter
end Aisix
