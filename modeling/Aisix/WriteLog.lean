import Mathlib.Data.List.Basic
import Mathlib.Data.Fintype.Basic
import Mathlib.Logic.Function.Basic
import Mathlib.Algebra.Order.Ring.Nat

/-!
# Aisix.WriteLog

A log of keyed writes, the `i`-th of which has revision `i + 1`, and streams that each deliver the
writes of some of its keys in order.

* `held log k n`      — what key `k` holds after the first `n` writes.
* `deliver`           — the next writes of the streams, in the order in which they are merged.
* `Current`           — a position of a key that no delivery of the key is ahead of.
* `NoOverdue`         — no write up to a revision is still to come, unless another stream brought
  it.

`quiet_of_current` says that what a key holds at a current position is what it holds at every
revision up to which nothing is overdue; `Current.deliver` carries the position through a batch.
-/

namespace Aisix
namespace WriteLog

/-- A write; no value is a deletion. -/
structure Write (κ β : Type) where
  key : κ
  value : Option β
  deriving DecidableEq

section Held

variable {κ β : Type} [DecidableEq κ] {log : List (Write κ β)} {k : κ} {a b n : Nat}

/-- What the key holds after the first `n` writes, with the revision it was written at. -/
def held (log : List (Write κ β)) (k : κ) : Nat → Option (β × Nat)
  | 0 => none
  | n + 1 =>
    match log[n]? with
    | some w => if w.key = k then w.value.map (·, n + 1) else held log k n
    | none => held log k n

/-- No write of the key at the positions from `a` to `b`. -/
def Quiet (log : List (Write κ β)) (k : κ) (a b : Nat) : Prop :=
  ∀ i w, a ≤ i → i < b → log[i]? = some w → w.key ≠ k

theorem held_write {i : Nat} {w : Write κ β} (h : log[i]? = some w) :
    held log w.key (i + 1) = w.value.map (·, i + 1) := by
  simp [held, h]

theorem held_of_quiet (hab : a ≤ b) (h : Quiet log k a b) : held log k b = held log k a := by
  induction b, hab using Nat.le_induction with
  | base => rfl
  | succ b hab ih =>
    have hprev : Quiet log k a b := fun i w hi hlt => h i w hi (by omega)
    rw [← ih hprev, held]
    cases hw : log[b]? with
    | none => rfl
    | some w => exact if_neg (h b w hab (by omega) hw)

theorem held_append (hn : n ≤ log.length) (more : List (Write κ β)) :
    held (log ++ more) k n = held log k n := by
  induction n with
  | zero => rfl
  | succ n ih =>
    have hget : (log ++ more)[n]? = log[n]? := List.getElem?_append_left (by omega)
    simp only [held, hget, ih (by omega)]

theorem exists_write_of_held {v : β × Nat} (h : held log k n = some v) : ∃ w ∈ log, w.key = k := by
  induction n with
  | zero => cases h
  | succ n ih =>
    rw [held] at h
    split at h
    next w hw =>
      split at h
      next hk => exact ⟨w, List.mem_of_getElem? hw, hk⟩
      next => exact ih h
    next => exact ih h

/-- The last write of a key among some positions. -/
def lastOf (log : List (Write κ β)) (k : κ) (positions : List Nat) : Option Nat :=
  (positions.filter fun i => decide (log[i]?.map (·.key) = some k)).getLast?

theorem foldl_ite_eq_elim {γ : Type} (q : Nat → Bool) (g : Nat → γ) (positions : List Nat) (v : γ) :
    positions.foldl (fun v i => if q i then g i else v) v =
      ((positions.filter q).getLast?).elim v g := by
  induction positions generalizing v with
  | nil => rfl
  | cons i is ih =>
    rw [List.foldl_cons, ih]
    by_cases hq : q i = true
    · rw [List.filter_cons_of_pos hq, List.getLast?_cons, if_pos hq]
      cases (is.filter q).getLast? <;> rfl
    · rw [List.filter_cons_of_neg hq, if_neg hq]

theorem lastOf_eq_some {positions : List Nat} {i : Nat} (h : lastOf log k positions = some i) :
    i ∈ positions ∧ ∃ w, log[i]? = some w ∧ w.key = k := by
  have hmem := List.mem_of_getLast? h
  rw [List.mem_filter] at hmem
  obtain ⟨w, hw, hk⟩ := Option.map_eq_some_iff.1 (of_decide_eq_true hmem.2)
  exact ⟨hmem.1, w, hw, hk⟩

theorem lastOf_ne_none {positions : List Nat} {i : Nat} {w : Write κ β} (hi : i ∈ positions)
    (hw : log[i]? = some w) (hk : w.key = k) : lastOf log k positions ≠ none := by
  intro hnone
  rw [lastOf, List.getLast?_eq_none_iff, List.filter_eq_nil_iff] at hnone
  exact hnone i hi (by simp [hw, hk])

end Held

section Streams

variable {κ β σ : Type} [DecidableEq σ] {log : List (Write κ β)} {feed : σ → κ → Bool}

/-- The first position from `start` on with a write of the keys `p`. -/
def next (log : List (Write κ β)) (p : κ → Bool) (start : Nat) : Option Nat :=
  ((log.drop start).findIdx? fun w => p w.key).map (start + ·)

/-- One write after the other: of which stream each is, is given. The positions that are delivered,
and where each stream stands afterwards. -/
def deliver (log : List (Write κ β)) (feed : σ → κ → Bool) :
    List σ → (σ → Nat) → Option (List Nat × (σ → Nat))
  | [], cursor => some ([], cursor)
  | s :: merge, cursor =>
    (next log (feed s) (cursor s)).bind fun i =>
      (deliver log feed merge (Function.update cursor s (i + 1))).map fun (positions, cursor) =>
        (i :: positions, cursor)

theorem next_spec {p : κ → Bool} {start i : Nat} (h : next log p start = some i) :
    start ≤ i ∧ (∃ w, log[i]? = some w ∧ p w.key = true) ∧
      ∀ j w, start ≤ j → j < i → log[j]? = some w → p w.key = false := by
  obtain ⟨d, hd, rfl⟩ := Option.map_eq_some_iff.1 h
  rw [List.findIdx?_eq_some_iff_getElem] at hd
  obtain ⟨hlt, hp, hbefore⟩ := hd
  refine ⟨by omega, ⟨(log.drop start)[d], ?_, hp⟩, fun j w hj hlt' hw => ?_⟩
  · rw [← List.getElem?_drop]
    exact List.getElem?_eq_getElem hlt
  · have hget : (log.drop start)[j - start]? = some w := by
      rw [List.getElem?_drop, show start + (j - start) = j from by omega, hw]
    obtain ⟨hlt'', heq⟩ := List.getElem?_eq_some_iff.1 hget
    have := hbefore (j - start) (by omega)
    rw [heq] at this
    simpa using this

variable {merge : List σ} {cursor cursor' : σ → Nat} {positions : List Nat}

theorem deliver_cons {s : σ}
    (h : deliver log feed (s :: merge) cursor = some (positions, cursor')) :
    ∃ i rest, next log (feed s) (cursor s) = some i ∧
      deliver log feed merge (Function.update cursor s (i + 1)) = some (rest, cursor') ∧
      positions = i :: rest := by
  simp only [deliver, Option.bind_eq_some_iff, Option.map_eq_some_iff, Prod.mk.injEq,
    Prod.exists] at h
  obtain ⟨i, hi, rest, c, hrest, rfl, rfl⟩ := h
  exact ⟨i, rest, hi, hrest, rfl⟩

theorem deliver_cursor (h : deliver log feed merge cursor = some (positions, cursor')) (s : σ) :
    cursor s ≤ cursor' s ∧ (cursor s ≤ log.length → cursor' s ≤ log.length) := by
  induction merge generalizing cursor positions with
  | nil =>
    obtain ⟨-, rfl⟩ := Prod.mk.inj (Option.some.inj h)
    exact ⟨le_refl _, id⟩
  | cons s' merge ih =>
    obtain ⟨i, rest, hi, hrest, rfl⟩ := deliver_cons h
    obtain ⟨hle, ⟨w, hw, -⟩, -⟩ := next_spec hi
    have hlt : i < log.length := (List.getElem?_eq_some_iff.1 hw).1
    have hih := ih hrest
    by_cases hs : s = s'
    · subst hs
      rw [Function.update_self] at hih
      exact ⟨by omega, fun _ => hih.2 (by omega)⟩
    · rw [Function.update_of_ne hs] at hih
      exact hih

theorem deliver_mem (h : deliver log feed merge cursor = some (positions, cursor')) {i : Nat}
    (hi : i ∈ positions) :
    ∃ s w, log[i]? = some w ∧ feed s w.key = true ∧ cursor s ≤ i ∧ i < cursor' s := by
  induction merge generalizing cursor positions with
  | nil =>
    obtain ⟨rfl, -⟩ := Prod.mk.inj (Option.some.inj h)
    cases hi
  | cons s merge ih =>
    obtain ⟨j, rest, hj, hrest, rfl⟩ := deliver_cons h
    obtain ⟨hle, ⟨w, hw, hp⟩, -⟩ := next_spec hj
    rcases List.mem_cons.1 hi with rfl | hi
    · refine ⟨s, w, hw, hp, hle, ?_⟩
      have := (deliver_cursor hrest s).1
      rw [Function.update_self] at this
      omega
    · obtain ⟨s', w', hw', hp', hle', hlt'⟩ := ih hrest hi
      refine ⟨s', w', hw', hp', ?_, hlt'⟩
      by_cases hs : s' = s
      · subst hs
        rw [Function.update_self] at hle'
        omega
      · rwa [Function.update_of_ne hs] at hle'

theorem mem_deliver (h : deliver log feed merge cursor = some (positions, cursor')) {s : σ}
    {i : Nat} {w : Write κ β} (hw : log[i]? = some w) (hp : feed s w.key = true)
    (hle : cursor s ≤ i) (hlt : i < cursor' s) : i ∈ positions := by
  induction merge generalizing cursor positions with
  | nil =>
    obtain ⟨-, rfl⟩ := Prod.mk.inj (Option.some.inj h)
    omega
  | cons s' merge ih =>
    obtain ⟨j, rest, hj, hrest, rfl⟩ := deliver_cons h
    obtain ⟨-, -, hbefore⟩ := next_spec hj
    by_cases hs : s = s'
    · subst hs
      rcases lt_trichotomy i j with hij | rfl | hij
      · rw [hbefore i w hle hij hw] at hp
        cases hp
      · exact List.mem_cons_self
      · exact List.mem_cons_of_mem _ (ih hrest (by rw [Function.update_self]; omega))
    · exact List.mem_cons_of_mem _ (ih hrest (by rwa [Function.update_of_ne hs]))

end Streams

section Order

variable {κ β σ : Type} {log : List (Write κ β)} {feed : σ → κ → Bool}
  {reads cursor cursor' : σ → Nat} {k : κ} {n r : Nat}

/-- The position `n` of a key is not behind what was read of it, nor behind any delivery of it. -/
structure Current (log : List (Write κ β)) (feed : σ → κ → Bool) (reads cursor : σ → Nat) (k : κ)
    (n : Nat) : Prop where
  read : ∀ m, (∀ s, feed s k → m ≤ reads s) → m ≤ n
  delivered : ∀ s i w, log[i]? = some w → w.key = k → feed s k → reads s ≤ i → i < cursor s → i < n

/-- A write below `r` that a stream has still to deliver was delivered by another stream. -/
def NoOverdue (log : List (Write κ β)) (feed : σ → κ → Bool) (reads cursor : σ → Nat) (r : Nat) :
    Prop :=
  ∀ s, ∀ i < r, ∀ w ∈ log[i]?, feed s w.key → cursor s ≤ i →
    ∃ other, feed other w.key ∧ reads other ≤ i ∧ i < cursor other

/-- The last write of a key in a batch is the newest write of the key that a stream has delivered.
-/
def NoStepBack [DecidableEq κ] (log : List (Write κ β)) (feed : σ → κ → Bool)
    (reads cursor : σ → Nat) (positions : List Nat) : Prop :=
  ∀ s, ∀ i < cursor s, reads s ≤ i → ∀ w ∈ log[i]?, feed s w.key →
    ∀ m ∈ lastOf log w.key positions, i ≤ m

instance [Fintype σ] : Decidable (NoOverdue log feed reads cursor r) :=
  inferInstanceAs (Decidable (∀ _, _))

instance [Fintype σ] [DecidableEq κ] (positions : List Nat) :
    Decidable (NoStepBack log feed reads cursor positions) :=
  inferInstanceAs (Decidable (∀ _, _))

/-- From a current position on, nothing of the key was written up to where nothing is overdue. -/
theorem quiet_of_current (hcurrent : Current log feed reads cursor k n)
    (hoverdue : NoOverdue log feed reads cursor r) {s : σ} (hs : feed s k) : Quiet log k n r := by
  rintro i w hn hr hw rfl
  by_cases hall : ∀ s, feed s w.key → i < reads s
  · have := hcurrent.read (i + 1) fun s hs => hall s hs
    omega
  · push Not at hall
    obtain ⟨s', hs', hread⟩ := hall
    by_cases hpassed : i < cursor s'
    · have := hcurrent.delivered s' i w hw rfl hs' hread hpassed
      omega
    · obtain ⟨other, hother, hread', hlt⟩ := hoverdue s' i hr w hw hs' (by omega)
      have := hcurrent.delivered other i w hw rfl hother hread' hlt
      omega

theorem NoOverdue.mono (h : NoOverdue log feed reads cursor r) (hle : ∀ s, cursor s ≤ cursor' s) :
    NoOverdue log feed reads cursor' r := by
  intro s i hi w hw hs hcursor
  obtain ⟨other, hother, hread, hlt⟩ := h s i hi w hw hs ((hle s).trans hcursor)
  exact ⟨other, hother, hread, hlt.trans_le (hle other)⟩

theorem NoOverdue.max {r' : Nat} (h : NoOverdue log feed reads cursor r)
    (h' : NoOverdue log feed reads cursor r') : NoOverdue log feed reads cursor (max r r') := by
  intro s i hi w hw hs hcursor
  rcases lt_max_iff.1 hi with hi | hi
  · exact h s i hi w hw hs hcursor
  · exact h' s i hi w hw hs hcursor

theorem NoOverdue.append (h : NoOverdue log feed reads cursor r) (hr : r ≤ log.length)
    (more : List (Write κ β)) : NoOverdue (log ++ more) feed reads cursor r := by
  intro s i hi w hw hs hcursor
  rw [List.getElem?_append_left (by omega)] at hw
  exact h s i hi w hw hs hcursor

theorem Current.append (h : Current log feed reads cursor k n)
    (hcursor : ∀ s, cursor s ≤ log.length)
    (more : List (Write κ β)) : Current (log ++ more) feed reads cursor k n := by
  refine ⟨h.read, fun s i w hw hk hs hread hlt => ?_⟩
  rw [List.getElem?_append_left (by have := hcursor s; omega)] at hw
  exact h.delivered s i w hw hk hs hread hlt

theorem Current.deliver [DecidableEq κ] [DecidableEq σ] {merge : List σ} {positions : List Nat}
    (h : Current log feed reads cursor k n) (hreads : ∀ s, reads s ≤ cursor s)
    (hd : WriteLog.deliver log feed merge cursor = some (positions, cursor'))
    (hback : NoStepBack log feed reads cursor' positions) :
    Current log feed reads cursor' k ((lastOf log k positions).elim n (· + 1)) := by
  cases hlast : lastOf log k positions with
  | none =>
    refine ⟨h.read, fun s i w hw hk hs hread hlt => ?_⟩
    by_cases hbefore : i < cursor s
    · exact h.delivered s i w hw hk hs hread hbefore
    · have hmem := mem_deliver hd hw (by rw [hk]; exact hs) (by omega) hlt
      exact absurd hlast (lastOf_ne_none hmem hw hk)
  | some m =>
    obtain ⟨hmem, w, hw, rfl⟩ := lastOf_eq_some hlast
    refine ⟨fun m' hm' => ?_, fun s i w' hw' hk hs hread hlt => ?_⟩
    · obtain ⟨s, w', hw', hp, hle, -⟩ := deliver_mem hd hmem
      obtain rfl : w = w' := Option.some.inj (hw.symm.trans hw')
      have := hm' s hp
      have := hreads s
      simp only [Option.elim_some]
      omega
    · have := hback s i hlt hread w' hw' (by rw [hk]; exact hs) m (by rw [hk]; exact hlast)
      simp only [Option.elim_some]
      omega

end Order

end WriteLog
end Aisix
