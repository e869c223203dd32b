import Mathlib.Algebra.Order.BigOperators.Group.Finset
import Mathlib.Algebra.Order.Ring.Int
import Mathlib.Algebra.BigOperators.Group.Finset.Piecewise
import Mathlib.Data.List.GetD
import Mathlib.Tactic.Linarith
import Mathlib.Tactic.Ring

/-!
# Aisix.SmoothRobin

Smooth weighted round-robin over a list of weights. Every pick adds each weight to its counter,
takes the first greatest counter, and takes the sum of all weights off it. From counters at zero the
picks are exact: after as many picks as the weights add up to, each index was picked as often as its
weight says and the counters are at zero again (`drawn_sum`), so every window of that length has the
same counts (`count_window`).
-/

namespace Aisix
namespace SmoothRobin

/-- One pass over the weights from index `i` on: the counters after it, and the index of the first
greatest counter seen. -/
def loop : List Int → Nat → List Int → Nat → List Int × Nat
  | [], _, current, best => (current, best)
  | w :: ws, i, current, best =>
    let current := current.modify i (· + w)
    loop ws (i + 1) current (if current.getD best 0 < current.getD i 0 then i else best)

/-- One pick: the index picked, and the counters it leaves. -/
def pick (weights current : List Int) : Nat × List Int :=
  let (current, best) := loop weights 0 current 0
  (best, current.modify best (· - weights.sum))

/-- So many picks: the indices picked, and the counters they leave. -/
def drawn (weights : List Int) : Nat → List Int → List Nat × List Int
  | 0, current => ([], current)
  | n + 1, current =>
    let rest := drawn weights n (pick weights current).2
    ((pick weights current).1 :: rest.1, rest.2)

/-! ### One pick -/

theorem getD_modify (l : List Int) (i j : Nat) (f : Int → Int) (hf : f 0 = 0 ∨ j < l.length) :
    (l.modify i f).getD j 0 = if i = j then f (l.getD j 0) else l.getD j 0 := by
  rw [List.getD_eq_getElem?_getD, List.getElem?_modify, List.getD_eq_getElem?_getD]
  cases h : l[j]? with
  | none =>
    have hlength := List.getElem?_eq_none_iff.mp h
    have hzero : f 0 = 0 := hf.resolve_right (by omega)
    by_cases hij : i = j <;> simp [hij, hzero]
  | some x =>
    by_cases hij : i = j <;> simp [hij]

theorem length_loop (ws : List Int) (i : Nat) (current : List Int) (best : Nat) :
    (loop ws i current best).1.length = current.length := by
  induction ws generalizing i current best with
  | nil => rfl
  | cons w ws ih =>
    simp only [loop]
    rw [ih, List.length_modify]

theorem getD_loop (ws : List Int) (i : Nat) (current : List Int) (best j : Nat)
    (hlength : i + ws.length = current.length) (hj : j < current.length) :
    (loop ws i current best).1.getD j 0 = current.getD j 0 +
      if i ≤ j then ws.getD (j - i) 0 else 0 := by
  induction ws generalizing i current best with
  | nil =>
    rw [List.length_nil] at hlength
    rw [if_neg (by omega)]
    exact (add_zero _).symm
  | cons w ws ih =>
    rw [List.length_cons] at hlength
    simp only [loop]
    rw [ih _ _ _ (by rw [List.length_modify]; omega) (by rw [List.length_modify]; exact hj),
      getD_modify _ _ _ _ (.inr hj)]
    rcases Nat.lt_trichotomy i j with hij | rfl | hij
    · rw [if_neg (by omega), if_pos (by omega), if_pos (by omega)]
      have hsub : j - i = (j - (i + 1)) + 1 := by omega
      rw [hsub, List.getD_cons_succ]
    · rw [if_pos rfl, if_neg (by omega), if_pos (Nat.le_refl _), Nat.sub_self]
      simp
    · rw [if_neg (by omega), if_neg (by omega), if_neg (by omega)]

theorem loop_best (ws : List Int) (i : Nat) (current : List Int) (best : Nat)
    (hlength : i + ws.length = current.length) (hbest : best < i ∨ best = 0 ∧ i = 0)
    (hmax : ∀ j < i, current.getD j 0 ≤ current.getD best 0) (hpos : 0 < current.length) :
    (loop ws i current best).2 < current.length ∧ ∀ j < current.length,
      (loop ws i current best).1.getD j 0 ≤ (loop ws i current best).1.getD
      (loop ws i current best).2 0 := by
  induction ws generalizing i current best with
  | nil =>
    rw [List.length_nil, Nat.add_zero] at hlength
    simp only [loop]
    exact ⟨by omega, fun j hj => hmax j (by omega)⟩
  | cons w ws ih =>
    rw [List.length_cons] at hlength
    simp only [loop]
    have hsame : ∀ j, j ≠ i → (current.modify i (· + w)).getD j 0 = current.getD j 0 := by
      intro j hj
      by_cases hin : j < current.length
      · rw [getD_modify _ _ _ _ (.inr hin), if_neg (Ne.symm hj)]
      · rw [List.getD_eq_default _ _ (by rw [List.length_modify]; omega),
          List.getD_eq_default _ _ (by omega)]
    have hmodified : (current.modify i (· + w)).length = current.length := List.length_modify ..
    rw [← hmodified] at hlength hpos ⊢
    refine ih (i + 1) (current.modify i (· + w)) _ (by omega) (.inl ?_) ?_ hpos
    · split <;> omega
    · intro j hj
      split
      · next hgreater =>
        by_cases hji : j = i
        · rw [hji]
        · have hbi : best ≠ i ∨ best = i := by omega
          rcases hbi with hbi | rfl
          · rw [hsame j hji]
            rw [hsame best hbi] at hgreater
            have hle := hmax j (by omega)
            omega
          · omega
      · next hle =>
        by_cases hji : j = i
        · rw [hji]
          omega
        · have hbi : best ≠ i := by omega
          rw [hsame j hji, hsame best hbi]
          exact hmax j (by omega)

theorem pick_fst_lt {weights current : List Int} (hlength : weights.length = current.length)
    (hpos : 0 < current.length) : (pick weights current).1 < current.length :=
  (loop_best weights 0 current 0 (by omega) (.inr ⟨rfl, rfl⟩) (by omega) hpos).1

theorem length_pick {weights current : List Int} :
    (pick weights current).2.length = current.length := by
  simp only [pick]
  rw [List.length_modify, length_loop]

/-- Every counter grows by its weight, and the one picked falls by the sum of the weights. -/
theorem getD_pick {weights current : List Int} (hlength : weights.length = current.length) {j : Nat}
    (hj : j < current.length) :
    (pick weights current).2.getD j 0 =
      current.getD j 0 + weights.getD j 0 -
        if (pick weights current).1 = j then weights.sum else 0 := by
  have hcounters : (pick weights current).2 =
      (loop weights 0 current 0).1.modify (pick weights current).1 (· - weights.sum) := rfl
  rw [hcounters, getD_modify _ _ _ _ (.inr (by rw [length_loop]; exact hj)),
    getD_loop _ _ _ _ _ (by omega) hj, if_pos (Nat.zero_le _), Nat.sub_zero]
  split
  · rfl
  · exact (sub_zero _).symm

theorem pick_greatest {weights current : List Int} (hlength : weights.length = current.length)
    {j : Nat} (hj : j < current.length) :
    current.getD j 0 + weights.getD j 0 ≤
      current.getD (pick weights current).1 0 + weights.getD (pick weights current).1 0 := by
  have hpos : 0 < current.length := by omega
  have hpicked := pick_fst_lt hlength hpos
  have hbest := (loop_best weights 0 current 0 (by omega) (.inr ⟨rfl, rfl⟩) (by omega) hpos).2 j hj
  have hfst : (pick weights current).1 = (loop weights 0 current 0).2 := rfl
  rw [hfst] at hpicked ⊢
  rw [getD_loop _ _ _ _ _ (by omega) hj, getD_loop _ _ _ _ _ (by omega) hpicked] at hbest
  simpa using hbest

/-! ### The balance -/

theorem sum_eq_range (l : List Int) : l.sum = ∑ j ∈ Finset.range l.length, l.getD j 0 := by
  induction l with
  | nil => rfl
  | cons x l ih =>
    rw [List.sum_cons, List.length_cons, Finset.sum_range_succ', ih, add_comm]
    simp

theorem sum_pick {weights current : List Int} (hlength : weights.length = current.length)
    (hpos : 0 < current.length) : (pick weights current).2.sum = current.sum := by
  have hpicked := pick_fst_lt hlength hpos
  have hstep : ∀ j ∈ Finset.range current.length, (pick weights current).2.getD j 0 =
      current.getD j 0 + weights.getD j 0 -
        if (pick weights current).1 = j then weights.sum else 0 :=
    fun j hj => getD_pick hlength (Finset.mem_range.mp hj)
  rw [sum_eq_range, length_pick, Finset.sum_congr rfl hstep, Finset.sum_sub_distrib,
    Finset.sum_add_distrib, Finset.sum_ite_eq, if_pos (Finset.mem_range.mpr hpicked),
    ← sum_eq_range, ← hlength, ← sum_eq_range, add_sub_cancel_right]

/-- Counters that sum to zero, each above the negated sum of the weights. -/
structure Balanced (weights current : List Int) : Prop where
  length : current.length = weights.length
  sum : current.sum = 0
  floor : ∀ j < current.length, -weights.sum < current.getD j 0

variable {weights : List Int}

theorem sum_pos (hne : weights ≠ []) (hw : ∀ w ∈ weights, 1 ≤ w) : 0 < weights.sum := by
  induction weights with
  | nil => exact absurd rfl hne
  | cons w ws ih =>
    have hhead := hw w (List.mem_cons_self ..)
    rw [List.sum_cons]
    by_cases hnil : ws = []
    · rw [hnil, List.sum_nil]
      omega
    · have htail := ih hnil fun v hv => hw v (List.mem_cons_of_mem _ hv)
      omega

theorem balanced_zero (hsum : 0 < weights.sum) :
    Balanced weights (List.replicate weights.length 0) where
  length := List.length_replicate
  sum := by simp
  floor j hj := by
    rw [List.length_replicate] at hj
    rw [List.getD_eq_getElem _ _ (by rw [List.length_replicate]; exact hj), List.getElem_replicate]
    omega

/-- The greatest counter is above zero before it is charged, since all together are the sum of the
weights. -/
theorem Balanced.pick {current : List Int} (h : Balanced weights current) (hsum : 0 < weights.sum)
    (hw : ∀ w ∈ weights, 1 ≤ w) : Balanced weights (pick weights current).2 := by
  have hlength := h.length.symm
  have hpos : 0 < current.length := by
    rcases Nat.eq_zero_or_pos current.length with hzero | hpos
    · rw [← h.length.symm, List.length_eq_zero_iff] at hzero
      rw [hzero, List.sum_nil] at hsum
      exact absurd hsum (lt_irrefl _)
    · exact hpos
  refine ⟨length_pick.trans h.length, (sum_pick hlength hpos).trans h.sum, fun j hj => ?_⟩
  rw [length_pick] at hj
  rw [getD_pick hlength hj]
  have hweight : 1 ≤ weights.getD j 0 := by
    rw [List.getD_eq_getElem _ _ (by omega)]
    exact hw _ (List.getElem_mem _)
  split
  · next hpicked =>
    by_contra hlow
    have hall : ∀ i ∈ Finset.range current.length, current.getD i 0 + weights.getD i 0 ≤ 0 := by
      intro i hi
      have hgreatest := pick_greatest hlength (Finset.mem_range.mp hi)
      rw [hpicked] at hgreatest
      omega
    have htotal := Finset.sum_nonpos hall
    rw [Finset.sum_add_distrib, ← sum_eq_range, h.sum, ← hlength, ← sum_eq_range] at htotal
    omega
  · have hfloor := h.floor j hj
    omega

/-! ### A run of picks -/

theorem drawn_add (m n : Nat) (current : List Int) :
    drawn weights (m + n) current =
      ((drawn weights m current).1 ++ (drawn weights n (drawn weights m current).2).1,
        (drawn weights n (drawn weights m current).2).2) := by
  induction m generalizing current with
  | zero => simp [drawn]
  | succ m ih =>
    rw [Nat.succ_add]
    simp only [drawn]
    rw [ih]
    rfl

theorem length_drawn (n : Nat) (current : List Int) : (drawn weights n current).1.length = n := by
  induction n generalizing current with
  | zero => rfl
  | succ n ih => simp only [drawn, List.length_cons, ih]

theorem Balanced.drawn {current : List Int} (h : Balanced weights current) (hsum : 0 < weights.sum)
    (hw : ∀ w ∈ weights, 1 ≤ w) (n : Nat) : Balanced weights (drawn weights n current).2 := by
  induction n generalizing current with
  | zero => exact h
  | succ n ih => exact ih (h.pick hsum hw)

/-- What a counter says: how often its index is due against how often it was picked. -/
theorem getD_drawn {current : List Int} (hlength : weights.length = current.length) (n : Nat)
    {j : Nat} (hj : j < current.length) :
    (drawn weights n current).2.getD j 0 =
      current.getD j 0 + n * weights.getD j 0 - weights.sum *
        (drawn weights n current).1.count j := by
  induction n generalizing current with
  | zero => simp [drawn]
  | succ n ih =>
    have hnext : weights.length = (pick weights current).2.length := by rw [length_pick, hlength]
    simp only [drawn]
    rw [ih hnext (by rw [length_pick]; exact hj), getD_pick hlength hj, List.count_cons]
    split
    · next hpicked =>
      rw [if_pos (by simpa using hpicked)]
      push_cast
      ring
    · next hother =>
      rw [if_neg (by simpa using hother)]
      push_cast
      ring

theorem drawn_sum (hsum : 0 < weights.sum) (hw : ∀ w ∈ weights, 1 ≤ w) :
    (drawn weights weights.sum.toNat (List.replicate weights.length 0)).2 =
    List.replicate weights.length 0 := by
  have hbalanced := (balanced_zero hsum).drawn hsum hw weights.sum.toNat
  have hcounter : ∀ j < weights.length,
      (drawn weights weights.sum.toNat (List.replicate weights.length 0)).2.getD j 0 =
        weights.sum * (weights.getD j 0 -
          (drawn weights weights.sum.toNat (List.replicate weights.length 0)).1.count j) := by
    intro j hj
    rw [getD_drawn (by rw [List.length_replicate]) _ (by rw [List.length_replicate]; exact hj)]
    rw [List.getD_eq_getElem (List.replicate weights.length 0) 0
      (by rw [List.length_replicate]; exact hj), List.getElem_replicate,
      Int.toNat_of_nonneg (le_of_lt hsum)]
    ring
  generalize drawn weights weights.sum.toNat (List.replicate weights.length 0) = run at *
  have hnonneg : ∀ j ∈ Finset.range run.2.length, 0 ≤ run.2.getD j 0 := by
    intro j hj
    have hfloor := hbalanced.floor j (Finset.mem_range.mp hj)
    rw [hbalanced.length, Finset.mem_range] at hj
    rw [hcounter j hj] at hfloor ⊢
    refine mul_nonneg (le_of_lt hsum) ?_
    by_contra hneg
    have hle : weights.getD j 0 - run.1.count j ≤ -1 := by omega
    have hmul := mul_le_mul_of_nonneg_left hle (le_of_lt hsum)
    rw [mul_neg_one] at hmul
    exact absurd hfloor (not_lt.mpr hmul)
  have hzero :=
    (Finset.sum_eq_zero_iff_of_nonneg hnonneg).mp ((sum_eq_range run.2).symm.trans hbalanced.sum)
  refine List.ext_getElem (by rw [hbalanced.length, List.length_replicate]) fun j hj _ => ?_
  have hj' := hzero j (Finset.mem_range.mpr hj)
  rw [List.getD_eq_getElem _ _ hj] at hj'
  rw [hj', List.getElem_replicate]

theorem drawn_period (hsum : 0 < weights.sum) (hw : ∀ w ∈ weights, 1 ≤ w) (n : Nat) :
    (drawn weights (n + weights.sum.toNat) (List.replicate weights.length 0)).2 =
      (drawn weights n (List.replicate weights.length 0)).2 := by
  rw [Nat.add_comm, drawn_add, drawn_sum hsum hw]

theorem drawn_rounds (hsum : 0 < weights.sum) (hw : ∀ w ∈ weights, 1 ≤ w) (rounds : Nat) :
    (drawn weights (weights.sum.toNat * rounds) (List.replicate weights.length 0)).2 =
      List.replicate weights.length 0 := by
  induction rounds with
  | zero => rfl
  | succ rounds ih => rw [Nat.mul_succ, drawn_period hsum hw, ih]

/-- A window of so many picks as the weights add up to has each index as often as its weight says.
-/
theorem count_window (hsum : 0 < weights.sum) (hw : ∀ w ∈ weights, 1 ≤ w) {n k : Nat}
    (hk : k + weights.sum.toNat ≤ n) {j : Nat} (hj : j < weights.length) :
    ((((drawn weights n (List.replicate weights.length 0)).1.drop k).take weights.sum.toNat).count
      j : Int) =
      weights.getD j 0 := by
  obtain ⟨rest, rfl⟩ := Nat.exists_eq_add_of_le hk
  have hwindow :
      ((drawn weights (k + weights.sum.toNat + rest) (List.replicate weights.length 0)).1.drop
        k).take weights.sum.toNat =
        (drawn weights weights.sum.toNat
          (drawn weights k (List.replicate weights.length 0)).2).1 := by
    rw [drawn_add, drawn_add]
    simp only [List.append_assoc]
    rw [List.drop_left' (length_drawn ..), List.take_left' (length_drawn ..)]
  rw [hwindow]
  have hbalanced := (balanced_zero hsum).drawn hsum hw k
  have hreturn :
      (drawn weights weights.sum.toNat (drawn weights k (List.replicate weights.length 0)).2).2 =
      (drawn weights k (List.replicate weights.length 0)).2 := by
    have hperiod := drawn_period hsum hw k
    rw [drawn_add] at hperiod
    exact hperiod
  have hcounter :=
    getD_drawn hbalanced.length.symm weights.sum.toNat (by rw [hbalanced.length]; exact hj)
  rw [hreturn, Int.toNat_of_nonneg (le_of_lt hsum)] at hcounter
  have hzero : weights.sum * (weights.getD j 0 -
      (drawn weights weights.sum.toNat
        (drawn weights k (List.replicate weights.length 0)).2).1.count j) = 0 := by
    linarith
  rcases mul_eq_zero.mp hzero with hbad | hdiff
  · omega
  · omega

end SmoothRobin
end Aisix
