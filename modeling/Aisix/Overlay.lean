import Mathlib.Data.List.Nodup

/-!
# Aisix.Overlay

Writing a shorter list over the positions of a longer one that a test picks: one write after another
(`setAll`), and what stands at each position in the end (`overlay`). `setAll_zip_positions` says
that they agree.
-/

namespace Aisix
namespace Overlay

variable {α : Type*}

/-- How many positions before `i` are picked. -/
def rank (picks : Nat → Bool) (i : Nat) : Nat := (List.range i).countP picks

/-- The positions of a list of length `n` that are picked. -/
def positions (picks : Nat → Bool) (n : Nat) : List Nat := (List.range n).filter picks

def setAll (writes : List (Nat × α)) (full : List α) : List α :=
  writes.foldl (fun l w => l.set w.1 w.2) full

/-- `new` over `full`, in order, where a position is picked. -/
def overlay (picks : Nat → Bool) (new full : List α) : List α :=
  full.mapIdx fun i a => if picks i then new.getD (rank picks i) a else a

@[simp] theorem length_overlay (picks : Nat → Bool) (new full : List α) :
    (overlay picks new full).length = full.length := by
  simp [overlay]

theorem getElem?_overlay (picks : Nat → Bool) (new full : List α) (i : Nat) :
    (overlay picks new full)[i]? = full[i]?.map fun a => if picks i then new.getD
    (rank picks i) a else a := by
  simp [overlay]

theorem getElem?_overlay_of_not {picks : Nat → Bool} {i : Nat} (h : picks i = false)
    (new full : List α) :
    (overlay picks new full)[i]? = full[i]? := by
  rw [getElem?_overlay, h]
  simp

theorem rank_lt_length_positions {picks : Nat → Bool} {n i : Nat} (hi : i < n)
    (h : picks i = true) : rank picks i < (positions picks n).length := by
  have hsucc : (List.range (i + 1)).countP picks = rank picks i + 1 := by
    rw [List.range_succ, List.countP_append, List.countP_singleton, if_pos h, rank]
  have hle : (List.range (i + 1)).countP picks ≤ (List.range n).countP picks :=
    (List.range_sublist.mpr hi).countP_le
  rw [positions, ← List.countP_eq_length_filter]
  omega

theorem getElem?_overlay_of_picks {picks : Nat → Bool} {new full : List α} {i : Nat}
    (hnew : new.length = (positions picks full.length).length) (hi : i < full.length)
    (h : picks i = true) :
    (overlay picks new full)[i]? = new[rank picks i]? := by
  have hlt : rank picks i < new.length := hnew ▸ rank_lt_length_positions hi h
  rw [getElem?_overlay, List.getElem?_eq_getElem hi, Option.map_some, if_pos h,
    List.getD_eq_getElem?_getD, List.getElem?_eq_getElem hlt, Option.getD_some]

theorem getElem?_setAll {writes : List (Nat × α)} (h : (writes.map (·.1)).Nodup) (full : List α)
    (i : Nat) :
    (setAll writes full)[i]? = full[i]?.map fun a => (writes.lookup i).getD a := by
  induction writes generalizing full with
  | nil => simp [setAll]
  | cons w writes ih =>
    obtain ⟨j, b⟩ := w
    obtain ⟨hnotMem, hnodup⟩ := List.nodup_cons.mp h
    have hstep : setAll ((j, b) :: writes) full = setAll writes (full.set j b) := rfl
    rw [hstep, ih hnodup, List.getElem?_set, List.lookup_cons]
    by_cases hj : j = i
    · subst hj
      have hnone : writes.lookup j = none := by
        rw [List.lookup_eq_none_iff]
        intro w hw
        exact bne_iff_ne.mpr fun heq => hnotMem (List.mem_map.mpr ⟨w, hw, heq.symm⟩)
      rw [if_pos rfl, hnone, beq_self_eq_true]
      split
      · next hlt => simp [List.getElem?_eq_getElem hlt]
      · next hge => simp [List.getElem?_eq_none (Nat.not_lt.mp hge)]
    · rw [if_neg hj, beq_false_of_ne fun heq => hj heq.symm]

theorem later_iff {s n i : Nat} {p : Prop} (h : s < i) :
    s + 1 ≤ i ∧ i < s + 1 + n ∧ p ↔ s ≤ i ∧ i < s + (n + 1) ∧ p := by
  constructor
  · rintro ⟨-, hlt, hp⟩
    exact ⟨Nat.le_of_lt h, by omega, hp⟩
  · rintro ⟨-, hlt, hp⟩
    exact ⟨h, by omega, hp⟩

theorem lookup_zip_filter_range' (picks : Nat → Bool) (n i : Nat) : ∀ (s : Nat) (new : List α),
    (((List.range' s n).filter picks).zip new).lookup i =
      if s ≤ i ∧ i < s + n ∧
        picks i = true then new[(List.range' s (i - s)).countP picks]? else none := by
  induction n with
  | zero =>
    intro s new
    rw [if_neg (by omega)]
    rfl
  | succ n ih =>
    intro s new
    -- the counted positions of a later index begin with this one
    have hlater : s < i → List.range' s (i - s) = s :: List.range' (s + 1) (i - (s + 1)) := by
      intro hlt
      rw [show i - s = (i - (s + 1)) + 1 by omega, List.range'_succ]
    rw [List.range'_succ, List.filter_cons]
    cases hs : picks s with
    | true =>
      rw [if_pos rfl]
      cases new with
      | nil => simp
      | cons b new =>
        rw [List.zip_cons_cons, List.lookup_cons]
        by_cases hi : i = s
        · subst hi
          rw [beq_self_eq_true, if_pos ⟨Nat.le_refl _, by omega, hs⟩]
          simp
        · rw [beq_false_of_ne hi, ih]
          by_cases hlt : s < i
          · rw [hlater hlt, List.countP_cons_of_pos hs, List.getElem?_cons_succ]
            exact if_congr (later_iff hlt) rfl rfl
          · rw [if_neg (by omega), if_neg (by omega)]
    | false =>
      rw [if_neg (by decide), ih]
      by_cases hlt : s < i
      · rw [hlater hlt, List.countP_cons_of_neg (by simp [hs])]
        exact if_congr (later_iff hlt) rfl rfl
      · rw [if_neg (by omega), if_neg]
        rintro ⟨hle, -, hpick⟩
        obtain rfl : i = s := by omega
        rw [hs] at hpick
        cases hpick

theorem lookup_zip_positions (picks : Nat → Bool) (n i : Nat) (new : List α) :
    ((positions picks n).zip new).lookup i = if i < n ∧
    picks i = true then new[rank picks i]? else none := by
  have h := lookup_zip_filter_range' picks n i 0 new
  rw [← List.range_eq_range', Nat.sub_zero, ← List.range_eq_range'] at h
  rw [positions, h, Nat.zero_add]
  exact if_congr (and_iff_right (Nat.zero_le i)) rfl rfl

theorem setAll_zip_positions (picks : Nat → Bool) {new full : List α}
    (h : new.length = (positions picks full.length).length) :
    setAll ((positions picks full.length).zip new) full = overlay picks new full := by
  have hnodup : (((positions picks full.length).zip new).map (·.1)).Nodup := by
    rw [List.map_fst_zip (Nat.le_of_eq h.symm)]
    exact List.Nodup.filter _ List.nodup_range
  refine List.ext_getElem? fun i => ?_
  rw [getElem?_setAll hnodup, getElem?_overlay, lookup_zip_positions]
  cases hi : full[i]? with
  | none => rfl
  | some a =>
    have hlt : i < full.length := (List.getElem?_eq_some_iff.mp hi).1
    rw [Option.map_some, Option.map_some]
    by_cases hpick : picks i = true
    · rw [if_pos ⟨hlt, hpick⟩, if_pos hpick, List.getD_eq_getElem?_getD]
    · rw [if_neg fun hboth => hpick hboth.2, if_neg hpick]
      rfl

theorem overlay_all {picks : Nat → Bool} {new full : List α}
    (hall : ∀ i < full.length, picks i = true)
    (h : new.length = full.length) : overlay picks new full = new := by
  refine List.ext_getElem? fun i => ?_
  rw [getElem?_overlay]
  by_cases hi : i < full.length
  · have hrank : rank picks i = i := by
      rw [rank, List.countP_eq_length.mpr, List.length_range]
      intro j hj
      exact hall j (Nat.lt_trans (List.mem_range.mp hj) hi)
    rw [List.getElem?_eq_getElem hi, List.getElem?_eq_getElem (h ▸ hi), Option.map_some,
      if_pos (hall i hi), hrank, List.getD_eq_getElem?_getD, List.getElem?_eq_getElem (h ▸ hi),
      Option.getD_some]
  · rw [List.getElem?_eq_none (Nat.not_lt.mp hi), List.getElem?_eq_none (h ▸ Nat.not_lt.mp hi)]
    rfl

theorem length_positions_eq_iff {picks : Nat → Bool} {n : Nat} :
    (positions picks n).length = n ↔ ∀ i < n, picks i = true := by
  have h := List.length_filter_eq_length_iff (p := picks) (l := List.range n)
  rw [List.length_range] at h
  rw [positions, h]
  exact forall_congr' fun i => by rw [List.mem_range]

end Overlay
end Aisix
