import Mathlib.Data.List.Nodup
import Mathlib.Data.List.Rotate

/-!
# Aisix.CircularWalk

A sorted list walked round from a point on, and the first time each item is met. Leaving out items
leaves the others in the order in which they are met (`around_filter`, `firsts_filter`).
-/

namespace Aisix
namespace CircularWalk

section Firsts

variable {α β : Type*} [DecidableEq α] [DecidableEq β]

/-- The items of a list in the order of their first occurrence, behind those in `order`. -/
def firstsFrom (order : List α) : List α → List α
  | [] => order
  | x :: xs => if x ∈ order then firstsFrom order xs else firstsFrom (order ++ [x]) xs

def firsts (l : List α) : List α := firstsFrom [] l

theorem firstsFrom_filter (p : α → Bool) (order l : List α) :
    (firstsFrom order l).filter p = firstsFrom (order.filter p) (l.filter p) := by
  induction l generalizing order with
  | nil => rfl
  | cons x xs ih =>
    by_cases hp : p x = true
    · have hmem : x ∈ order.filter p ↔ x ∈ order := by simp [hp]
      rw [List.filter_cons_of_pos hp, firstsFrom, firstsFrom]
      by_cases hx : x ∈ order
      · rw [if_pos hx, if_pos (hmem.mpr hx), ih]
      · rw [if_neg hx, if_neg (mt hmem.mp hx), ih, List.filter_append, List.filter_cons_of_pos hp,
          List.filter_nil]
    · rw [List.filter_cons_of_neg hp, firstsFrom]
      split
      · exact ih order
      · rw [ih, List.filter_append, List.filter_cons_of_neg hp, List.filter_nil, List.append_nil]

theorem firsts_filter (p : α → Bool) (l : List α) : (firsts l).filter p = firsts (l.filter p) :=
  firstsFrom_filter p [] l

theorem firstsFrom_map {f : α → β} {order l : List α}
    (hf : ∀ x ∈ order ++ l, ∀ y ∈ order ++ l, f x = f y → x = y) :
    (firstsFrom order l).map f = firstsFrom (order.map f) (l.map f) := by
  induction l generalizing order with
  | nil => rfl
  | cons x xs ih =>
    have hmem : f x ∈ order.map f ↔ x ∈ order := by
      constructor
      · intro h
        obtain ⟨y, hy, heq⟩ := List.mem_map.mp h
        rw [← hf y (by simp [hy]) x (by simp) heq]
        exact hy
      · exact List.mem_map_of_mem
    rw [List.map_cons, firstsFrom, firstsFrom]
    by_cases hx : x ∈ order
    · rw [if_pos hx, if_pos (hmem.mpr hx)]
      refine ih fun y hy z hz => hf y ?_ z ?_
      · rcases List.mem_append.mp hy with hy | hy <;> simp [hy]
      · rcases List.mem_append.mp hz with hz | hz <;> simp [hz]
    · rw [if_neg hx, if_neg (mt hmem.mp hx), ih, List.map_append, List.map_singleton]
      intro y hy z hz
      rw [List.append_assoc] at hy hz
      exact hf y hy z hz

theorem mem_firstsFrom {order l : List α} {x : α} : x ∈ firstsFrom order l ↔ x ∈ order ∨ x ∈ l := by
  induction l generalizing order with
  | nil => simp [firstsFrom]
  | cons y ys ih =>
    rw [firstsFrom]
    split
    · next hy =>
      rw [ih, List.mem_cons]
      constructor
      · rintro (h | h)
        · exact .inl h
        · exact .inr (.inr h)
      · rintro (h | rfl | h)
        · exact .inl h
        · exact .inl hy
        · exact .inr h
    · rw [ih, List.mem_append, List.mem_singleton, List.mem_cons, or_assoc]

theorem nodup_firstsFrom {order l : List α} (h : order.Nodup) : (firstsFrom order l).Nodup := by
  induction l generalizing order with
  | nil => exact h
  | cons x xs ih =>
    rw [firstsFrom]
    split
    · exact ih h
    · next hx =>
      rw [← List.concat_eq_append]
      exact ih (h.concat hx)

theorem firstsFrom_of_subset {order l : List α} (h : ∀ x ∈ l, x ∈ order) :
    firstsFrom order l = order := by
  induction l with
  | nil => rfl
  | cons x xs ih =>
    rw [firstsFrom, if_pos (h x (List.mem_cons_self ..))]
    exact ih fun y hy => h y (List.mem_cons_of_mem _ hy)

end Firsts

section Around

variable {α : Type*} {before : α → Bool}

/-- A list whose items `before` a point come first, walked from that point round. -/
def around (before : α → Bool) (l : List α) : List α := l.dropWhile before ++ l.takeWhile before

/-- Once an item is past the point, so is every later one. -/
def Parted (before : α → Bool) (l : List α) : Prop :=
  l.Pairwise fun x y => before y = true → before x = true

theorem parted_split {l : List α} (h : Parted before l) :
    l.takeWhile before = l.filter before ∧ l.dropWhile before = l.filter fun x => !before x := by
  induction l with
  | nil => exact ⟨rfl, rfl⟩
  | cons x xs ih =>
    obtain ⟨hx, hxs⟩ := List.pairwise_cons.mp h
    obtain ⟨htake, hdrop⟩ := ih hxs
    cases hb : before x with
    | true =>
      rw [List.takeWhile_cons_of_pos hb, List.dropWhile_cons_of_pos hb, List.filter_cons_of_pos hb,
        List.filter_cons_of_neg (by simp [hb]), htake, hdrop]
      exact ⟨rfl, rfl⟩
    | false =>
      have hpast : ∀ y ∈ xs, before y = false := by
        intro y hy
        by_contra hbefore
        rw [Bool.not_eq_false] at hbefore
        rw [hx y hy hbefore] at hb
        cases hb
      rw [List.takeWhile_cons_of_neg (by simp [hb]), List.dropWhile_cons_of_neg (by simp [hb]),
        List.filter_cons_of_neg (by simp [hb]), List.filter_cons_of_pos (by simp [hb])]
      constructor
      · exact (List.filter_eq_nil_iff.mpr fun y hy => by simp [hpast y hy]).symm
      · congr 1
        exact (List.filter_eq_self.mpr fun y hy => by simp [hpast y hy]).symm

theorem around_eq_filter {l : List α} (h : Parted before l) :
    around before l = l.filter (fun x => !before x) ++ l.filter before := by
  obtain ⟨htake, hdrop⟩ := parted_split h
  rw [around, htake, hdrop]

theorem around_filter {l : List α} (h : Parted before l) (p : α → Bool) :
    (around before l).filter p = around before (l.filter p) := by
  have hfilter : Parted before (l.filter p) := List.Pairwise.filter p h
  rw [around_eq_filter h, around_eq_filter hfilter, List.filter_append]
  congr 1
  · exact List.filter_comm ..
  · exact List.filter_comm ..

theorem around_map {β : Type*} (f : β → α) (l : List β) :
    around before (l.map f) = (around (before ∘ f) l).map f := by
  rw [around, List.dropWhile_map, List.takeWhile_map, around, List.map_append]

theorem around_eq_rotate (l : List α) : around before l = l.rotate (l.takeWhile before).length := by
  have hle : (l.takeWhile before).length ≤ l.length := (List.takeWhile_sublist before).length_le
  have hsplit : l.takeWhile before ++ l.dropWhile before = l := List.takeWhile_append_dropWhile
  rw [List.rotate_eq_drop_append_take hle, around]
  have hdrop : l.drop (l.takeWhile before).length = l.dropWhile before := by
    have h := congrArg (List.drop (l.takeWhile before).length) hsplit
    rw [List.drop_left] at h
    exact h.symm
  have htake : l.take (l.takeWhile before).length = l.takeWhile before := by
    have h := congrArg (List.take (l.takeWhile before).length) hsplit
    rw [List.take_left] at h
    exact h.symm
  rw [hdrop, htake]

theorem rotate_eq_map_range (l : List α) (s : Nat) (d : α) :
    l.rotate s = (List.range l.length).map fun off => l.getD ((s + off) % l.length) d := by
  refine List.ext_getElem (by simp) fun i hi _ => ?_
  rw [List.length_rotate] at hi
  have hpos : 0 < l.length := by omega
  rw [List.getElem_rotate, List.getElem_map, List.getElem_range, List.getD_eq_getElem?_getD,
    List.getElem?_eq_getElem (Nat.mod_lt _ hpos)]
  simp only [Option.getD_some, Nat.add_comm]

end Around

end CircularWalk
end Aisix
