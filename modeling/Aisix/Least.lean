import Mathlib.Data.List.MinMax

/-!
# Aisix.Least

The element of a list with the least key, where the keys tell the elements apart: it does not depend
on the order of the list.
-/

namespace Aisix
namespace Least

variable {α β : Type*} [LinearOrder β] {f : α → β} {l l' : List α} {m : α}

theorem argmin_eq_some_iff (hinj : ∀ a ∈ l, ∀ b ∈ l, f a = f b → a = b) :
    l.argmin f = some m ↔ m ∈ l ∧ ∀ a ∈ l, f m ≤ f a := by
  constructor
  · intro h
    exact ⟨List.argmin_mem h, fun a ha => List.le_of_mem_argmin ha h⟩
  · rintro ⟨hm, hleast⟩
    cases hmin : l.argmin f with
    | none =>
      rw [List.argmin_eq_none.1 hmin] at hm
      cases hm
    | some a =>
      have ha := List.argmin_mem hmin
      rw [hinj a ha m hm (le_antisymm (List.le_of_mem_argmin hm hmin) (hleast a ha))]

theorem argmin_perm (hinj : ∀ a ∈ l, ∀ b ∈ l, f a = f b → a = b) (h : l.Perm l') :
    l'.argmin f = l.argmin f := by
  have hinj' : ∀ a ∈ l', ∀ b ∈ l', f a = f b → a = b :=
    fun a ha b hb => hinj a (h.mem_iff.2 ha) b (h.mem_iff.2 hb)
  refine Option.ext fun m => ?_
  rw [argmin_eq_some_iff hinj, argmin_eq_some_iff hinj', h.mem_iff]
  simp only [h.mem_iff]

end Least
end Aisix
