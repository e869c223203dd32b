import Mathlib.Algebra.Order.Ring.Nat
import Mathlib.Data.List.Infix

/-!
# Aisix.SlidingTail

A list read through a window that keeps the last `keep` items of what it has seen. Whatever is at
most one item longer than that lies whole in what came before or in the kept tail with what comes
next (`infix_cases`).
-/

namespace Aisix
namespace SlidingTail

variable {α : Type}

/-- The last `keep` items, or all of a shorter list. -/
def tail (keep : Nat) (l : List α) : List α := l.drop (l.length - keep)

@[simp] theorem tail_nil (keep : Nat) : tail keep ([] : List α) = [] := by simp [tail]

theorem length_tail (keep : Nat) (l : List α) : (tail keep l).length = min keep l.length := by
  rw [tail, List.length_drop]
  omega

theorem tail_tail_append (keep : Nat) (l m : List α) :
    tail keep (tail keep l ++ m) = tail keep (l ++ m) := by
  have hlength := length_tail keep l
  unfold tail at *
  rw [List.drop_append, List.drop_append, List.length_append, hlength,
    List.length_append, List.drop_drop]
  congr 2 <;> omega

theorem infix_cases {keep : Nat} {l m p : List α} (h : p <:+: l ++ m) (hp : p.length ≤ keep + 1) :
    p <:+: l ∨ p <:+: tail keep l ++ m := by
  obtain ⟨u, v, huv⟩ := h
  by_cases hend : u.length + p.length ≤ l.length
  · left
    have hprefix : u ++ p <+: l ++ m := ⟨v, huv⟩
    have hl : l <+: l ++ m := List.prefix_append l m
    obtain ⟨w, hw⟩ :=
      List.prefix_of_prefix_length_le hprefix hl (by rw [List.length_append]; exact hend)
    exact ⟨u, w, hw⟩
  · right
    have hstart : l.length - keep ≤ u.length := by omega
    refine ⟨u.drop (l.length - keep), v, ?_⟩
    have hcut : l.length - keep ≤ l.length := Nat.sub_le _ _
    rw [tail, ← List.drop_append_of_le_length hcut, ← huv, List.append_assoc, List.append_assoc,
      List.drop_append_of_le_length hstart]

end SlidingTail
end Aisix
