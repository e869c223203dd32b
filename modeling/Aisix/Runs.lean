import Mathlib.Data.List.Chain

/-!
# Aisix.Runs

Neighbours with one key joined, as they are pushed onto a list.
-/

namespace Aisix

section Runs

variable {α β κ : Type*} [DecidableEq κ] (key : α → κ) (join : α → α → α)

/-- Joins an element with the last one, when they have one key. -/
def pushRun (merged : List α) (x : α) : List α :=
  match merged.getLast? with
  | some last => if key last = key x then merged.dropLast ++ [join last x] else merged ++ [x]
  | none => [x]

def mergeRuns (l : List α) : List α := l.foldl (pushRun key join) []

variable {key join}

theorem pushRun_snoc (merged : List α) (last x : α) : pushRun key join (merged ++ [last]) x =
    if key last = key x then merged ++ [join last x] else merged ++ [last] ++ [x] := by
  unfold pushRun
  rw [List.getLast?_concat, List.dropLast_concat]

theorem forall_pushRun {P : α → Prop} (hjoin : ∀ a b, key a = key b → P a → P b → P (join a b))
    {merged : List α} {x : α}
    (hmerged : ∀ a ∈ merged, P a) (hx : P x) : ∀ a ∈ pushRun key join merged x, P a := by
  rcases List.eq_nil_or_concat merged with rfl | ⟨rest, last, rfl⟩
  · exact List.forall_mem_singleton.2 hx
  · rw [List.concat_eq_append] at hmerged ⊢
    rw [pushRun_snoc]
    obtain ⟨hrest, hlast⟩ := List.forall_mem_append.1 hmerged
    split
    · next hkey =>
      exact List.forall_mem_append.2 ⟨hrest,
        List.forall_mem_singleton.2 (hjoin last x hkey (hlast last List.mem_cons_self) hx)⟩
    · exact List.forall_mem_append.2 ⟨hmerged, List.forall_mem_singleton.2 hx⟩

theorem forall_mergeRuns {P : α → Prop} (hjoin : ∀ a b, key a = key b → P a → P b → P (join a b))
    {l : List α} (h : ∀ a ∈ l, P a) : ∀ a ∈ mergeRuns key join l, P a := by
  have hfold : ∀ (l merged : List α), (∀ a ∈ l, P a) → (∀ a ∈ merged, P a) →
      ∀ a ∈ l.foldl (pushRun key join) merged, P a := by
    intro l
    induction l with
    | nil => exact fun merged _ hmerged => hmerged
    | cons x l ih =>
      intro merged hl hmerged
      obtain ⟨hx, hl⟩ := List.forall_mem_cons.1 hl
      exact ih _ hl (forall_pushRun hjoin hmerged hx)
  exact hfold l [] h fun _ ha => absurd ha List.not_mem_nil

theorem flatMap_pushRun {f : α → List β} (hjoin : ∀ a b, key a = key b → f (join a b) = f a ++ f b)
    (merged : List α) (x : α) :
    (pushRun key join merged x).flatMap f = merged.flatMap f ++ f x := by
  rcases List.eq_nil_or_concat merged with rfl | ⟨rest, last, rfl⟩
  · exact List.flatMap_singleton f x
  · rw [List.concat_eq_append, pushRun_snoc]
    split
    · next hkey =>
      rw [List.flatMap_append, List.flatMap_append, List.flatMap_singleton, List.flatMap_singleton,
        hjoin last x hkey, List.append_assoc]
    · rw [List.flatMap_append, List.flatMap_singleton]

theorem flatMap_mergeRuns {f : α → List β}
    (hjoin : ∀ a b, key a = key b → f (join a b) = f a ++ f b) (l : List α) :
    (mergeRuns key join l).flatMap f = l.flatMap f := by
  have hfold : ∀ l merged : List α,
      (l.foldl (pushRun key join) merged).flatMap f = merged.flatMap f ++ l.flatMap f := by
    intro l
    induction l with
    | nil => exact fun merged => (List.append_nil _).symm
    | cons x l ih =>
      intro merged
      rw [List.foldl_cons, ih, flatMap_pushRun hjoin, List.flatMap_cons, List.append_assoc]
  exact hfold l []

theorem isChain_mergeRuns (hkey : ∀ a b, key (join a b) = key a) (l : List α) :
    (mergeRuns key join l).IsChain fun a b => key a ≠ key b := by
  have hpush : ∀ (merged : List α) (x : α), (merged.IsChain fun a b => key a ≠ key b) →
      (pushRun key join merged x).IsChain fun a b => key a ≠ key b := by
    intro merged x h
    rcases List.eq_nil_or_concat merged with rfl | ⟨rest, last, rfl⟩
    · exact .singleton x
    · rw [List.concat_eq_append] at h ⊢
      rw [pushRun_snoc]
      split
      · obtain ⟨hrest, -, hlast⟩ := List.isChain_append.1 h
        refine hrest.append (.singleton _) fun a ha b hb => ?_
        obtain rfl : join last x = b := Option.some.inj hb
        rw [hkey]
        exact hlast a ha last rfl
      · next hne =>
        refine h.append (.singleton x) fun a ha b hb => ?_
        obtain rfl : x = b := Option.some.inj hb
        rw [List.getLast?_concat] at ha
        obtain rfl : last = a := Option.some.inj ha
        exact hne
  have hfold : ∀ l merged : List α, (merged.IsChain fun a b => key a ≠ key b) →
      (l.foldl (pushRun key join) merged).IsChain fun a b => key a ≠ key b := by
    intro l
    induction l with
    | nil => exact fun merged h => h
    | cons x l ih => exact fun merged h => ih _ (hpush merged x h)
  exact hfold l [] .nil

end Runs
end Aisix
