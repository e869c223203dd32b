import Mathlib.Algebra.BigOperators.Group.Finset.Basic
import Mathlib.Algebra.Order.BigOperators.Group.Finset
import Mathlib.Data.List.Infix

/-!
# Aisix.ToldTexts

Texts that are told under keys, piece by piece and as whole snapshots, and what a listener owes for
them who pays for each letter once: a piece in full, a snapshot from where the known text ends when
it begins with it, and in full when it does not.

* `total_le` — who pays what is owed has paid for every text that is known.
* `total_eq` — and no more, when every text that is told goes on from what is known.
-/

namespace Aisix
namespace ToldTexts

variable {κ α : Type*}

/-- What is told: the next piece of a text, or the text so far. -/
inductive Telling (α : Type*) where
  | piece (text : List α)
  | snapshot (text : List α)

def Telling.text : Telling α → List α
  | .piece text => text
  | .snapshot text => text

/-- A telling and the key of its text; one without a key is told to nobody. -/
structure Told (κ α : Type*) where
  key : Option κ
  telling : Telling α

/-- What a text comes to. -/
def after (known : List α) : Telling α → List α
  | .piece text => known ++ text
  | .snapshot text => text

variable [DecidableEq κ]

/-- The known texts; where nothing is known the text is empty. -/
def tell (known : κ → List α) (t : Told κ α) : κ → List α :=
  match t.key with
  | none => known
  | some k => Function.update known k (after (known k) t.telling)

def tellAll (known : κ → List α) (ts : List (Told κ α)) : κ → List α := ts.foldl tell known

/-- The keys texts are told under. -/
def keys (ts : List (Told κ α)) : Finset κ := (ts.filterMap Told.key).toFinset

section Weight

variable (w : α → Nat)

def size : List α → Nat
  | [] => 0
  | c :: text => w c + size text

/-- The size of all that is told. -/
def toldSize : List (Told κ α) → Nat
  | [] => 0
  | t :: ts => size w t.telling.text + toldSize ts

def total (known : κ → List α) (ks : Finset κ) : Nat := ∑ k ∈ ks, size w (known k)

variable [DecidableEq α]

def owedFor (known : List α) : Telling α → Nat
  | .piece text => size w text
  | .snapshot text => if known <+: text then size w (text.drop known.length) else size w text

def owed (known : κ → List α) (t : Told κ α) : Nat :=
  match t.key with
  | none => size w t.telling.text
  | some k => owedFor w (known k) t.telling

def owedAll (known : κ → List α) : List (Told κ α) → Nat
  | [] => 0
  | t :: ts => owed w known t + owedAll (tell known t) ts

end Weight

/-- The telling goes on from what is known of its text. -/
def Continues (known : κ → List α) (t : Told κ α) : Prop :=
  ∃ k, t.key = some k ∧ known k ≠ [] ∧ known k <+: after (known k) t.telling

def ContinuesAll (known : κ → List α) : List (Told κ α) → Prop
  | [] => True
  | t :: ts => Continues known t ∧ ContinuesAll (tell known t) ts

/-- The telling repeats what is known. -/
def Repeats (known : κ → List α) (t : Told κ α) : Prop :=
  ∃ k, t.key = some k ∧ t.telling = .snapshot (known k)

variable {w : α → Nat} {known : κ → List α} {t : Told κ α} {ts : List (Told κ α)} {ks : Finset κ}

theorem size_append (a b : List α) : size w (a ++ b) = size w a + size w b := by
  induction a with
  | nil => exact (Nat.zero_add _).symm
  | cons c a ih => rw [List.cons_append, size, size, ih, Nat.add_assoc]

theorem tellAll_append (known : κ → List α) (ts us : List (Told κ α)) :
    tellAll known (ts ++ us) = tellAll (tellAll known ts) us := List.foldl_append

theorem keys_append (ts us : List (Told κ α)) : keys (ts ++ us) = keys ts ∪ keys us := by
  unfold keys
  rw [List.filterMap_append, List.toFinset_append]

theorem keys_cons (t : Told κ α) (ts : List (Told κ α)) : keys (t :: ts) = keys [t] ∪ keys ts :=
  keys_append [t] ts

theorem keys_singleton_none (h : t.key = none) : keys [t] = ∅ := by
  unfold keys
  rw [List.filterMap_cons, h]
  rfl

theorem keys_singleton_some {k : κ} (h : t.key = some k) : keys [t] = {k} := by
  unfold keys
  rw [List.filterMap_cons, h]
  rfl

theorem tell_of_ne {k k' : κ} (h : t.key = some k) (hne : k' ≠ k) : tell known t k' = known k' := by
  unfold tell
  rw [h]
  exact Function.update_of_ne hne _ _

theorem tell_self {k : κ} (h : t.key = some k) : tell known t k = after (known k) t.telling := by
  unfold tell
  rw [h]
  exact Function.update_self _ _ _

theorem tell_none (h : t.key = none) : tell known t = known := by
  unfold tell
  rw [h]

theorem tell_of_notMem {k : κ} (h : k ∉ keys [t]) : tell known t k = known k := by
  cases hkey : t.key with
  | none => rw [tell_none hkey]
  | some k' =>
    rw [keys_singleton_some hkey, Finset.mem_singleton] at h
    exact tell_of_ne hkey h

/-! ### One telling -/

theorem total_insert {k : κ} (h : k ∉ ks → known k = []) :
    total w known (insert k ks) = total w known ks := by
  by_cases hk : k ∈ ks
  · rw [Finset.insert_eq_of_mem hk]
  · unfold total
    rw [Finset.sum_insert hk, h hk]
    simp [size]

theorem total_tell {k : κ} (hkey : t.key = some k) (hk : k ∈ ks) :
    total w (tell known t) ks + size w (known k) = total w known ks +
      size w (after (known k) t.telling) := by
  unfold total
  have hrest : ∑ j ∈ ks.erase k, size w (tell known t j) = ∑ j ∈ ks.erase k, size w (known j) := by
    refine Finset.sum_congr rfl ?_
    intro j hj
    rw [tell_of_ne hkey (Finset.ne_of_mem_erase hj)]
  rw [← Finset.add_sum_erase ks _ hk, ← Finset.add_sum_erase ks (fun j => size w (known j)) hk,
    hrest, tell_self hkey]
  omega

variable [DecidableEq α]

theorem size_after_le (old : List α) (telling : Telling α) :
    size w (after old telling) ≤ size w old + owedFor w old telling := by
  cases telling with
  | piece text => exact Nat.le_of_eq (size_append _ _)
  | snapshot text =>
    unfold owedFor
    dsimp only [after]
    split
    · next hpre =>
      obtain ⟨rest, rfl⟩ := hpre
      rw [List.drop_left, size_append]
    · exact Nat.le_add_left _ _

theorem size_after_eq {old : List α} {telling : Telling α} (h : old <+: after old telling) :
    size w (after old telling) = size w old + owedFor w old telling := by
  cases telling with
  | piece text => exact size_append _ _
  | snapshot text =>
    have h : old <+: text := h
    unfold owedFor
    dsimp only [after]
    rw [if_pos h]
    obtain ⟨rest, rfl⟩ := h
    rw [List.drop_left, size_append]

theorem owedFor_le (old : List α) (telling : Telling α) :
    owedFor w old telling ≤ size w telling.text := by
  cases telling with
  | piece text => exact Nat.le_refl _
  | snapshot text =>
    unfold owedFor
    dsimp only [Telling.text]
    split
    · have hsplit := size_append (w := w) (text.take old.length) (text.drop old.length)
      rw [List.take_append_drop] at hsplit
      omega
    · exact Nat.le_refl _

omit [DecidableEq κ] in
theorem owed_le (known : κ → List α) (t : Told κ α) : owed w known t ≤ size w t.telling.text := by
  unfold owed
  split
  · exact Nat.le_refl _
  · exact owedFor_le _ _

theorem total_tell_le (h : ∀ k, k ∉ ks → known k = []) :
    total w (tell known t) (ks ∪ keys [t]) ≤ total w known ks + owed w known t := by
  cases hkey : t.key with
  | none =>
    rw [keys_singleton_none hkey, Finset.union_empty, tell_none hkey]
    exact Nat.le_add_right _ _
  | some k =>
    have hmem : k ∈ insert k ks := Finset.mem_insert_self k ks
    have hstep : total w (tell known t) (insert k ks) + size w (known k) =
        total w known (insert k ks) + size w (after (known k) t.telling) := total_tell hkey hmem
    have hinsert : total w known (insert k ks) = total w known ks := total_insert (h k)
    have hsize := size_after_le (w := w) (known k) t.telling
    have howed : owed w known t = owedFor w (known k) t.telling := by
      unfold owed
      rw [hkey]
    rw [keys_singleton_some hkey, Finset.union_comm, Finset.singleton_union]
    omega

omit [DecidableEq α] in
theorem unknown_tell (h : ∀ k, k ∉ ks → known k = []) :
    ∀ k, k ∉ ks ∪ keys [t] → tell known t k = [] := by
  intro k hk
  rw [Finset.mem_union, not_or] at hk
  rw [tell_of_notMem hk.2]
  exact h k hk.1

/-! ### A run -/

theorem total_le (h : ∀ k, k ∉ ks → known k = []) :
    total w (tellAll known ts) (ks ∪ keys ts) ≤ total w known ks + owedAll w known ts := by
  induction ts generalizing known ks with
  | nil => exact Nat.le_of_eq (congrArg _ (Finset.union_empty ks))
  | cons t ts ih =>
    have hhere := total_tell_le (w := w) (t := t) h
    have hrest := ih (unknown_tell (t := t) h)
    rw [keys_cons, ← Finset.union_assoc]
    unfold tellAll at hrest ⊢
    rw [List.foldl_cons, owedAll]
    omega

theorem owedAll_le (known : κ → List α) (ts : List (Told κ α)) :
    owedAll w known ts ≤ toldSize w ts := by
  induction ts generalizing known with
  | nil => exact Nat.le_refl _
  | cons t ts ih =>
    have hhere := owed_le (w := w) known t
    have hrest := ih (tell known t)
    rw [owedAll, toldSize]
    omega

omit [DecidableEq α] in
theorem unknown_tellAll (h : ∀ k, k ∉ ks → known k = []) :
    ∀ k, k ∉ ks ∪ keys ts → tellAll known ts k = [] := by
  induction ts generalizing known ks with
  | nil =>
    intro k hk
    exact h k fun hmem => hk (Finset.mem_union_left _ hmem)
  | cons t ts ih =>
    intro k hk
    rw [keys_cons, ← Finset.union_assoc] at hk
    exact ih (unknown_tell h) k hk

theorem total_eq (h : ∀ k, k ∉ ks → known k = []) (hts : ContinuesAll known ts) :
    keys ts ⊆ ks ∧ total w (tellAll known ts) ks = total w known ks + owedAll w known ts := by
  induction ts generalizing known with
  | nil => exact ⟨Finset.empty_subset _, rfl⟩
  | cons t ts ih =>
    obtain ⟨⟨k, hkey, hknown, hpre⟩, hrest⟩ := hts
    have hk : k ∈ ks := by
      by_contra hk
      exact hknown (h k hk)
    have hkeys : keys [t] ⊆ ks := by
      rw [keys_singleton_some hkey]
      exact Finset.singleton_subset_iff.mpr hk
    have hunknown : ∀ j, j ∉ ks → tell known t j = [] := by
      intro j hj
      rw [tell_of_notMem fun hmem => hj (hkeys hmem)]
      exact h j hj
    obtain ⟨hsub, htotal⟩ := ih hunknown hrest
    have hstep : total w (tell known t) ks + size w (known k) =
        total w known ks + size w (after (known k) t.telling) := total_tell hkey hk
    have hsize := size_after_eq (w := w) hpre
    have howed : owed w known t = owedFor w (known k) t.telling := by
      unfold owed
      rw [hkey]
    refine ⟨?_, ?_⟩
    · rw [keys_cons]
      exact Finset.union_subset hkeys hsub
    · unfold tellAll at htotal ⊢
      rw [List.foldl_cons, owedAll]
      omega

omit [DecidableEq α] in
theorem tell_repeats (h : Repeats known t) : tell known t = known := by
  obtain ⟨k, hkey, htelling⟩ := h
  unfold tell
  rw [hkey, htelling]
  exact Function.update_eq_self k known

theorem owedAll_repeats (h : ∀ t ∈ ts, Repeats known t) : owedAll w known ts = 0 := by
  induction ts with
  | nil => rfl
  | cons t ts ih =>
    obtain ⟨hhere, hrest⟩ := List.forall_mem_cons.mp h
    rw [owedAll, tell_repeats hhere, ih hrest]
    obtain ⟨k, hkey, htelling⟩ := hhere
    unfold owed
    rw [hkey, htelling]
    dsimp only [owedFor]
    rw [if_pos (List.prefix_refl _), List.drop_length]
    rfl

omit [DecidableEq α] in
theorem continuesAll_of_repeats (h : ∀ t ∈ ts, Repeats known t)
    (hne : ∀ t ∈ ts, t.telling.text ≠ []) :
    ContinuesAll known ts := by
  induction ts with
  | nil => trivial
  | cons t ts ih =>
    obtain ⟨hhere, hrest⟩ := List.forall_mem_cons.mp h
    obtain ⟨hneHere, hneRest⟩ := List.forall_mem_cons.mp hne
    refine ⟨?_, ?_⟩
    · obtain ⟨k, hkey, htelling⟩ := hhere
      rw [htelling] at hneHere
      refine ⟨k, hkey, hneHere, ?_⟩
      rw [htelling]
      exact List.prefix_refl _
    · rw [tell_repeats hhere]
      exact ih hrest hneRest

end ToldTexts
end Aisix
