import Mathlib.Algebra.Order.Ring.Nat
import Mathlib.Data.List.Nodup
import Mathlib.Data.List.Pairwise
import Mathlib.Logic.Function.Basic
import Mathlib.Tactic.Common

/-!
# Aisix.CasStore

A store of versioned entries that expire, each write of which states what it expects to find.

* `put`   — writes under a `Condition` and gives the entry a version of its own; `none` when the
  condition fails.
* `log`   — the writes that went through, each with the version it replaced.
* `Sound` — versions name writes, and no version is replaced twice.

A client that read an entry and then writes under its version replaces that very entry:
`put_ifVersion` gives the entry, `Sound.write_eq` identifies it with the one read, and `Sound.fresh`
says that nobody had replaced it before.
-/

namespace Aisix
namespace CasStore

variable {κ β : Type*}

structure Entry (β : Type*) where
  value : β
  version : Nat
  expiresAt : Nat
  deriving DecidableEq

/-- What a write expects its key to hold. -/
inductive Condition where
  | createOnly
  | ifVersion (version : Nat)
  deriving DecidableEq

/-- A write that went through, and the writer's number where it has one. -/
structure Write (κ β : Type*) where
  writer : Option Nat
  key : κ
  value : β
  version : Nat
  replaced : Option Nat
  instant : Nat
  expiresAt : Nat
  deriving DecidableEq

structure Store (κ β : Type*) where
  entries : κ → Option (Entry β)
  version : Nat
  log : List (Write κ β)

def Condition.Holds : Condition → Option (Entry β) → Prop
  | createOnly, current => current = none
  | ifVersion version, current => current.map (·.version) = some version

instance (c : Condition) (current : Option (Entry β)) : Decidable (c.Holds current) :=
  match c with
  | .createOnly => decidable_of_iff (current.isNone = true) (by simp [Condition.Holds])
  | .ifVersion version => inferInstanceAs (Decidable (current.map (·.version) = some version))

namespace Store

def empty : Store κ β := ⟨fun _ => none, 0, []⟩

/-- What a key holds at `now`. -/
def live (s : Store κ β) (now : Nat) (k : κ) : Option (Entry β) :=
  (s.entries k).filter (now < ·.expiresAt)

/-- The versions that a write has replaced. -/
def replacedVersions (s : Store κ β) : List Nat := s.log.filterMap (·.replaced)

theorem live_eq_some_iff {s : Store κ β} {now : Nat} {k : κ} {e : Entry β} :
    s.live now k = some e ↔ s.entries k = some e ∧ now < e.expiresAt := by
  simp [live, Option.filter_eq_some_iff]

variable [DecidableEq κ]

/-- The store after the write of `value` at `now`. -/
def written (s : Store κ β) (writer : Option Nat) (now : Nat) (k : κ) (value : β) (ttl : Nat) :
    Store κ β where
  entries := Function.update s.entries k (some ⟨value, s.version + 1, now + ttl⟩)
  version := s.version + 1
  log :=
    s.log ++ [⟨writer, k, value, s.version + 1, (s.live now k).map (·.version), now, now + ttl⟩]

def put (s : Store κ β) (writer : Option Nat) (now : Nat) (k : κ) (value : β) (ttl : Nat)
    (c : Condition) : Option (Store κ β) :=
  if c.Holds (s.live now k) then some (s.written writer now k value ttl) else none

/-- Removes an entry; under a version, only the entry of that version. -/
def delete (s : Store κ β) (k : κ) (ifVersion : Option Nat) : Store κ β :=
  if ifVersion.all fun version => (s.entries k).map (·.version) == some version then
    { s with entries := Function.update s.entries k none }
  else s

variable {s s' : Store κ β} {now : Nat} {k : κ} {value : β} {ttl : Nat} {c : Condition}
    {e : Entry β} {writer : Option Nat}

theorem filter_deleted {o : Option (Entry β)} (p : Entry β → Bool) (ifVersion : Option Nat) :
    (if ifVersion.all fun version => o.map (·.version) == some version then none else o).filter p =
      (o.filter p).filter fun e => !ifVersion.all (· == e.version) := by
  cases ifVersion with
  | none => cases h : o.filter p <;> simp
  | some version =>
    cases o with
    | none => simp
    | some e =>
      by_cases hv : e.version = version
      · subst hv
        cases hp : p e <;> simp [Option.filter_some, hp]
      · have hv' : ¬ version = e.version := fun h => hv h.symm
        cases hp : p e <;> simp [Option.filter_some, hv, hv', hp]

theorem live_delete (k k' : κ) (ifVersion : Option Nat) :
    (s.delete k ifVersion).live now k' =
      if k' = k then (s.live now k).filter fun e => !ifVersion.all
        (· == e.version) else s.live now k' := by
  unfold live
  rw [← filter_deleted]
  unfold delete
  split
  · by_cases hk : k' = k <;> simp [hk]
  · split
    · next hk => rw [hk]
    · rfl

theorem delete_log (k : κ) (ifVersion : Option Nat) : (s.delete k ifVersion).log = s.log := by
  unfold delete
  split <;> rfl

theorem delete_version (k : κ) (ifVersion : Option Nat) :
    (s.delete k ifVersion).version = s.version := by
  unfold delete
  split <;> rfl

theorem delete_entries {ifVersion : Option Nat} {k' : κ}
    (h : (s.delete k ifVersion).entries k' = some e) : s.entries k' = some e := by
  unfold delete at h
  split at h
  · by_cases hk : k' = k
    · simp [hk] at h
    · simpa [hk] using h
  · exact h

end Store

open Store

/-- What the writes of a store have in common with its entries, whoever made them. -/
structure Sound (s : Store κ β) : Prop where
  le : ∀ w ∈ s.log, w.version ≤ s.version
  nodup : (s.log.map (·.version)).Nodup
  entry : ∀ k e, s.entries k = some e →
    ∃ w ∈ s.log, w.key = k ∧ w.value = e.value ∧ w.version = e.version ∧ w.expiresAt = e.expiresAt
  base : ∀ w ∈ s.log, ∀ v, w.replaced = some v → ∃ b ∈ s.log, b.key = w.key ∧ b.version = v
  once : s.replacedVersions.Nodup
  standing : ∀ k e, s.entries k = some e → e.version ∉ s.replacedVersions

namespace Sound

variable {s : Store κ β} {now : Nat} {k : κ} {e : Entry β}

theorem empty : Sound (.empty : Store κ β) where
  le := by simp [Store.empty]
  nodup := by simp [Store.empty]
  entry := by simp [Store.empty]
  base := by simp [Store.empty]
  once := by simp [Store.empty, replacedVersions]
  standing := by simp [Store.empty]

theorem write_eq (h : Sound s) {w w' : Write κ β} (hw : w ∈ s.log) (hw' : w' ∈ s.log)
    (hv : w.version = w'.version) : w = w' := List.inj_on_of_nodup_map h.nodup hw hw' hv

theorem replaced_eq (h : Sound s) {w w' : Write κ β} {v : Nat} (hw : w ∈ s.log) (hw' : w' ∈ s.log)
    (hv : w.replaced = some v) (hv' : w'.replaced = some v) : w = w' := by
  have hpair : s.log.Pairwise fun a a' => ∀ b, a.replaced = some b →
      ∀ b', a'.replaced = some b' → b ≠ b' :=
    List.pairwise_filterMap.1 h.once
  have : Std.Symm fun a a' : Write κ β => ∀ b, a.replaced = some b →
      ∀ b', a'.replaced = some b' → b ≠ b' :=
    ⟨fun a a' haa' b hb b' hb' => (haa' b' hb' b hb).symm⟩
  by_contra hne
  exact hpair.forall hw hw' hne v hv v hv' rfl

theorem of_live (h : Sound s) (he : s.live now k = some e) :
    ∃ w ∈ s.log, w.key = k ∧ w.value = e.value ∧ w.version = e.version := by
  obtain ⟨w, hw, hk, hvalue, hversion, -⟩ := h.entry k e (live_eq_some_iff.1 he).1
  exact ⟨w, hw, hk, hvalue, hversion⟩

theorem fresh (h : Sound s) (he : s.live now k = some e) : e.version ∉ s.replacedVersions :=
  h.standing k e (live_eq_some_iff.1 he).1

variable [DecidableEq κ]

theorem replacedVersions_written (s : Store κ β) (writer : Option Nat) (now : Nat) (k : κ)
    (value : β) (ttl : Nat) :
    (s.written writer now k value ttl).replacedVersions = s.replacedVersions ++
    ((s.live now k).map (·.version)).toList := by
  cases hlive : s.live now k <;> simp [replacedVersions, written, hlive]

theorem written (h : Sound s) (writer : Option Nat) (now : Nat) (k : κ) (value : β) (ttl : Nat) :
    Sound (s.written writer now k value ttl) := by
  have hnew : s.version + 1 ∉ s.log.map (·.version) := by
    intro hmem
    obtain ⟨w, hw, hv⟩ := List.mem_map.1 hmem
    have := h.le w hw
    omega
  have hbase : ∀ v ∈ s.replacedVersions, v ≤ s.version := by
    intro v hv
    obtain ⟨w, hw, hr⟩ := List.mem_filterMap.1 hv
    obtain ⟨b, hb, -, rfl⟩ := h.base w hw v hr
    exact h.le b hb
  have hlive : ∀ v ∈ ((s.live now k).map (·.version)).toList, v ∉ s.replacedVersions ∧
      ∃ b ∈ s.log, b.key = k ∧ b.version = v := by
    intro v hv
    obtain ⟨e, he, rfl⟩ := Option.map_eq_some_iff.1 (Option.mem_toList.1 hv)
    obtain ⟨b, hb, hk, -, hversion⟩ := h.of_live he
    exact ⟨h.fresh he, b, hb, hk, hversion⟩
  constructor
  · intro w hw
    rcases List.mem_append.1 hw with hw | hw
    · exact (h.le w hw).trans (Nat.le_succ _)
    · rw [List.mem_singleton.1 hw]
      exact le_refl _
  · rw [Store.written, List.map_append, List.nodup_append]
    exact ⟨h.nodup, by simp, fun a ha b hb => by
      rintro rfl
      exact hnew (by simpa [List.mem_singleton.1 hb] using ha)⟩
  · intro k' e he
    by_cases hk : k' = k
    · subst hk
      obtain rfl : ⟨value, s.version + 1, now + ttl⟩ = e := by simpa [Store.written] using he
      exact ⟨_, List.mem_append_right _ (List.mem_singleton_self _), rfl, rfl, rfl, rfl⟩
    · obtain ⟨w, hw, hrest⟩ := h.entry k' e (by simpa [Store.written, hk] using he)
      exact ⟨w, List.mem_append_left _ hw, hrest⟩
  · intro w hw v hv
    rcases List.mem_append.1 hw with hw | hw
    · obtain ⟨b, hb, hrest⟩ := h.base w hw v hv
      exact ⟨b, List.mem_append_left _ hb, hrest⟩
    · rw [List.mem_singleton.1 hw] at hv ⊢
      obtain ⟨-, b, hb, hk, hversion⟩ := hlive v (Option.mem_toList.2 hv)
      exact ⟨b, List.mem_append_left _ hb, hk, hversion⟩
  · rw [replacedVersions_written, List.nodup_append]
    refine ⟨h.once, ?_, fun a ha b hb => ?_⟩
    · cases (s.live now k).map (·.version) <;> simp
    · rintro rfl
      exact (hlive a hb).1 ha
  · intro k' e he hmem
    rw [replacedVersions_written, List.mem_append] at hmem
    by_cases hk : k' = k
    · subst hk
      obtain rfl : ⟨value, s.version + 1, now + ttl⟩ = e := by simpa [Store.written] using he
      rcases hmem with hmem | hmem
      · have := hbase _ hmem
        simp only [] at this
        omega
      · obtain ⟨-, b, hb, -, hversion⟩ := hlive _ hmem
        have := h.le b hb
        simp only [] at hversion
        omega
    · have he' : s.entries k' = some e := by simpa [Store.written, hk] using he
      rcases hmem with hmem | hmem
      · exact h.standing k' e he' hmem
      · obtain ⟨e₀, hlive₀, hversion⟩ := Option.map_eq_some_iff.1 (Option.mem_toList.1 hmem)
        obtain ⟨w, hw, hwk, -, hwv, -⟩ := h.entry k' e he'
        obtain ⟨w₀, hw₀, hwk₀, -, hwv₀⟩ := h.of_live hlive₀
        have := h.write_eq hw hw₀ (by omega)
        exact hk (by rw [← hwk, this, hwk₀])

theorem delete (h : Sound s) (k : κ) (ifVersion : Option Nat) : Sound (s.delete k ifVersion) where
  le := by
    rw [delete_log, delete_version]
    exact h.le
  nodup := by
    rw [delete_log]
    exact h.nodup
  entry k' e he := by
    rw [delete_log]
    exact h.entry k' e (delete_entries he)
  base := by
    rw [delete_log]
    exact h.base
  once := by
    rw [replacedVersions, delete_log]
    exact h.once
  standing k' e he := by
    rw [replacedVersions, delete_log]
    exact h.standing k' e (delete_entries he)

end Sound

end CasStore
end Aisix
