import Mathlib.Order.Lattice
import Mathlib.Data.List.Basic

/-!
# Aisix.SortedMap

A map whose entries stand in the order of their keys, each key once: the standard library's ordered
map, as far as a program looks up, inserts and walks it.
-/

namespace Aisix

structure SortedMap (κ β : Type) [LinearOrder κ] where
  entries : List (κ × β)
  sorted : entries.Pairwise fun e e' => e.1 < e'.1

namespace SortedMap

variable {κ β : Type} [LinearOrder κ]

def empty : SortedMap κ β := ⟨[], .nil⟩

def get? (m : SortedMap κ β) (k : κ) : Option β := m.entries.lookup k

def values (m : SortedMap κ β) : List β := m.entries.map (·.2)

def keys (m : SortedMap κ β) : List κ := m.entries.map (·.1)

def insertEntry (k : κ) (v : β) : List (κ × β) → List (κ × β)
  | [] => [(k, v)]
  | (k', v') :: rest =>
    if k < k' then (k, v) :: (k', v') :: rest
    else if k = k' then (k, v) :: rest
    else (k', v') :: insertEntry k v rest

theorem mem_insertEntry {k : κ} {v : β} {e : κ × β} {es : List (κ × β)}
    (h : e ∈ insertEntry k v es) : e = (k, v) ∨ e ∈ es := by
  induction es with
  | nil => simpa [insertEntry] using h
  | cons e' es ih =>
    obtain ⟨k', v'⟩ := e'
    simp only [insertEntry] at h
    split at h
    · simpa using h
    · split at h
      · rcases List.mem_cons.mp h with rfl | h
        · exact .inl rfl
        · exact .inr (by simp [h])
      · rcases List.mem_cons.mp h with rfl | h
        · exact .inr (by simp)
        · exact (ih h).imp id (by simp +contextual)

theorem sorted_insertEntry (k : κ) (v : β) {es : List (κ × β)}
    (h : es.Pairwise fun e e' => e.1 < e'.1) :
    (insertEntry k v es).Pairwise fun e e' => e.1 < e'.1 := by
  induction es with
  | nil => simp [insertEntry]
  | cons e' es ih =>
    obtain ⟨k', v'⟩ := e'
    obtain ⟨hhead, htail⟩ := List.pairwise_cons.mp h
    simp only [insertEntry]
    split
    · next hlt =>
      refine List.pairwise_cons.mpr ⟨fun e he => ?_, h⟩
      rcases List.mem_cons.mp he with rfl | he
      · exact hlt
      · exact lt_trans hlt (hhead e he)
    · next hge =>
      split
      · next heq =>
        subst heq
        exact List.pairwise_cons.mpr ⟨hhead, htail⟩
      · next hne =>
        refine List.pairwise_cons.mpr ⟨fun e he => ?_, ih htail⟩
        rcases mem_insertEntry he with rfl | he
        · exact lt_of_le_of_ne (not_lt.mp hge) (Ne.symm hne)
        · exact hhead e he

def insert (k : κ) (v : β) (m : SortedMap κ β) : SortedMap κ β :=
  ⟨insertEntry k v m.entries, sorted_insertEntry k v m.sorted⟩

@[simp] theorem get?_empty (k : κ) : (empty : SortedMap κ β).get? k = none := rfl

theorem lookup_insertEntry (k k' : κ) (v : β) (es : List (κ × β)) :
    (insertEntry k v es).lookup k' = if k' = k then some v else es.lookup k' := by
  induction es with
  | nil =>
    by_cases h : k' = k
    · simp [insertEntry, h]
    · have hne : (k' == k) = false := by simpa using h
      simp [insertEntry, List.lookup_cons, hne, h]
  | cons e es ih =>
    obtain ⟨k₁, v₁⟩ := e
    simp only [insertEntry]
    split
    · by_cases h : k' = k
      · simp [h]
      · have hne : (k' == k) = false := by simpa using h
        simp [List.lookup_cons, hne, h]
    · split
      · next heq =>
        subst heq
        by_cases h : k' = k
        · simp [h]
        · have hne : (k' == k) = false := by simpa using h
          simp [List.lookup_cons, hne, h]
      · next hne₁ =>
        by_cases h₁ : k' = k₁
        · subst h₁
          have hne : k' ≠ k := fun h => hne₁ h.symm
          simp [hne]
        · have hne : (k' == k₁) = false := by simpa using h₁
          simp only [List.lookup_cons, hne, ih]

@[simp] theorem get?_insert (k k' : κ) (v : β) (m : SortedMap κ β) :
    (m.insert k v).get? k' = if k' = k then some v else m.get? k' :=
  lookup_insertEntry k k' v m.entries

theorem get?_insert_self (k : κ) (v : β) (m : SortedMap κ β) : (m.insert k v).get? k = some v := by
  simp

theorem get?_insert_ne {k k' : κ} (h : k' ≠ k) (v : β) (m : SortedMap κ β) :
    (m.insert k v).get? k' = m.get? k' := by
  simp [h]

theorem nodup_keys (m : SortedMap κ β) : m.keys.Nodup := by
  rw [keys, List.Nodup, List.pairwise_map]
  exact m.sorted.imp fun h => ne_of_lt h

theorem mem_entries_iff {m : SortedMap κ β} {k : κ} {v : β} :
    (k, v) ∈ m.entries ↔ m.get? k = some v := by
  obtain ⟨es, hsorted⟩ := m
  simp only [get?]
  induction es with
  | nil => simp
  | cons e es ih =>
    obtain ⟨k', v'⟩ := e
    obtain ⟨hhead, htail⟩ := List.pairwise_cons.mp hsorted
    by_cases h : k = k'
    · subst h
      have hnot : ∀ w, (k, w) ∉ es := fun w hw => absurd (hhead _ hw) (lt_irrefl k)
      simp [hnot, eq_comm]
    · have hne : (k == k') = false := by simpa using h
      simp only [List.mem_cons, Prod.mk.injEq, h, false_and, false_or,
        List.lookup_cons, hne, ih htail]

theorem mem_values_iff {m : SortedMap κ β} {v : β} : v ∈ m.values ↔ ∃ k, m.get? k = some v := by
  simp only [values, List.mem_map, Prod.exists, exists_eq_right, mem_entries_iff]

theorem mem_keys_iff {m : SortedMap κ β} {k : κ} : k ∈ m.keys ↔ ∃ v, m.get? k = some v := by
  simp only [keys, List.mem_map, Prod.exists, exists_and_right, exists_eq_right, mem_entries_iff]

def erase (k : κ) (m : SortedMap κ β) : SortedMap κ β :=
  ⟨m.entries.filter fun e => e.1 ≠ k, m.sorted.filter _⟩

@[simp] theorem get?_erase (k k' : κ) (m : SortedMap κ β) :
    (m.erase k).get? k' = if k' = k then none else m.get? k' := by
  have hmem : ∀ v, (m.erase k).get? k' = some v ↔ k' ≠ k ∧ m.get? k' = some v := by
    intro v
    rw [← mem_entries_iff, ← mem_entries_iff, erase, List.mem_filter, decide_eq_true_eq, and_comm]
  refine Option.ext fun v => ?_
  rw [hmem]
  split
  · next h => simp [h]
  · next h => simp [h]

/-- `retain` with a change: every value is changed, or dropped. -/
def filterMapValues (f : β → Option β) (m : SortedMap κ β) : SortedMap κ β :=
  ⟨m.entries.filterMap fun e => (f e.2).map fun v => (e.1, v), by
    refine List.pairwise_filterMap.mpr (m.sorted.imp fun {a a'} hlt b hb b' hb' => ?_)
    obtain ⟨v, -, rfl⟩ := Option.map_eq_some_iff.mp hb
    obtain ⟨v', -, rfl⟩ := Option.map_eq_some_iff.mp hb'
    exact hlt⟩

theorem get?_filterMapValues (f : β → Option β) (m : SortedMap κ β) (k : κ) :
    (m.filterMapValues f).get? k = (m.get? k).bind f := by
  have hmem : ∀ v, (m.filterMapValues f).get? k = some v ↔ (m.get? k).bind f = some v := by
    intro v
    rw [← mem_entries_iff, Option.bind_eq_some_iff]
    simp only [filterMapValues, List.mem_filterMap, Prod.exists,
      Option.map_eq_some_iff, Prod.mk.injEq]
    constructor
    · rintro ⟨k', w, hw, v', hv', rfl, rfl⟩
      exact ⟨w, mem_entries_iff.mp hw, hv'⟩
    · rintro ⟨w, hw, hv⟩
      exact ⟨k, w, mem_entries_iff.mpr hw, v, hv, rfl, rfl⟩
  exact Option.ext hmem

end SortedMap

end Aisix
