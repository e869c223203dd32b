import Mathlib.Data.List.AList
import Mathlib.Algebra.Order.Ring.Nat

/-!
# Aisix.KeyMap

Finite maps as association lists without repeated keys, with the operations Mathlib's `AList` does
not have: keep the entries whose key passes a test (`retain`) or whose value does (`retainValues`),
list the values (`values`) and change each (`mapValues`); and what a map holds after a list of
insertions or erasures.
-/

namespace Aisix

abbrev KeyMap (κ β : Type*) := AList fun _ : κ => β

namespace KeyMap

variable {κ β : Type*} [DecidableEq κ]

def retain (p : κ → Bool) (m : KeyMap κ β) : KeyMap κ β :=
  ⟨m.entries.filter fun e => p e.1, m.nodupKeys.sublist List.filter_sublist⟩

def values (m : KeyMap κ β) : List β := m.entries.map (·.2)

def mapValues {γ : Type*} (f : β → γ) (m : KeyMap κ β) : KeyMap κ γ :=
  ⟨m.entries.map fun e => ⟨e.1, f e.2⟩, by
    have hkeys : (m.entries.map fun e => (⟨e.1, f e.2⟩ : Σ _ : κ, γ)).keys = m.entries.keys := by
      simp [List.keys, Function.comp_def]
    rw [List.NodupKeys, hkeys]
    exact m.nodupKeys⟩

theorem lookup_mapValues {γ : Type*} (f : β → γ) (m : KeyMap κ β) (k : κ) :
    (m.mapValues f).lookup k = (m.lookup k).map f := by
  unfold mapValues AList.lookup
  dsimp only
  induction m.entries with
  | nil => simp
  | cons e es ih =>
    obtain ⟨k', b⟩ := e
    by_cases hk : k = k'
    · subst hk
      simp
    · rw [List.map_cons, List.dlookup_cons_ne _ _ hk, List.dlookup_cons_ne _ _ hk, ih]

theorem lookup_retain (p : κ → Bool) (m : KeyMap κ β) (k : κ) :
    (m.retain p).lookup k = if p k then m.lookup k else none := by
  unfold retain AList.lookup
  dsimp only
  induction m.entries with
  | nil => simp
  | cons e es ih =>
    obtain ⟨k', b⟩ := e
    by_cases hk : k = k'
    · subst hk
      cases hp : p k with
      | true => rw [List.filter_cons_of_pos (by simpa using hp)]; simp
      | false =>
        rw [List.filter_cons_of_neg (by simpa using hp), ih]
        simp [hp]
    · cases hp : p k' with
      | true =>
        rw [List.filter_cons_of_pos (by simpa using hp), List.dlookup_cons_ne _ _ hk,
          List.dlookup_cons_ne _ _ hk, ih]
      | false => rw [List.filter_cons_of_neg (by simpa using hp), List.dlookup_cons_ne _ _ hk, ih]

def retainValues (p : β → Bool) (m : KeyMap κ β) : KeyMap κ β :=
  ⟨m.entries.filter fun e => p e.2, m.nodupKeys.sublist List.filter_sublist⟩

theorem lookup_retainValues (p : β → Bool) (m : KeyMap κ β) (k : κ) :
    (m.retainValues p).lookup k = (m.lookup k).filter p := by
  ext b
  rw [Option.filter_eq_some_iff, ← Option.mem_def, ← Option.mem_def, AList.mem_lookup_iff,
    AList.mem_lookup_iff]
  exact List.mem_filter

theorem mem_values {m : KeyMap κ β} {b : β} : b ∈ m.values ↔ ∃ k, m.lookup k = some b := by
  simp only [values, List.mem_map]
  constructor
  · rintro ⟨⟨k, b'⟩, hmem, rfl⟩
    exact ⟨k, AList.mem_lookup_iff.2 hmem⟩
  · rintro ⟨k, hk⟩
    exact ⟨⟨k, b⟩, AList.mem_lookup_iff.1 hk, rfl⟩

theorem nodup_map_values {key : β → κ} {m : KeyMap κ β}
    (h : ∀ k b, m.lookup k = some b → key b = k) :
    (m.values.map key).Nodup := by
  have hkeys : m.values.map key = m.keys := by
    simp only [values, List.map_map, AList.keys, List.keys]
    refine List.map_congr_left fun e he => ?_
    exact h e.1 e.2 (AList.mem_lookup_iff.2 he)
  rw [hkeys]
  exact m.keys_nodup

theorem values_erase {key : β → κ} {m : KeyMap κ β} (h : ∀ k b, m.lookup k = some b → key b = k)
    (k : κ) : values (m.erase k) = m.values.filter fun b => key b ≠ k := by
  have hkeys : ∀ e ∈ m.entries, key e.2 = e.1 := fun e he => h e.1 e.2 (AList.mem_lookup_iff.2 he)
  have hnodup : m.entries.NodupKeys := m.nodupKeys
  change (List.kerase k m.entries).map (·.2) = (m.entries.map (·.2)).filter fun b => key b ≠ k
  revert hkeys hnodup
  generalize m.entries = es
  intro hkeys hnodup
  induction es with
  | nil => rfl
  | cons e es ih =>
    obtain ⟨hout, hrest⟩ := List.nodupKeys_cons.1 hnodup
    obtain ⟨hkey, htail⟩ := List.forall_mem_cons.1 hkeys
    by_cases hk : k = e.1
    · have hall : ∀ b ∈ es.map (·.2), decide (key b ≠ k) = true := by
        intro b hb
        obtain ⟨e', he', rfl⟩ := List.mem_map.1 hb
        have hne : key e'.2 ≠ k := by
          rw [htail e' he', hk]
          exact fun heq => hout (heq ▸ List.mem_map_of_mem he')
        exact decide_eq_true hne
      rw [List.kerase_cons_eq hk, List.map_cons, List.filter_cons_of_neg (by simp [hkey, hk]),
        List.filter_eq_self.2 hall]
    · have hne : key e.2 ≠ k := by
        rw [hkey]
        exact fun heq => hk heq.symm
      rw [List.kerase_cons_ne hk, List.map_cons, List.map_cons,
        List.filter_cons_of_pos (by simpa using hne), ih htail hrest]

theorem values_insert {key : β → κ} {m : KeyMap κ β} (h : ∀ k b, m.lookup k = some b → key b = k)
    (k : κ) (b : β) : values (m.insert k b) = b :: m.values.filter fun b => key b ≠ k := by
  rw [← values_erase h]
  rfl

omit [DecidableEq κ] in
theorem length_values (m : KeyMap κ β) : (values m).length = m.keys.length := by
  simp [values, AList.keys, List.keys]

theorem length_values_erase {m : KeyMap κ β} {k : κ} {b : β} (h : m.lookup k = some b) :
    (values (m.erase k)).length = (values m).length - 1 := by
  have hmem : k ∈ m.keys := AList.lookup_isSome.1 (by rw [h]; rfl)
  rw [length_values, AList.keys_erase, List.length_erase_of_mem hmem, length_values]

theorem length_values_pos {m : KeyMap κ β} {k : κ} {b : β} (h : m.lookup k = some b) :
    0 < (values m).length :=
  List.length_pos_of_mem (mem_values.2 ⟨k, h⟩)

theorem erase_of_lookup_none {m : KeyMap κ β} {k : κ} (h : m.lookup k = none) : m.erase k = m := by
  have hout : k ∉ m.entries.keys := AList.lookup_eq_none.1 h
  exact AList.ext (List.kerase_of_notMem_keys hout)

section Buckets

/-- Appends to the list of a key. -/
def push (m : KeyMap κ (List β)) (k : κ) (b : β) : KeyMap κ (List β) :=
  m.insert k ((m.lookup k).getD [] ++ [b])

/-- The list of a key. -/
def bucket (m : KeyMap κ (List β)) (k : κ) : List β := (m.lookup k).getD []

theorem bucket_push (m : KeyMap κ (List β)) (k k' : κ) (b : β) :
    bucket (push m k b) k' = bucket m k' ++ if k = k' then [b] else [] := by
  unfold bucket push
  by_cases h : k = k'
  · rw [h, AList.lookup_insert, if_pos rfl]
    rfl
  · rw [AList.lookup_insert_ne (fun h' => h h'.symm), if_neg h, List.append_nil]

end Buckets

section Folds

variable {α : Type*} {k : κ}

section Entries

variable {key : α → κ} {value : α → β} {es : List α} {m : KeyMap κ β}

theorem lookup_foldl_insert_of_notMem (h : ∀ e ∈ es, key e ≠ k) :
    (es.foldl (fun m e => m.insert (key e) (value e)) m).lookup k = m.lookup k := by
  induction es generalizing m with
  | nil => rfl
  | cons e es ih =>
    obtain ⟨he, hes⟩ := List.forall_mem_cons.1 h
    rw [List.foldl_cons, ih hes, AList.lookup_insert_ne he.symm]

theorem lookup_foldl_insert_of_mem {e : α} (hnodup : (es.map key).Nodup) (he : e ∈ es) :
    (es.foldl (fun m e => m.insert (key e) (value e)) m).lookup (key e) = some (value e) := by
  induction es generalizing m with
  | nil => cases he
  | cons e' es ih =>
    rw [List.map_cons, List.nodup_cons] at hnodup
    rw [List.foldl_cons]
    rcases List.mem_cons.1 he with rfl | he
    · have hrest : ∀ e' ∈ es, key e' ≠ key e := fun e' he' heq =>
        hnodup.1 (heq ▸ List.mem_map_of_mem he')
      rw [lookup_foldl_insert_of_notMem hrest, AList.lookup_insert]
    · exact ih hnodup.2 he

end Entries

variable {key : β → κ} {es : List β} {m : KeyMap κ β}

/-- Every value found after insertions was inserted under its own key or was there before. -/
theorem mem_of_lookup_foldl_insert {e : β}
    (h : (es.foldl (fun m e => m.insert (key e) e) m).lookup k = some e) :
    (e ∈ es ∧ key e = k) ∨ m.lookup k = some e := by
  induction es generalizing m with
  | nil => exact .inr h
  | cons e' es ih =>
    rw [List.foldl_cons] at h
    rcases ih h with ⟨hmem, hkey⟩ | hlookup
    · exact .inl ⟨List.mem_cons_of_mem _ hmem, hkey⟩
    · by_cases hk : k = key e'
      · subst hk
        rw [AList.lookup_insert] at hlookup
        obtain rfl := Option.some.inj hlookup
        exact .inl ⟨List.mem_cons_self, rfl⟩
      · rw [AList.lookup_insert_ne hk] at hlookup
        exact .inr hlookup

theorem lookup_foldl_erase {key : α → κ} {es : List α} :
    (es.foldl (fun m e => m.erase (key e)) m).lookup k =
      if k ∈ es.map key then none else m.lookup k := by
  induction es generalizing m with
  | nil => simp
  | cons e es ih =>
    rw [List.foldl_cons, ih]
    by_cases hk : k = key e
    · subst hk
      simp [AList.lookup_erase]
    · simp [AList.lookup_erase_ne hk, hk]

end Folds

end KeyMap
end Aisix
