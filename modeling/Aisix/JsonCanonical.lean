import Aisix.JsonText
import Mathlib.Data.List.Sort
import Mathlib.Data.String.Basic

/-!
# Aisix.JsonCanonical

JSON up to the order of the keys of its objects (`SameUpToOrder`), and the canonical form that puts
every object's keys in order. `canonicalise_eq_iff`: two values have one canonical form exactly when
they are the same up to key order.
-/

namespace Aisix
namespace Json

def byKey (e e' : String × Value) : Prop := e.1 ≤ e'.1

instance : DecidableRel byKey := fun e e' => inferInstanceAs (Decidable (e.1 ≤ e'.1))

instance : Std.Total byKey := ⟨fun e e' => le_total e.1 e'.1⟩

instance : IsTrans (String × Value) byKey := ⟨fun _ _ _ h h' => le_trans (α := String) h h'⟩

def sortFields (fields : List (String × Value)) : List (String × Value) :=
  fields.insertionSort byKey

mutual

/-- The value with every nested object's keys in order; arrays are positional and keep theirs. -/
def canonicalise : Value → Value
  | .array items => .array (canonicaliseItems items)
  | .object fields => .object (sortFields (canonicaliseFields fields))
  | v => v

def canonicaliseItems : List Value → List Value
  | [] => []
  | v :: vs => canonicalise v :: canonicaliseItems vs

def canonicaliseFields : List (String × Value) → List (String × Value)
  | [] => []
  | (k, v) :: fs => (k, canonicalise v) :: canonicaliseFields fs

end

mutual

/-- The same value, the fields of each object in any order. -/
def SameUpToOrder : Value → Value → Prop
  | .array vs, w => ∃ ws, w = .array ws ∧ itemsSame vs ws
  | .object fs, w => ∃ gs, w = .object gs ∧ fieldsSame fs gs
  | v, w => v = w

def itemsSame : List Value → List Value → Prop
  | [], ws => ws = []
  | v :: vs, ws => ∃ w rest, ws = w :: rest ∧ SameUpToOrder v w ∧ itemsSame vs rest

def fieldsSame : List (String × Value) → List (String × Value) → Prop
  | [], gs => gs = []
  | (k, v) :: fs, gs =>
    ∃ w rest, gs.Perm ((k, w) :: rest) ∧ SameUpToOrder v w ∧ fieldsSame fs rest

end

theorem canonicaliseFields_eq_map (fs : List (String × Value)) :
    canonicaliseFields fs = fs.map fun e => (e.1, canonicalise e.2) := by
  induction fs with
  | nil => rfl
  | cons e fs ih => obtain ⟨k, v⟩ := e; rw [canonicaliseFields, ih, List.map_cons]

theorem keys_canonicaliseFields (fs : List (String × Value)) :
    (canonicaliseFields fs).map Prod.fst = fs.map Prod.fst := by
  rw [canonicaliseFields_eq_map, List.map_map]
  rfl

theorem fieldsWellFormed_iff (fs : List (String × Value)) :
    fieldsWellFormed fs ↔ ∀ e ∈ fs, e.2.WellFormed := by
  induction fs with
  | nil => simp [fieldsWellFormed]
  | cons e fs ih => obtain ⟨k, v⟩ := e; simp [fieldsWellFormed, ih]

theorem sortFields_perm (fs : List (String × Value)) : (sortFields fs).Perm fs :=
  List.perm_insertionSort byKey fs

theorem sorted_unique {fs gs : List (String × Value)} (hkeys : (fs.map Prod.fst).Nodup)
    (hperm : fs.Perm gs) (hfs : fs.Pairwise byKey) (hgs : gs.Pairwise byKey) : fs = gs := by
  refine hperm.eq_of_pairwise ?_ hfs hgs
  intro e e' he he' hle hle'
  exact List.inj_on_of_nodup_map hkeys he (hperm.mem_iff.2 he') (le_antisymm hle hle')

theorem sorted_sortFields (fs : List (String × Value)) : (sortFields fs).Pairwise byKey :=
  List.pairwise_insertionSort byKey fs

theorem nodup_sortFields {fs : List (String × Value)} (hkeys : (fs.map Prod.fst).Nodup) :
    ((sortFields fs).map Prod.fst).Nodup :=
  ((sortFields_perm fs).map Prod.fst).nodup_iff.2 hkeys

theorem sortFields_eq_iff {fs gs : List (String × Value)} (hkeys : (fs.map Prod.fst).Nodup) :
    sortFields fs = sortFields gs ↔ fs.Perm gs := by
  constructor
  · intro h
    exact (sortFields_perm fs).symm.trans (h ▸ sortFields_perm gs)
  · intro hperm
    have hsorted : (sortFields fs).Perm (sortFields gs) :=
      (sortFields_perm fs).trans (hperm.trans (sortFields_perm gs).symm)
    exact sorted_unique (nodup_sortFields hkeys) hsorted (sorted_sortFields fs)
      (sorted_sortFields gs)

mutual

theorem canonicalise_eq_iff : ∀ {v w : Value}, v.WellFormed → w.WellFormed →
    (canonicalise v = canonicalise w ↔ SameUpToOrder v w)
  | v, w, hv, hw => by
    match v, w with
    | .array vs, .array ws =>
      rw [Value.WellFormed] at hv hw
      rw [canonicalise, canonicalise, SameUpToOrder, Value.array.injEq, items_eq_iff hv hw]
      simp
    | .object fs, .object gs =>
      rw [Value.WellFormed] at hv hw
      have hkeys : ((canonicaliseFields fs).map Prod.fst).Nodup := by
        rw [keys_canonicaliseFields]; exact hv.1
      rw [canonicalise, canonicalise, SameUpToOrder, Value.object.injEq, sortFields_eq_iff hkeys,
        fields_perm_iff hv.2 ((fieldsWellFormed_iff gs).1 hw.2)]
      simp
    | .null, w => cases w <;> simp [canonicalise, SameUpToOrder]
    | .bool _, w => cases w <;> simp [canonicalise, SameUpToOrder]
    | .number _, w => cases w <;> simp [canonicalise, SameUpToOrder]
    | .string _, w => cases w <;> simp [canonicalise, SameUpToOrder]
    | .array _, .null | .array _, .bool _ | .array _, .number _ | .array _, .string _
    | .array _, .object _ => simp [canonicalise, SameUpToOrder]
    | .object _, .null | .object _, .bool _ | .object _, .number _ | .object _, .string _
    | .object _, .array _ => simp [canonicalise, SameUpToOrder]

theorem items_eq_iff : ∀ {vs ws : List Value}, itemsWellFormed vs → itemsWellFormed ws →
    (canonicaliseItems vs = canonicaliseItems ws ↔ itemsSame vs ws)
  | [], ws, _, _ => by cases ws <;> simp [canonicaliseItems, itemsSame]
  | v :: vs, [], _, _ => by simp [canonicaliseItems, itemsSame]
  | v :: vs, w :: ws, hv, hw => by
    rw [itemsWellFormed] at hv hw
    rw [canonicaliseItems, canonicaliseItems, itemsSame, List.cons.injEq,
      canonicalise_eq_iff hv.1 hw.1, items_eq_iff hv.2 hw.2]
    simp

theorem fields_perm_iff : ∀ {fs gs : List (String × Value)}, fieldsWellFormed fs →
    (∀ e ∈ gs, e.2.WellFormed) →
    ((canonicaliseFields fs).Perm (canonicaliseFields gs) ↔ fieldsSame fs gs)
  | [], gs, _, _ => by
    rw [canonicaliseFields, fieldsSame, List.nil_perm, canonicaliseFields_eq_map,
      List.map_eq_nil_iff]
  | (k, v) :: fs, gs, hv, hw => by
    rw [fieldsWellFormed] at hv
    rw [canonicaliseFields, fieldsSame]
    constructor
    · intro hperm
      have hmem : (k, canonicalise v) ∈ canonicaliseFields gs := hperm.mem_iff.1 List.mem_cons_self
      rw [canonicaliseFields_eq_map, List.mem_map] at hmem
      obtain ⟨⟨k', w⟩, hmem, heq⟩ := hmem
      obtain ⟨rfl, hvw⟩ := Prod.mk.inj heq
      obtain ⟨before, after, rfl⟩ := List.append_of_mem hmem
      have hfront : (before ++ (k', w) :: after).Perm ((k', w) :: (before ++ after)) :=
        List.perm_middle
      have hrest : (canonicaliseFields fs).Perm (canonicaliseFields (before ++ after)) := by
        have hmap := hfront.map fun e => (e.1, canonicalise e.2)
        rw [← canonicaliseFields_eq_map, List.map_cons, ← canonicaliseFields_eq_map] at hmap
        have := hperm.trans hmap
        rw [hvw] at this
        exact this.cons_inv
      refine ⟨w, before ++ after, hfront, (canonicalise_eq_iff hv.1 (hw _ hmem)).1 hvw.symm, ?_⟩
      exact (fields_perm_iff hv.2 fun e he => hw e (hfront.mem_iff.2 (List.mem_cons_of_mem _ he))).1
        hrest
    · rintro ⟨w, rest, hperm, hsame, hrest⟩
      have hw' : ∀ e ∈ (k, w) :: rest, e.2.WellFormed := fun e he => hw e (hperm.mem_iff.2 he)
      have hvw : canonicalise v = canonicalise w :=
        (canonicalise_eq_iff hv.1 (hw' _ List.mem_cons_self)).2 hsame
      have hfs := (fields_perm_iff hv.2 fun e he => hw' e (List.mem_cons_of_mem _ he)).2 hrest
      refine (hfs.cons (k, canonicalise v)).trans ?_
      rw [canonicaliseFields_eq_map, canonicaliseFields_eq_map, hvw]
      exact (hperm.map fun e => (e.1, canonicalise e.2)).symm

end

mutual

theorem canonicalise_wellFormed : ∀ {v : Value}, v.WellFormed → (canonicalise v).WellFormed
  | v, hv => by
    match v with
    | .array vs =>
      rw [Value.WellFormed] at hv
      rw [canonicalise, Value.WellFormed]
      exact canonicaliseItems_wellFormed hv
    | .object fs =>
      rw [Value.WellFormed] at hv
      have hperm := sortFields_perm (canonicaliseFields fs)
      rw [canonicalise, Value.WellFormed, fieldsWellFormed_iff]
      refine ⟨(hperm.map Prod.fst).nodup_iff.2 (keys_canonicaliseFields fs ▸ hv.1), fun e he => ?_⟩
      exact (fieldsWellFormed_iff _).1 (canonicaliseFields_wellFormed hv.2) e (hperm.mem_iff.1 he)
    | .null => exact hv
    | .bool _ => exact hv
    | .number _ => exact hv
    | .string _ => exact hv

theorem canonicaliseItems_wellFormed : ∀ {vs : List Value}, itemsWellFormed vs →
    itemsWellFormed (canonicaliseItems vs)
  | [], _ => trivial
  | _ :: _, hv => by
    rw [itemsWellFormed] at hv
    rw [canonicaliseItems, itemsWellFormed]
    exact ⟨canonicalise_wellFormed hv.1, canonicaliseItems_wellFormed hv.2⟩

theorem canonicaliseFields_wellFormed : ∀ {fs : List (String × Value)}, fieldsWellFormed fs →
    fieldsWellFormed (canonicaliseFields fs)
  | [], _ => trivial
  | (_, _) :: _, hv => by
    rw [fieldsWellFormed] at hv
    rw [canonicaliseFields, fieldsWellFormed]
    exact ⟨canonicalise_wellFormed hv.1, canonicaliseFields_wellFormed hv.2⟩

end

theorem text_canonicalise_iff (F : FloatText) {v w : Value} (hv : v.WellFormed)
    (hw : w.WellFormed) :
    text F (canonicalise v) = text F (canonicalise w) ↔ SameUpToOrder v w := by
  rw [← canonicalise_eq_iff hv hw]
  exact ⟨text_injective (canonicalise_wellFormed hv) (canonicalise_wellFormed hw), fun h => h ▸ rfl⟩

end Json
end Aisix
