import Aisix.Etcd.Snapshot
import Mathlib.Data.List.Nodup

/-!
# Aisix.ResourceTable

A table of the served snapshot (`ResourceTable`): the rows in the order the table lists them, and
the index from names to ids. The index follows the last insertion: while two rows carry one name, it
owns one of them.
-/

namespace Aisix

open Etcd

/-- Ids are unique, and an indexed name is carried by the row it leads to. -/
structure ResourceTable (V : Type) (name : V → String) where
  rows : List (ResourceEntry V)
  byName : String → Option String
  nodup : (rows.map ResourceEntry.id).Nodup
  owned : ∀ n id, byName n = some id → ∃ e ∈ rows, e.id = id ∧ name e.value = n

namespace ResourceTable

variable {V : Type} {name : V → String}

def empty : ResourceTable V name where
  rows := []
  byName := fun _ => none
  nodup := List.nodup_nil
  owned := by intro n id h; cases h

def getById (t : ResourceTable V name) (id : String) : Option (ResourceEntry V) :=
  t.rows.find? fun e => e.id = id

def getByName (t : ResourceTable V name) (n : String) : Option (ResourceEntry V) :=
  (t.byName n).bind t.getById

theorem eq_of_id {t : ResourceTable V name} {e e' : ResourceEntry V} (he : e ∈ t.rows)
    (he' : e' ∈ t.rows) (h : e.id = e'.id) : e = e' :=
  List.inj_on_of_nodup_map t.nodup he he' h

theorem getById_eq_some {t : ResourceTable V name} {id : String} {e : ResourceEntry V} :
    t.getById id = some e ↔ e ∈ t.rows ∧ e.id = id := by
  constructor
  · intro h
    exact ⟨List.mem_of_find?_eq_some h, by simpa using List.find?_some h⟩
  · rintro ⟨he, rfl⟩
    cases h : t.getById e.id with
    | none =>
      have hne := List.find?_eq_none.1 h e he
      simp at hne
    | some e' =>
      have hid : e'.id = e.id := by simpa using List.find?_some h
      rw [t.eq_of_id (List.mem_of_find?_eq_some h) he hid]

theorem getByName_eq_some {t : ResourceTable V name} {n : String} {e : ResourceEntry V} :
    t.getByName n = some e ↔ e ∈ t.rows ∧ t.byName n = some e.id := by
  rw [getByName, Option.bind_eq_some_iff]
  constructor
  · rintro ⟨id, hid, he⟩
    obtain ⟨hmem, rfl⟩ := getById_eq_some.1 he
    exact ⟨hmem, hid⟩
  · rintro ⟨he, hid⟩
    exact ⟨e.id, hid, getById_eq_some.2 ⟨he, rfl⟩⟩

theorem name_of_getByName {t : ResourceTable V name} {n : String} {e : ResourceEntry V}
    (h : t.getByName n = some e) : name e.value = n := by
  obtain ⟨he, hid⟩ := getByName_eq_some.1 h
  obtain ⟨e', he', heq, hn⟩ := t.owned n e.id hid
  rw [t.eq_of_id he he' heq.symm, hn]

/-- The index without the name `n`, if it leads to `id`. -/
def unindex (byName : String → Option String) (n id : String) : String → Option String :=
  if byName n = some id then Function.update byName n none else byName

theorem unindex_eq_some {byName : String → Option String} {n id m i : String}
    (h : unindex byName n id m = some i) : byName m = some i ∧ ¬ (m = n ∧ i = id) := by
  unfold unindex at h
  split at h
  · rw [Function.update_apply] at h
    split at h
    · cases h
    · exact ⟨h, fun hm => absurd hm.1 ‹_›⟩
  · refine ⟨h, ?_⟩
    rintro ⟨rfl, rfl⟩
    exact absurd h ‹_›

/-- Puts in or replaces a row; a row that is renamed gives its old name up. -/
def insert (t : ResourceTable V name) (e : ResourceEntry V) : ResourceTable V name where
  rows := e :: t.rows.filter fun x => x.id ≠ e.id
  byName := Function.update
    (match t.getById e.id with
      | some old =>
        if name old.value ≠ name e.value then unindex t.byName (name old.value) e.id else t.byName
      | none => t.byName)
    (name e.value) (some e.id)
  nodup := by
    rw [List.map_cons, List.nodup_cons]
    refine ⟨fun hmem => ?_, (List.filter_sublist.map ResourceEntry.id).nodup t.nodup⟩
    obtain ⟨x, hx, hid⟩ := List.mem_map.1 hmem
    simp only [ne_eq, decide_not, List.mem_filter, Bool.not_eq_eq_eq_not, Bool.not_true,
      decide_eq_false_iff_not] at hx
    exact hx.2 hid
  owned := by
    intro n id h
    rw [Function.update_apply] at h
    split at h
    · rename_i hn
      exact ⟨e, List.mem_cons_self, Option.some.inj h, hn.symm⟩
    · rename_i hn
      have hkeep : t.byName n = some id ∧ ∀ old, t.getById e.id = some old →
          ¬ (n = name old.value ∧ id = e.id) := by
        cases hold : t.getById e.id with
        | none =>
          rw [hold] at h
          exact ⟨h, by rintro old ⟨⟩⟩
        | some old =>
          rw [hold] at h
          dsimp only at h
          split at h
          · obtain ⟨h, hne⟩ := unindex_eq_some h
            exact ⟨h, by rintro _ ⟨⟩; exact hne⟩
          · rename_i hsame
            exact ⟨h, by rintro _ ⟨⟩ ⟨rfl, -⟩; exact hn (not_not.1 hsame)⟩
      obtain ⟨x, hx, rfl, rfl⟩ := t.owned n id hkeep.1
      have hid : x.id ≠ e.id := fun heq => hkeep.2 x (getById_eq_some.2 ⟨hx, heq⟩) ⟨rfl, heq⟩
      exact ⟨x, List.mem_cons_of_mem e (List.mem_filter.2 ⟨hx, by simpa using hid⟩), rfl, rfl⟩

/-- Takes a row out, and its name out of the index if it owned it. -/
def remove (t : ResourceTable V name) (id : String) : ResourceTable V name :=
  match h : t.getById id with
  | none => t
  | some e => {
      rows := t.rows.filter fun x => x.id ≠ id
      byName := unindex t.byName (name e.value) id
      nodup := (List.filter_sublist.map ResourceEntry.id).nodup t.nodup
      owned := by
        intro n i hi
        obtain ⟨hi, hne⟩ := unindex_eq_some hi
        obtain ⟨x, hx, rfl, rfl⟩ := t.owned n i hi
        have hid : x.id ≠ id := by
          intro heq
          have hxe : x = e :=
            t.eq_of_id hx (getById_eq_some.1 h).1 (heq.trans (getById_eq_some.1 h).2.symm)
          exact hne ⟨by rw [hxe], heq⟩
        exact ⟨x, List.mem_filter.2 ⟨hx, by simpa using hid⟩, rfl, rfl⟩ }

theorem remove_of_none {t : ResourceTable V name} {id : String} (h : t.getById id = none) :
    t.remove id = t := by
  unfold remove
  split
  · rfl
  · rename_i hsome
    rw [hsome] at h
    cases h

theorem rows_remove (t : ResourceTable V name) (id : String) :
    (t.remove id).rows = t.rows.filter fun x => x.id ≠ id := by
  unfold remove
  split
  · rename_i hnone
    refine (List.filter_eq_self.2 fun x hx => ?_).symm
    simpa using List.find?_eq_none.1 hnone x hx
  · rfl

theorem byName_remove {t : ResourceTable V name} {id : String} {e : ResourceEntry V}
    (h : t.getById id = some e) :
    (t.remove id).byName = unindex t.byName (name e.value) id := by
  unfold remove
  split
  · rename_i hnone
    rw [hnone] at h
    cases h
  · rename_i e' hsome
    rw [h] at hsome
    obtain rfl := Option.some.inj hsome
    rfl

/-! ### Runs -/

inductive Op (V : Type) where
  | insert (entry : ResourceEntry V)
  | remove (id : String)

def step (t : ResourceTable V name) : Op V → ResourceTable V name
  | .insert entry => t.insert entry
  | .remove id => t.remove id

def run (name : V → String) (ops : List (Op V)) : ResourceTable V name := ops.foldl step empty

/-- Every name of a row leads to some row. -/
def Complete (t : ResourceTable V name) : Prop :=
  ∀ e ∈ t.rows, ∃ id, t.byName (name e.value) = some id

/-- If the index leads from `n` to `id`, no other row carries the name. -/
def Sole (t : ResourceTable V name) (id n : String) : Prop :=
  t.byName n = some id → ∀ e ∈ t.rows, name e.value = n → e.id = id

theorem unindex_self {byName : String → Option String} {n id : String} (h : byName n = some id) :
    unindex byName n id n = none := by
  rw [unindex, if_pos h, Function.update_self]

theorem unindex_of_ne {byName : String → Option String} {n id m : String}
    (h : ¬ (m = n ∧ byName n = some id)) : unindex byName n id m = byName m := by
  unfold unindex
  split
  · next hn =>
    rw [Function.update_of_ne fun hm => h ⟨hm, hn⟩]
  · rfl

theorem byName_insert_of_renamed {t : ResourceTable V name} {e old : ResourceEntry V} {n : String}
    (hold : t.getById e.id = some old) (hne : name old.value ≠ name e.value)
    (hn : n ≠ name e.value) :
    (t.insert e).byName n = unindex t.byName (name old.value) e.id n := by
  simp only [insert, hold, if_pos hne, Function.update_of_ne hn]

theorem byName_insert_of_kept {t : ResourceTable V name} {e : ResourceEntry V} {n : String}
    (hold : ∀ old, t.getById e.id = some old → name old.value = name e.value)
    (hn : n ≠ name e.value) :
    (t.insert e).byName n = t.byName n := by
  cases h : t.getById e.id with
  | none => simp only [insert, h, Function.update_of_ne hn]
  | some old => simp [insert, h, hold old h, Function.update_of_ne hn]

theorem byName_insert_self (t : ResourceTable V name) (e : ResourceEntry V) :
    (t.insert e).byName (name e.value) = some e.id := by
  simp only [insert, Function.update_self]

theorem complete_insert_iff {t : ResourceTable V name} (h : t.Complete) (e : ResourceEntry V) :
    (t.insert e).Complete ↔
      ∀ old, t.getById e.id = some old → name old.value ≠ name e.value →
        t.Sole e.id (name old.value) := by
  constructor
  · intro hc old hold hne howner x hx hname
    by_contra hid
    have hrow : x ∈ (t.insert e).rows :=
      List.mem_cons_of_mem e (List.mem_filter.2 ⟨hx, by simpa using hid⟩)
    obtain ⟨i, hi⟩ := hc x hrow
    rw [hname, byName_insert_of_renamed hold hne hne, unindex_self howner] at hi
    cases hi
  · intro hsole x hx
    rcases List.mem_cons.1 hx with rfl | hx
    · exact ⟨_, t.byName_insert_self x⟩
    · obtain ⟨hx, hid⟩ := List.mem_filter.1 hx
      have hid : x.id ≠ e.id := by simpa using hid
      by_cases hn : name x.value = name e.value
      · exact ⟨_, hn ▸ t.byName_insert_self e⟩
      · obtain ⟨i, hi⟩ := h x hx
        refine ⟨i, ?_⟩
        by_cases hrenamed : ∃ old, t.getById e.id = some old ∧ name old.value ≠ name e.value
        · obtain ⟨old, hold, hne⟩ := hrenamed
          rw [byName_insert_of_renamed hold hne hn, unindex_of_ne, hi]
          rintro ⟨hname, howner⟩
          exact hid (hsole old hold hne howner x hx hname)
        · have hkept : ∀ old, t.getById e.id = some old → name old.value = name e.value := by
            intro old hold
            by_contra hne
            exact hrenamed ⟨old, hold, hne⟩
          rw [byName_insert_of_kept hkept hn, hi]

theorem complete_remove_iff {t : ResourceTable V name} (h : t.Complete) (id : String) :
    (t.remove id).Complete ↔ ∀ old, t.getById id = some old → t.Sole id (name old.value) := by
  cases hget : t.getById id with
  | none =>
    rw [remove_of_none hget]
    simp [h]
  | some old =>
    have hrow : ∀ x, x ∈ (t.remove id).rows ↔ x ∈ t.rows ∧ x.id ≠ id := by
      intro x
      rw [rows_remove, List.mem_filter]
      simp
    constructor
    · rintro hc old' hold' howner x hx hname
      obtain rfl := Option.some.inj hold'
      by_contra hid
      obtain ⟨i, hi⟩ := hc x ((hrow x).2 ⟨hx, hid⟩)
      rw [hname, byName_remove hget, unindex_self howner] at hi
      cases hi
    · intro hsole x hx
      obtain ⟨hx, hid⟩ := (hrow x).1 hx
      obtain ⟨i, hi⟩ := h x hx
      refine ⟨i, ?_⟩
      rw [byName_remove hget, unindex_of_ne, hi]
      rintro ⟨hname, howner⟩
      exact hid (hsole old rfl howner x hx hname)

end ResourceTable
end Aisix
