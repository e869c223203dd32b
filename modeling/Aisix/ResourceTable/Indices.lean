import Aisix.KeyMap
import Aisix.ResourceTable
import Mathlib.Data.List.Induction

/-!
# Aisix.ResourceTable.Indices

The maps a resource table is kept in: rows by id, ids by name, the rows with a wildcard name, and a
counter. They always show the table of `Aisix.ResourceTable`; whether a name is found follows from
that.
-/

namespace Aisix
namespace ResourceTable

open Etcd KeyMap

structure Indices (V : Type) where
  byId : KeyMap String (ResourceEntry V)
  byName : KeyMap String String
  wildcards : KeyMap String (ResourceEntry V)
  count : Nat

namespace Indices

variable {V : Type}

def empty : Indices V := ⟨∅, ∅, ∅, 0⟩

def len (t : Indices V) : Nat := t.count

def isWildcard (n : String) : Bool := n.toList.contains '*'

/-- Takes a name out of the index if it leads to `id`. -/
def removeIf (byName : KeyMap String String) (n id : String) : KeyMap String String :=
  if byName.lookup n = some id then byName.erase n else byName

def insertArc (name : V → String) (t : Indices V) (entry : ResourceEntry V) : Indices V :=
  let n := name entry.value
  let byName :=
    match t.byId.lookup entry.id with
    | some old =>
      if name old.value ≠ n then removeIf t.byName (name old.value) entry.id else t.byName
    | none => t.byName
  -- counted before the row is stored, corrected after a replacement
  let count := t.count + 1
  { byId := t.byId.insert entry.id entry
    byName := byName.insert n entry.id
    wildcards :=
      if isWildcard n then t.wildcards.insert entry.id entry else t.wildcards.erase entry.id
    count := if (t.byId.lookup entry.id).isSome then count - 1 else count }

def remove (name : V → String) (t : Indices V) (id : String) :
    Indices V × Option (ResourceEntry V) :=
  match t.byId.lookup id with
  | none => (t, none)
  | some entry =>
    ({ byId := t.byId.erase id
       byName := removeIf t.byName (name entry.value) id
       wildcards := t.wildcards.erase id
       count := t.count - 1 }, some entry)

def getById (t : Indices V) (id : String) : Option (ResourceEntry V) := t.byId.lookup id

def getByName (t : Indices V) (n : String) : Option (ResourceEntry V) :=
  (t.byName.lookup n).bind t.getById

def wildcardEntries (t : Indices V) : List (ResourceEntry V) :=
  if t.wildcards.entries.isEmpty then [] else values t.wildcards

/-- The rows a table stores. -/
def stored (t : Indices V) : List (ResourceEntry V) := values t.byId

def step (name : V → String) (t : Indices V) : Op V → Indices V
  | .insert entry => t.insertArc name entry
  | .remove id => (t.remove name id).1

def run (name : V → String) (ops : List (Op V)) : Indices V := ops.foldl (step name) empty

/-! ### What the maps show -/

/-- The maps hold a table: its rows and its index, the wildcard rows among them, and their number.
-/
structure Shows {name : V → String} (t : Indices V) (r : ResourceTable V name) : Prop where
  keyed : ∀ id e, t.byId.lookup id = some e → e.id = id
  rows : t.stored = r.rows
  byName : ∀ n, t.byName.lookup n = r.byName n
  wildcards : ∀ id e, t.wildcards.lookup id = some e ↔ t.byId.lookup id = some e ∧
    isWildcard (name e.value)
  count : t.count = t.stored.length

section Shows

variable {name : V → String} {t : Indices V} {r : ResourceTable V name}

theorem shows_empty : Shows (empty : Indices V) (ResourceTable.empty : ResourceTable V name) where
  keyed := by intro id e h; cases h
  rows := rfl
  byName := fun _ => rfl
  wildcards := by
    intro id e
    constructor
    · intro h; cases h
    · rintro ⟨h, -⟩; cases h
  count := rfl

theorem Shows.mem_rows (h : Shows t r) {e : ResourceEntry V} :
    e ∈ r.rows ↔ t.byId.lookup e.id = some e := by
  rw [← h.rows, stored, mem_values]
  constructor
  · rintro ⟨id, hid⟩
    rw [h.keyed id e hid]
    exact hid
  · exact fun hid => ⟨_, hid⟩

theorem Shows.getById_eq (h : Shows t r) (id : String) : t.byId.lookup id = r.getById id := by
  refine Option.ext fun e => ?_
  rw [getById_eq_some, h.mem_rows]
  constructor
  · intro hid
    have hkey := h.keyed id e hid
    exact ⟨by rw [hkey, hid], hkey⟩
  · rintro ⟨hid, rfl⟩
    exact hid

theorem Shows.getByName_eq (h : Shows t r) (n : String) : t.getByName n = r.getByName n := by
  rw [getByName, ResourceTable.getByName, h.byName]
  refine Option.bind_congr fun id _ => ?_
  rw [getById, h.getById_eq]

theorem lookup_removeIf (byName : KeyMap String String) (n id m : String) :
    (removeIf byName n id).lookup m = unindex byName.lookup n id m := by
  unfold removeIf unindex
  split
  · by_cases hm : m = n
    · rw [hm, AList.lookup_erase, Function.update_self]
    · rw [AList.lookup_erase_ne hm, Function.update_of_ne hm]
  · rfl

theorem shows_insertArc (h : Shows t r) (e : ResourceEntry V) :
    Shows (t.insertArc name e) (r.insert e) where
  keyed := by
    intro id x hx
    by_cases hid : id = e.id
    · subst hid
      rw [insertArc, AList.lookup_insert] at hx
      rw [← Option.some.inj hx]
    · rw [insertArc, AList.lookup_insert_ne hid] at hx
      exact h.keyed id x hx
  rows := by
    rw [stored, insertArc, values_insert h.keyed, ← stored, h.rows]
    rfl
  byName := by
    intro n
    have hindex : r.byName = t.byName.lookup := funext fun m => (h.byName m).symm
    simp only [insertArc, ResourceTable.insert, ← h.getById_eq, hindex]
    by_cases hn : n = name e.value
    · rw [hn, AList.lookup_insert, Function.update_self]
    · rw [AList.lookup_insert_ne hn, Function.update_of_ne hn]
      cases t.byId.lookup e.id with
      | none => rfl
      | some old =>
        dsimp only
        split
        · exact lookup_removeIf ..
        · rfl
  wildcards := by
    intro id x
    simp only [insertArc]
    by_cases hid : id = e.id
    · subst hid
      rw [AList.lookup_insert]
      split
      · next hwild =>
        rw [AList.lookup_insert]
        constructor
        · rintro ⟨⟩
          exact ⟨rfl, hwild⟩
        · exact fun hx => hx.1
      · next hplain =>
        rw [AList.lookup_erase]
        constructor
        · intro hx
          cases hx
        · rintro ⟨⟨⟩, hwild⟩
          exact absurd hwild hplain
    · rw [AList.lookup_insert_ne hid, ← h.wildcards]
      split
      · rw [AList.lookup_insert_ne hid]
      · rw [AList.lookup_erase_ne hid]
  count := by
    have hinsert : (t.insertArc name e).stored.length = (values (t.byId.erase e.id)).length + 1 :=
      rfl
    rw [hinsert]
    simp only [insertArc, h.count]
    cases hget : t.byId.lookup e.id with
    | none =>
      rw [erase_of_lookup_none hget]
      rfl
    | some old =>
      have hpos := length_values_pos hget
      rw [length_values_erase hget, stored]
      simp only [Option.isSome_some, if_true]
      omega

theorem shows_remove (h : Shows t r) (id : String) : Shows (t.remove name id).1 (r.remove id) := by
  have habstract := h.getById_eq id
  unfold remove
  cases hget : t.byId.lookup id with
  | none =>
    rw [remove_of_none (by rw [← habstract, hget])]
    exact h
  | some e =>
    have hget' : r.getById id = some e := by rw [← habstract, hget]
    constructor
    · intro i x hx
      dsimp only at hx
      by_cases hid : i = id
      · rw [hid, AList.lookup_erase] at hx
        cases hx
      · rw [AList.lookup_erase_ne hid] at hx
        exact h.keyed i x hx
    · dsimp only [stored]
      rw [values_erase h.keyed, ← stored, h.rows, rows_remove]
    · intro n
      have hindex : r.byName = t.byName.lookup := funext fun m => (h.byName m).symm
      dsimp only
      rw [byName_remove hget', hindex, lookup_removeIf]
    · intro i x
      dsimp only
      by_cases hid : i = id
      · rw [hid, AList.lookup_erase, AList.lookup_erase]
        simp
      · rw [AList.lookup_erase_ne hid, AList.lookup_erase_ne hid, h.wildcards]
    · dsimp only [stored]
      rw [length_values_erase hget, h.count]
      rfl

theorem shows_step (h : Shows t r) (op : Op V) : Shows (t.step name op) (r.step op) := by
  cases op with
  | insert e => exact shows_insertArc h e
  | remove id => exact shows_remove h id

theorem shows_run (name : V → String) (ops : List (Op V)) :
    Shows (run name ops) (ResourceTable.run name ops) := by
  induction ops using List.reverseRecOn with
  | nil => exact shows_empty
  | append_singleton ops op ih =>
    rw [run, ResourceTable.run, List.foldl_concat, List.foldl_concat]
    exact shows_step ih op

end Shows

/-! ### What a table answers -/

/-- A name is found if and only if a row has it, and then in such a row; the wildcard rows are those
with a `*` in their name, each once; and the counter counts the rows. -/
structure Answers (name : V → String) (t : Indices V) : Prop where
  found_iff : ∀ n, (∃ e, t.getByName n = some e) ↔ ∃ e ∈ t.stored, name e.value = n
  name_eq : ∀ n e, t.getByName n = some e → name e.value = n
  wildcard_iff : ∀ e, e ∈ t.wildcardEntries ↔ e ∈ t.stored ∧ isWildcard (name e.value)
  wildcard_nodup : (t.wildcardEntries.map (·.id)).Nodup
  len_eq : t.len = t.stored.length

/-- An operation keeps the index complete: the row it renames or takes out is not found under its
name, or no other row has this name. -/
def Kept (name : V → String) (t : Indices V) : Op V → Prop
  | .insert entry => ∀ old, t.getById entry.id = some old → name old.value ≠ name entry.value →
      t.byName.lookup (name old.value) = some entry.id →
        ∀ e ∈ t.stored, name e.value = name old.value → e.id = entry.id
  | .remove id => ∀ old, t.getById id = some old →
      t.byName.lookup (name old.value) = some id → ∀ e ∈ t.stored, name e.value = name old.value →
        e.id = id

section Answers

variable {name : V → String} {t : Indices V} {r : ResourceTable V name}

theorem wildcardEntries_eq (t : Indices V) : t.wildcardEntries = values t.wildcards := by
  unfold wildcardEntries values
  split
  · next h => rw [List.isEmpty_iff.1 h]; rfl
  · rfl

theorem answers_iff_complete (h : Shows t r) : Answers name t ↔ r.Complete := by
  constructor
  · intro ha e he
    rw [← h.rows] at he
    obtain ⟨x, hx⟩ := (ha.found_iff _).2 ⟨e, he, rfl⟩
    rw [h.getByName_eq] at hx
    exact ⟨x.id, (getByName_eq_some.1 hx).2⟩
  · intro hc
    constructor
    · intro n
      simp only [h.getByName_eq, h.rows]
      constructor
      · rintro ⟨e, he⟩
        exact ⟨e, (getByName_eq_some.1 he).1, name_of_getByName he⟩
      · rintro ⟨e, he, rfl⟩
        obtain ⟨id, hid⟩ := hc e he
        obtain ⟨x, hx, rfl, -⟩ := r.owned _ _ hid
        exact ⟨x, getByName_eq_some.2 ⟨hx, hid⟩⟩
    · intro n e he
      rw [h.getByName_eq] at he
      exact name_of_getByName he
    · intro e
      rw [wildcardEntries_eq, mem_values, stored, mem_values]
      simp only [h.wildcards, exists_and_right]
    · have hkeyed : ∀ id e, t.wildcards.lookup id = some e → e.id = id := fun id e he =>
        h.keyed id e ((h.wildcards id e).1 he).1
      rw [wildcardEntries_eq]
      exact nodup_map_values hkeyed
    · exact h.count

theorem complete_step_iff (h : Shows t r) (hc : r.Complete) (op : Op V) :
    (r.step op).Complete ↔ Kept name t op := by
  cases op with
  | insert e =>
    rw [ResourceTable.step, complete_insert_iff hc, Kept]
    simp only [Sole, getById, h.getById_eq, h.byName, h.rows]
  | remove id =>
    rw [ResourceTable.step, complete_remove_iff hc, Kept]
    simp only [Sole, getById, h.getById_eq, h.byName, h.rows]

theorem run_concat (name : V → String) (ops : List (Op V)) (op : Op V) :
    ResourceTable.run name (ops ++ [op]) = (ResourceTable.run name ops).step op :=
  List.foldl_concat ..

/-- Every table of a run answers if and only if every operation of the run keeps the index complete.
-/
theorem run_answers_iff (name : V → String) (ops : List (Op V)) :
    (∀ done rest, ops = done ++ rest → Answers name (run name done)) ↔
      ∀ done op rest, ops = done ++ op :: rest → Kept name (run name done) op := by
  constructor
  · intro ha done op rest hops
    have hbefore := (answers_iff_complete (shows_run name done)).1 (ha done (op :: rest) hops)
    have hafter :=
      (answers_iff_complete (shows_run name (done ++ [op]))).1
        (ha (done ++ [op]) rest (by simp [hops]))
    rw [run_concat] at hafter
    exact (complete_step_iff (shows_run name done) hbefore op).1 hafter
  · intro hk done
    induction done using List.reverseRecOn with
    | nil =>
      intro rest _
      refine (answers_iff_complete (shows_run name [])).2 fun e he => ?_
      cases he
    | append_singleton done op ih =>
      intro rest hops
      have hops' : ops = done ++ op :: rest := by simp [hops]
      have hbefore := (answers_iff_complete (shows_run name done)).1 (ih (op :: rest) hops')
      refine (answers_iff_complete (shows_run name (done ++ [op]))).2 ?_
      rw [run_concat]
      exact (complete_step_iff (shows_run name done) hbefore op).2 (hk done op rest hops')

end Answers

/-- Two rows get the same name, and the one that got it last is taken out: the other is no longer
found. -/
theorem removed_owner_hides_name :
    ¬ Answers id (run id [.insert ⟨"a", "gpt", 1⟩, .insert ⟨"b", "gpt", 2⟩, .remove "b"]) := by
  intro h
  have hhidden :
      (run id [.insert ⟨"a", "gpt", 1⟩, .insert ⟨"b", "gpt", 2⟩, .remove "b"]).getByName "gpt" =
      none := by
    decide
  obtain ⟨e, he⟩ := (h.found_iff "gpt").2 ⟨⟨"a", "gpt", 1⟩, by decide, rfl⟩
  rw [hhidden] at he
  cases he

end Indices
end ResourceTable
end Aisix
