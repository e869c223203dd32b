import Mathlib.Data.List.Basic

/-!
# Aisix.Json

JSON values, and the reads and writes of one member of an object.
-/

namespace Aisix
namespace Json

/-- A number as `serde_json` holds it: an unsigned or a negative integer of 64 bits, or a float. -/
inductive Number where
  | posInt (n : UInt64)
  | negInt (n : Int64)
  | float (bits : UInt64)
  deriving DecidableEq, Repr

inductive Value where
  | null
  | bool (b : Bool)
  | number (n : Number)
  | string (s : String)
  | array (items : List Value)
  | object (fields : List (String × Value))

namespace Value

def asStr? : Value → Option String
  | .string s => some s
  | _ => none

def asU64? : Value → Option Nat
  | .number (.posInt n) => some n.toNat
  | _ => none

def asObject? : Value → Option (List (String × Value))
  | .object fields => some fields
  | _ => none

def get (v : Value) (key : String) : Option Value :=
  match v with
  | .object fields => fields.lookup key
  | _ => none

/-- Changes the member `key`, when there is one. -/
def modifyField (key : String) (f : Value → Value) : List (String × Value) → List (String × Value)
  | [] => []
  | (k, v) :: rest => if k = key then (k, f v) :: rest else (k, v) :: modifyField key f rest

def modify (key : String) (f : Value → Value) : Value → Value
  | .object fields => .object (modifyField key f fields)
  | v => v

theorem get_modify (key : String) (f : Value → Value) (v : Value) :
    (v.modify key f).get key = (v.get key).map f := by
  cases v with
  | object fields =>
    simp only [modify, get]
    induction fields with
    | nil => rfl
    | cons e rest ih =>
      obtain ⟨k, v⟩ := e
      by_cases hk : k = key
      · simp [modifyField, hk]
      · have hne : (key == k) = false := by simpa using fun h => hk h.symm
        simp only [modifyField, if_neg hk, List.lookup_cons, hne, ih]
  | _ => rfl

theorem lookup_modifyField (key : String) (f : Value → Value) (fields : List (String × Value)) :
    (modifyField key f fields).lookup key = (fields.lookup key).map f :=
  get_modify key f (.object fields)

theorem lookup_modifyField_of_ne {key key' : String} (h : key' ≠ key) (f : Value → Value)
    (fields : List (String × Value)) :
    (modifyField key f fields).lookup key' = fields.lookup key' := by
  induction fields with
  | nil => rfl
  | cons e rest ih =>
    obtain ⟨k, v⟩ := e
    by_cases hk : k = key
    · subst hk
      have hne : (key' == k) = false := beq_eq_false_iff_ne.mpr h
      rw [modifyField, if_pos rfl, List.lookup_cons, List.lookup_cons, hne]
    · rw [modifyField, if_neg hk, List.lookup_cons, List.lookup_cons, ih]

theorem lookup_filter (p : String → Bool) (fields : List (String × Value)) (key : String) :
    (fields.filter fun e => p e.1).lookup key = if p key then fields.lookup key else none := by
  induction fields with
  | nil => split <;> rfl
  | cons e rest ih =>
    obtain ⟨k, v⟩ := e
    rw [List.filter_cons, List.lookup_cons]
    by_cases hk : key = k
    · subst hk
      cases hp : p key with
      | true => simp
      | false =>
        rw [if_neg Bool.false_ne_true, ih, hp]
        rfl
    · rw [beq_eq_false_iff_ne.mpr hk]
      cases hp : p k with
      | true => rw [if_pos rfl, List.lookup_cons, beq_eq_false_iff_ne.mpr hk, ih]
      | false => rw [if_neg Bool.false_ne_true, ih]

theorem modifyField_of_fixed {key : String} {f : Value → Value} {fields : List (String × Value)}
    (h : ∀ v, fields.lookup key = some v → f v = v) : modifyField key f fields = fields := by
  induction fields with
  | nil => rfl
  | cons e rest ih =>
    obtain ⟨k, v⟩ := e
    by_cases hk : k = key
    · subst hk
      rw [modifyField, if_pos rfl, h v List.lookup_cons_self]
    · have hne : (key == k) = false := beq_eq_false_iff_ne.mpr (Ne.symm hk)
      rw [List.lookup_cons, hne] at h
      rw [modifyField, if_neg hk, ih h]

theorem map_fst_modifyField (key : String) (f : Value → Value) (fields : List (String × Value)) :
    (modifyField key f fields).map Prod.fst = fields.map Prod.fst := by
  induction fields with
  | nil => rfl
  | cons e rest ih =>
    obtain ⟨k, v⟩ := e
    by_cases hk : k = key
    · rw [modifyField, if_pos hk, List.map_cons, List.map_cons]
    · rw [modifyField, if_neg hk, List.map_cons, List.map_cons, ih]

theorem modify_modify (key : String) (f g : Value → Value) (v : Value) :
    (v.modify key f).modify key g = v.modify key fun w => g (f w) := by
  cases v with
  | object fields =>
    rw [modify, modify, modify]
    refine congrArg Value.object ?_
    induction fields with
    | nil => rfl
    | cons e rest ih =>
      obtain ⟨k, w⟩ := e
      by_cases hk : k = key
      · rw [modifyField, if_pos hk, modifyField, if_pos hk, modifyField, if_pos hk]
      · rw [modifyField, if_neg hk, modifyField, if_neg hk, modifyField, if_neg hk, ih]
  | _ => rfl

theorem modify_congr {key : String} {f g : Value → Value} {v : Value}
    (h : ∀ w, v.get key = some w → f w = g w) : v.modify key f = v.modify key g := by
  cases v with
  | object fields =>
    rw [modify, modify]
    rw [get] at h
    refine congrArg Value.object ?_
    induction fields with
    | nil => rfl
    | cons e rest ih =>
      obtain ⟨k, w⟩ := e
      by_cases hk : k = key
      · subst hk
        rw [modifyField, if_pos rfl, modifyField, if_pos rfl, h w List.lookup_cons_self]
      · have hne : (key == k) = false := beq_eq_false_iff_ne.mpr (Ne.symm hk)
        rw [List.lookup_cons, hne] at h
        rw [modifyField, if_neg hk, modifyField, if_neg hk, ih h]
  | _ => rfl

theorem get_modify_of_ne {key key' : String} (h : key' ≠ key) (f : Value → Value) (v : Value) :
    (v.modify key f).get key' = v.get key' := by
  cases v with
  | object fields => exact lookup_modifyField_of_ne h f fields
  | _ => rfl

/-- Changes every member, told its key. -/
def mapFields (f : String → Value → Value) : Value → Value
  | .object fields => .object (fields.map fun e => (e.1, f e.1 e.2))
  | v => v

theorem get_mapFields (f : String → Value → Value) (v : Value) (key : String) :
    (v.mapFields f).get key = (v.get key).map (f key) := by
  cases v with
  | object fields =>
    simp only [mapFields, get]
    induction fields with
    | nil => rfl
    | cons e rest ih =>
      obtain ⟨k, v⟩ := e
      by_cases hk : key = k
      · simp [hk]
      · have hne : (key == k) = false := by simpa using hk
        simp only [List.map_cons, List.lookup_cons, hne, ih]
  | _ => rfl

end Value

/-- The members of an object but for those named `key`. -/
def remove (key : String) (fields : List (String × Value)) : List (String × Value) :=
  fields.filter fun e => e.1 != key

theorem lookup_remove (key key' : String) (fields : List (String × Value)) :
    (remove key fields).lookup key' = if key' = key then none else fields.lookup key' := by
  rw [remove, Value.lookup_filter (· != key)]
  by_cases h : key' = key
  · rw [if_pos h, if_neg (by simp [h])]
  · rw [if_neg h, if_pos (by simpa using h)]

@[simp] theorem lookup_remove_self (key : String) (fields : List (String × Value)) :
    (remove key fields).lookup key = none := by
  rw [lookup_remove, if_pos rfl]

theorem lookup_remove_of_ne {key key' : String} (h : key' ≠ key) (fields : List (String × Value)) :
    (remove key fields).lookup key' = fields.lookup key' := by
  rw [lookup_remove, if_neg h]

theorem remove_of_lookup_none {key : String} {fields : List (String × Value)}
    (h : fields.lookup key = none) : remove key fields = fields :=
  List.filter_eq_self.mpr fun e he => by
    have hne := List.lookup_eq_none_iff.mp h e he
    rwa [bne_comm]

theorem mem_remove {key : String} {fields : List (String × Value)} {e : String × Value}
    (h : e ∈ remove key fields) : e ∈ fields := List.mem_of_mem_filter h

def strField (v : Value) (key : String) : Option String := (v.get key).bind Value.asStr?

/-- The items of a member, none when it is no array. -/
def arrayField (v : Value) (key : String) : List Value :=
  match v.get key with
  | some (.array items) => items
  | _ => []

/-- How values are written as text, and which texts stand for which values. -/
structure Text where
  print : Value → String
  Reads : String → Value → Prop
  reads_print : ∀ v, Reads (print v) v
  print_empty : print (.object []) = "\x7b\x7d"

/-- Two texts of one value. -/
def Text.Same (J : Text) (t t' : String) : Prop := ∃ v, J.Reads t v ∧ J.Reads t' v

theorem Text.same_print (J : Text) (v : Value) : J.Same (J.print v) (J.print v) :=
  ⟨v, J.reads_print v, J.reads_print v⟩

end Json
end Aisix
