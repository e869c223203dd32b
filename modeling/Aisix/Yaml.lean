import Mathlib.Data.List.Basic
import Mathlib.Data.Int.Basic

/-!
# Aisix.Yaml

YAML values: mappings that keep the order their members were inserted in, and tags that every access
looks through.
-/

namespace Aisix

namespace Yaml

inductive Number where
  | int (n : Int)
  | float (bits : UInt64)
  deriving DecidableEq

inductive Value where
  | null
  | bool (b : Bool)
  | number (n : Number)
  | string (s : String)
  | sequence (items : List Value)
  | mapping (entries : List (Value × Value))
  | tagged (tag : String) (value : Value)

abbrev Entries := List (Value × Value)

/-- The value is the text `name`. -/
def Value.isText (name : String) : Value → Bool
  | .string s => s = name
  | _ => false

namespace Entries

def lookup (name : String) : Entries → Option Value
  | [] => none
  | e :: es => if e.1.isText name then some e.2 else lookup name es

/-- A member that is there keeps its place, a new one comes last. -/
def insert (name : String) (v : Value) : Entries → Entries
  | [] => [(.string name, v)]
  | e :: es => if e.1.isText name then (e.1, v) :: es else e :: insert name v es

@[simp] theorem lookup_insert (name : String) (v : Value) (es : Entries) :
    lookup name (insert name v es) = some v := by
  induction es with
  | nil => exact if_pos (decide_eq_true rfl)
  | cons e es ih =>
    rw [insert]
    split
    · next h => rw [lookup, if_pos h]
    · next h => rw [lookup, if_neg h, ih]

/-- The other members, in their order. -/
def others (name : String) (es : Entries) : Entries := es.filter fun e => !e.1.isText name

end Entries

namespace Value

def untag : Value → Value
  | .tagged _ v => v.untag
  | .null => .null
  | .bool b => .bool b
  | .number n => .number n
  | .string s => .string s
  | .sequence items => .sequence items
  | .mapping entries => .mapping entries

def asMapping (v : Value) : Option Entries :=
  match v.untag with
  | .mapping entries => some entries
  | _ => none

def asSequence (v : Value) : Option (List Value) :=
  match v.untag with
  | .sequence items => some items
  | _ => none

def asStr (v : Value) : Option String :=
  match v.untag with
  | .string s => some s
  | _ => none

def asI64 (v : Value) : Option Int64 :=
  match v.untag with
  | .number (.int n) =>
    if -9223372036854775808 ≤ n ∧ n < 9223372036854775808 then some (Int64.ofInt n) else none
  | _ => none

def ofI64 (n : Int64) : Value := .number (.int n.toInt)

def get (v : Value) (name : String) : Option Value := v.asMapping.bind (Entries.lookup name)

end Value
end Yaml
end Aisix
