import Aisix.Mcp.Name
import Aisix.StructuredOutput.Narrow

/-!
# Aisix.StructuredOutput.InlineRefs

References to a schema's own definitions are replaced by the definitions, under a budget: all of
them or none.
-/

namespace Aisix
namespace StructuredOutput

open Json JsonSchema

def MAX_REF_DEPTH : Nat := 8

def MAX_REF_EXPANSIONS : Nat := 2000

def MAX_REF_BYTES : Nat := 4 * 1024 * 1024

structure RefBudget where
  expansions : Nat
  bytes : Nat

abbrev Definitions := List (String × Value)

/-- The key of the definition a pointer names. -/
def internalRefName (reference : String) : Option String :=
  (Mcp.stripPrefix ['#', '/'] reference.toList).bind fun path =>
    (Mcp.splitOnce ['/'] path).bind fun parts =>
      if (parts.1 = "$defs".toList ∨ parts.1 = "definitions".toList) ∧ parts.2 ≠ [] ∧
        '/' ∉ parts.2 then
        some (String.ofList path)
      else none

section Substitute

variable (F : FloatText) (defs : Definitions)

/-- The length of each definition's text. -/
def sizes (name : String) : Nat :=
  ((defs.lookup name).map fun v => (String.ofList (text F v)).utf8ByteSize).getD 0

def RefBudget.charge (budget : RefBudget) (name : String) : Option RefBudget :=
  if 1 ≤ budget.expansions then
    if sizes F defs name ≤ budget.bytes then
      some ⟨budget.expansions - 1, budget.bytes - sizes F defs name⟩
    else none
  else none

/-- The definition an object with a `$ref` stands for, with its key. -/
def definitionOf (reference : String) : Option (String × Value) :=
  (internalRefName reference).bind fun name => (defs.lookup name).map (name, ·)

section Walk

-- What is done with a definition that is to be spliced in; nothing at the greatest depth.
variable (expand : Option (Value → RefBudget → Option (Value × RefBudget)))

mutual

/-- `substitute_refs` at one depth; `none` when the budget ran out. -/
def substituteAt : Value → RefBudget → Option (Value × RefBudget)
  | .array items, budget => (substituteItems items budget).map fun r => (.array r.1, r.2)
  | .object fields, budget =>
    match strField (.object fields) "$ref" with
    | some reference =>
      match definitionOf defs reference, expand with
      | some (name, definition), some expand => (budget.charge F defs name).bind (expand definition)
      | _, _ => some (.object fields, budget)
    | none => (substituteFields fields budget).map fun r => (.object r.1, r.2)
  | .null, budget => some (.null, budget)
  | .bool b, budget => some (.bool b, budget)
  | .number n, budget => some (.number n, budget)
  | .string s, budget => some (.string s, budget)

def substituteItems : List Value → RefBudget → Option (List Value × RefBudget)
  | [], budget => some ([], budget)
  | v :: vs, budget =>
    (substituteAt v budget).bind fun r => (substituteItems vs r.2).map fun rs => (r.1 :: rs.1, rs.2)

def substituteFields :
    List (String × Value) → RefBudget → Option (List (String × Value) × RefBudget)
  | [], budget => some ([], budget)
  | (k, v) :: rest, budget =>
    (substituteAt v budget).bind fun r => (substituteFields rest r.2).map fun rs =>
      ((k, r.1) :: rs.1, rs.2)

end

end Walk

/-- `substitute_refs` with so many depths left. -/
def substituteRefs : Nat → Value → RefBudget → Option (Value × RefBudget)
  | 0 => substituteAt F defs none
  | left + 1 => substituteAt F defs (some (substituteRefs left))

end Substitute

/-- The definitions of one block, by the pointer that reaches each. -/
def definitionsOf (block : String) (schema : Value) : Definitions :=
  match schema.get block with
  | some (.object entries) => entries.map fun e => (block ++ "/" ++ e.1, e.2)
  | _ => []

def allDefinitions (schema : Value) : Definitions :=
  definitionsOf "$defs" schema ++ definitionsOf "definitions" schema

def withoutBlocks : Value → Value
  | .object fields => .object (remove "definitions" (remove "$defs" fields))
  | v => v

def inlineInternalRefs (F : FloatText) (schema : Value) : Value :=
  let defs := allDefinitions schema
  if defs.isEmpty then schema
  else
    match substituteRefs F defs MAX_REF_DEPTH schema ⟨MAX_REF_EXPANSIONS, MAX_REF_BYTES⟩ with
    | some working => withoutBlocks working.1
    | none => schema

/-- Narrow `schema` to what `limits` says the provider accepts. -/
def applySchemaLimits (F : FloatText) (schema : Value) (limits : SchemaLimits) : Value :=
  narrowSchemaNode F limits
    (if limits.inlineInternalRefs then inlineInternalRefs F schema else schema)

/-! ### The blocks of definitions -/

theorem lookup_withoutBlocks {fields : List (String × Value)} {key : String} (h : key ≠ "$defs")
    (h' : key ≠ "definitions") :
    (remove "definitions" (remove "$defs" fields)).lookup key = fields.lookup key := by
  rw [lookup_remove, if_neg h', lookup_remove, if_neg h]

theorem allDefinitions_withoutBlocks (schema : Value) :
    allDefinitions (withoutBlocks schema) = [] := by
  cases schema with
  | object fields =>
    unfold allDefinitions definitionsOf withoutBlocks Value.get
    dsimp only
    rw [lookup_remove, if_neg (by decide), lookup_remove, if_pos rfl, lookup_remove, if_pos rfl]
    rfl
  | _ => rfl

theorem denote_withoutBlocks (V : Vocabulary) (resolve : String → Sem) (schema : Value) :
    denote V resolve (withoutBlocks schema) = denote V resolve schema := by
  cases schema with
  | object fields =>
    rw [withoutBlocks, denote_object, denote_object]
    refine congrArg (Parts.outcome V resolve) ?_
    have hlookup : ∀ key, key ≠ "$defs" → key ≠ "definitions" →
        (members (denote V resolve) (remove "definitions" (remove "$defs" fields))).lookup key =
          (members (denote V resolve) fields).lookup key := by
      intro key hdefs hdefinitions
      rw [lookup_members, lookup_members, lookup_withoutBlocks hdefs hdefinitions]
    have hall : ∀ {p : String × Value → Bool} {key : String} (fs : List (String × Value)),
        (∀ v, p (key, v) = true) → (remove key fs).all p = fs.all p := by
      intro p key fs hp
      unfold remove
      induction fs with
      | nil => rfl
      | cons e rest ih =>
        obtain ⟨k, v⟩ := e
        by_cases hk : k = key
        · subst hk
          rw [List.filter_cons_of_neg (by simp), List.all_cons, hp, Bool.true_and, ih]
        · rw [List.filter_cons_of_pos (by simpa using hk), List.all_cons, List.all_cons, ih]
    have hasserted :
        (parts V
          (members (denote V resolve) (remove "definitions" (remove "$defs" fields)))).asserted =
        (parts V (members (denote V resolve) fields)).asserted := by
      funext doc
      rw [asserted_members, asserted_members, hall _ fun _ => rfl, hall _ fun _ => rfl]
    unfold parts at hasserted ⊢
    dsimp only at hasserted
    rw [hasserted]
    simp (disch := decide) only [schemaAt, listAt, mapAt, natAt, hlookup]
  | _ => rfl

/-! ### What is spliced in, and what that takes -/

/-- A result, with the definitions spliced in on the way and their bytes. -/
structure Expansion (α : Type) where
  value : α
  expansions : Nat
  bytes : Nat

/-- What a budget is left with when it pays for an expansion. -/
def RefBudget.pay {α : Type} (budget : RefBudget) (r : Expansion α) : Option (α × RefBudget) :=
  if r.expansions ≤ budget.expansions ∧ r.bytes ≤ budget.bytes then
    some (r.value, ⟨budget.expansions - r.expansions, budget.bytes - r.bytes⟩)
  else none

section Expand

variable (F : FloatText) (defs : Definitions)

section Walk

variable (expand : Option (Value → Expansion Value))

mutual

def expandAt : Value → Expansion Value
  | .array items =>
    let r := expandItems items
    ⟨.array r.value, r.expansions, r.bytes⟩
  | .object fields =>
    match strField (.object fields) "$ref" with
    | some reference =>
      match definitionOf defs reference, expand with
      | some (name, definition), some expand =>
        let r := expand definition
        ⟨r.value, 1 + r.expansions, sizes F defs name + r.bytes⟩
      | _, _ => ⟨.object fields, 0, 0⟩
    | none =>
      let r := expandFields fields
      ⟨.object r.value, r.expansions, r.bytes⟩
  | .null => ⟨.null, 0, 0⟩
  | .bool b => ⟨.bool b, 0, 0⟩
  | .number n => ⟨.number n, 0, 0⟩
  | .string s => ⟨.string s, 0, 0⟩

def expandItems : List Value → Expansion (List Value)
  | [] => ⟨[], 0, 0⟩
  | v :: vs =>
    let r := expandAt v
    let rs := expandItems vs
    ⟨r.value :: rs.value, r.expansions + rs.expansions, r.bytes + rs.bytes⟩

def expandFields : List (String × Value) → Expansion (List (String × Value))
  | [] => ⟨[], 0, 0⟩
  | (k, v) :: rest =>
    let r := expandAt v
    let rs := expandFields rest
    ⟨(k, r.value) :: rs.value, r.expansions + rs.expansions, r.bytes + rs.bytes⟩

end

end Walk

/-- Every reference to a definition replaced, so many deep. -/
def expandRefs : Nat → Value → Expansion Value
  | 0 => expandAt F defs none
  | left + 1 => expandAt F defs (some (expandRefs left))

theorem pay_map {α β : Type} (budget : RefBudget) (f : α → β) (r : Expansion α) :
    (budget.pay r).map (fun x => (f x.1, x.2)) = budget.pay ⟨f r.value, r.expansions, r.bytes⟩ := by
  unfold RefBudget.pay
  split <;> rfl

theorem pay_bind {α β γ : Type} (budget : RefBudget) (f : α → β → γ) (r : Expansion α)
    (rs : Expansion β) :
    ((budget.pay r).bind fun x => (x.2.pay rs).map fun xs => (f x.1 xs.1, xs.2)) =
      budget.pay ⟨f r.value rs.value, r.expansions + rs.expansions, r.bytes + rs.bytes⟩ := by
  unfold RefBudget.pay
  by_cases h : r.expansions ≤ budget.expansions ∧ r.bytes ≤ budget.bytes
  · rw [if_pos h, Option.bind_some]
    dsimp only
    by_cases h' : rs.expansions ≤ budget.expansions - r.expansions ∧
      rs.bytes ≤ budget.bytes - r.bytes
    · rw [if_pos h', if_pos (by omega), Option.map_some, Nat.sub_sub, Nat.sub_sub]
    · rw [if_neg h', if_neg (by omega)]
      rfl
  · rw [if_neg h, if_neg (by dsimp only; omega)]
    rfl

theorem charge_bind {α : Type} (budget : RefBudget) (name : String) (r : Expansion α) :
    ((budget.charge F defs name).bind fun rest => rest.pay r) =
      budget.pay ⟨r.value, 1 + r.expansions, sizes F defs name + r.bytes⟩ := by
  unfold RefBudget.charge
  split
  · split
    · rw [Option.bind_some]
      unfold RefBudget.pay
      dsimp only
      by_cases h : r.expansions ≤ budget.expansions - 1 ∧ r.bytes ≤ budget.bytes - sizes F defs name
      · rw [if_pos h, if_pos (by omega), Nat.sub_sub, Nat.sub_sub]
      · rw [if_neg h, if_neg (by omega)]
    · unfold RefBudget.pay
      rw [if_neg (by dsimp only; omega)]
      rfl
  · unfold RefBudget.pay
    rw [if_neg (by dsimp only; omega)]
    rfl

theorem pay_free {α : Type} (budget : RefBudget) (a : α) :
    budget.pay ⟨a, 0, 0⟩ = some (a, budget) := by
  unfold RefBudget.pay
  rw [if_pos ⟨Nat.zero_le _, Nat.zero_le _⟩]
  rfl

section Walk

variable {run : Option (Value → RefBudget → Option (Value × RefBudget))}
    {expand : Option (Value → Expansion Value)}

/-- The two ways of following a reference agree. -/
def Follows (run : Option (Value → RefBudget → Option (Value × RefBudget)))
    (expand : Option (Value → Expansion Value)) :
    Prop :=
  Option.Rel (fun f g => ∀ v budget, f v budget = RefBudget.pay budget (g v)) run expand

mutual

theorem substituteAt_eq (h : Follows run expand) : ∀ (v : Value) (budget : RefBudget),
    substituteAt F defs run v budget = budget.pay (expandAt F defs expand v)
  | .array items, budget => by
    rw [substituteAt, expandAt, substituteItems_eq h items budget]
    exact pay_map budget Value.array _
  | .object fields, budget => by
    rw [substituteAt, expandAt]
    cases strField (.object fields) "$ref" with
    | none =>
      dsimp only
      rw [substituteFields_eq h fields budget]
      exact pay_map budget Value.object _
    | some reference =>
      dsimp only
      cases definitionOf defs reference with
      | none => exact (pay_free budget _).symm
      | some found =>
        obtain ⟨name, definition⟩ := found
        cases h with
        | none => exact (pay_free budget _).symm
        | some hsame =>
          dsimp only
          rw [← charge_bind]
          exact congrArg _ (funext fun rest => hsame definition rest)
  | .null, budget => (pay_free budget _).symm
  | .bool b, budget => (pay_free budget _).symm
  | .number n, budget => (pay_free budget _).symm
  | .string s, budget => (pay_free budget _).symm

theorem substituteItems_eq (h : Follows run expand) : ∀ (items : List Value) (budget : RefBudget),
    substituteItems F defs run items budget = budget.pay (expandItems F defs expand items)
  | [], budget => (pay_free budget _).symm
  | v :: vs, budget => by
    rw [substituteItems, expandItems, substituteAt_eq h v budget, ← pay_bind]
    exact congrArg _ (funext fun r => by rw [substituteItems_eq h vs r.2])

theorem substituteFields_eq (h : Follows run expand) :
    ∀ (fields : List (String × Value)) (budget : RefBudget),
    substituteFields F defs run fields budget = budget.pay (expandFields F defs expand fields)
  | [], budget => (pay_free budget _).symm
  | (k, v) :: rest, budget => by
    rw [substituteFields, expandFields, substituteAt_eq h v budget]
    refine Eq.trans ?_ (pay_bind budget (fun x xs => (k, x) :: xs) _ _)
    exact congrArg _ (funext fun r => by rw [substituteFields_eq h rest r.2])

end

end Walk

theorem substituteRefs_eq (left : Nat) (v : Value) (budget : RefBudget) :
    substituteRefs F defs left v budget = budget.pay (expandRefs F defs left v) := by
  induction left generalizing v budget with
  | zero => exact substituteAt_eq F defs .none v budget
  | succ left ih => exact substituteAt_eq F defs (.some ih) v budget

end Expand

/-! ### Values without references -/

mutual

/-- No object in the value, at any place, has a string under `$ref`. -/
def NoRefs : Value → Prop
  | .array items => itemsNoRefs items
  | .object fields => strField (.object fields) "$ref" = none ∧ fieldsNoRefs fields
  | .null => True
  | .bool _ => True
  | .number _ => True
  | .string _ => True

def itemsNoRefs : List Value → Prop
  | [] => True
  | v :: vs => NoRefs v ∧ itemsNoRefs vs

def fieldsNoRefs : List (String × Value) → Prop
  | [] => True
  | (_, v) :: rest => NoRefs v ∧ fieldsNoRefs rest

end

section NoRefs

variable (F : FloatText) (defs : Definitions) (expand : Option (Value → Expansion Value))

mutual

theorem expandAt_of_noRefs : ∀ v : Value, NoRefs v → expandAt F defs expand v = ⟨v, 0, 0⟩
  | .array items, h => by
    rw [NoRefs] at h
    rw [expandAt, expandItems_of_noRefs items h]
  | .object fields, h => by
    rw [NoRefs] at h
    rw [expandAt, h.1, expandFields_of_noRefs fields h.2]
  | .null, _ => rfl
  | .bool _, _ => rfl
  | .number _, _ => rfl
  | .string _, _ => rfl

theorem expandItems_of_noRefs : ∀ items : List Value,
    itemsNoRefs items → expandItems F defs expand items = ⟨items, 0, 0⟩
  | [], _ => rfl
  | v :: vs, h => by
    rw [itemsNoRefs] at h
    rw [expandItems, expandAt_of_noRefs v h.1, expandItems_of_noRefs vs h.2]
    rfl

theorem expandFields_of_noRefs : ∀ fields : List (String × Value), fieldsNoRefs fields →
    expandFields F defs expand fields = ⟨fields, 0, 0⟩
  | [], _ => rfl
  | (k, v) :: rest, h => by
    rw [fieldsNoRefs] at h
    rw [expandFields, expandAt_of_noRefs v h.1, expandFields_of_noRefs rest h.2]
    rfl

end

end NoRefs

theorem expandRefs_of_noRefs (F : FloatText) (defs : Definitions) (left : Nat) {v : Value}
    (h : NoRefs v) : expandRefs F defs left v = ⟨v, 0, 0⟩ := by
  cases left with
  | zero => exact expandAt_of_noRefs F defs none v h
  | succ left => exact expandAt_of_noRefs F defs _ v h

theorem inlineInternalRefs_eq (F : FloatText) (schema : Value) :
    inlineInternalRefs F schema =
      let r := expandRefs F (allDefinitions schema) MAX_REF_DEPTH schema
      if (allDefinitions schema).isEmpty ∨
        ¬ (r.expansions ≤ MAX_REF_EXPANSIONS ∧ r.bytes ≤ MAX_REF_BYTES) then schema
      else withoutBlocks r.value := by
  unfold inlineInternalRefs
  dsimp only
  by_cases hempty : (allDefinitions schema).isEmpty = true
  · rw [if_pos hempty, if_pos (.inl hempty)]
  · rw [if_neg hempty, substituteRefs_eq, RefBudget.pay]
    by_cases hpaid : (expandRefs F (allDefinitions schema) MAX_REF_DEPTH schema).expansions ≤
      MAX_REF_EXPANSIONS ∧
        (expandRefs F (allDefinitions schema) MAX_REF_DEPTH schema).bytes ≤ MAX_REF_BYTES
    · rw [if_pos hpaid, if_neg fun hor => hor.elim hempty fun hnot => hnot hpaid]
    · rw [if_neg hpaid, if_pos (.inr hpaid)]

/-- A schema without references loses its blocks of definitions and nothing else. -/
theorem inlineInternalRefs_of_noRefs (F : FloatText) {schema : Value} (h : NoRefs schema) :
    inlineInternalRefs F schema =
      if (allDefinitions schema).isEmpty then schema else withoutBlocks schema := by
  rw [inlineInternalRefs_eq, expandRefs_of_noRefs F _ _ h]
  dsimp only
  by_cases hempty : (allDefinitions schema).isEmpty = true
  · rw [if_pos hempty, if_pos (.inl hempty)]
  · rw [if_neg hempty, if_neg fun hor => hor.elim hempty fun hnot => hnot
      ⟨Nat.zero_le _, Nat.zero_le _⟩]

end StructuredOutput
end Aisix
