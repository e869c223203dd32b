import Aisix.Json

/-!
# Aisix.JsonSchema

What a JSON schema says of a document: a verdict, and the members and elements of the document it
has looked at.
-/

namespace Aisix
namespace JsonSchema

open Json

/-! ### Recursion over a schema -/

/-- A member's value, with what it comes to as a schema, as a map of schemas and as a list of
schemas. -/
structure Views (α : Type) where
  raw : Value
  schema : α
  entries : List (String × α)
  items : List α

section Fold

variable {α : Type} (node : List (String × Views α) → α) (leaf : Value → α)

mutual

def views : Value → Views α
  | .object fields =>
    ⟨.object fields, node (fieldViews fields), (fieldViews fields).map fun e => (e.1, e.2.schema),
      []⟩
  | .array items => ⟨.array items, leaf (.array items), [], (itemViews items).map (·.schema)⟩
  | .null => ⟨.null, leaf .null, [], []⟩
  | .bool b => ⟨.bool b, leaf (.bool b), [], []⟩
  | .number n => ⟨.number n, leaf (.number n), [], []⟩
  | .string s => ⟨.string s, leaf (.string s), [], []⟩

def itemViews : List Value → List (Views α)
  | [] => []
  | v :: vs => views v :: itemViews vs

def fieldViews : List (String × Value) → List (String × Views α)
  | [] => []
  | (k, v) :: rest => (k, views v) :: fieldViews rest

end

/-- The value a schema comes to, from what its members come to. -/
def fold (v : Value) : α := (views node leaf v).schema

end Fold

/-- The entries of a value that is a map. -/
def entriesOf {α : Type} (f : Value → α) : Value → List (String × α)
  | .object fields => fields.map fun e => (e.1, f e.2)
  | _ => []

/-- The elements of a value that is a list. -/
def itemsOf {α : Type} (f : Value → α) : Value → List α
  | .array items => items.map f
  | _ => []

def Views.of {α : Type} (f : Value → α) (v : Value) : Views α :=
  ⟨v, f v, entriesOf f v, itemsOf f v⟩

/-- An object's members, each sub-value standing for what `f` makes of it. -/
def members {α : Type} (f : Value → α) (fields : List (String × Value)) : List (String × Views α) :=
  fields.map fun e => (e.1, Views.of f e.2)

section Fold

variable {α : Type} {node : List (String × Views α) → α} {leaf : Value → α}

theorem itemViews_eq (items : List Value) :
    itemViews node leaf items = items.map (views node leaf) := by
  induction items with
  | nil => rfl
  | cons v vs ih => rw [itemViews, ih, List.map_cons]

theorem fieldViews_eq (fields : List (String × Value)) :
    fieldViews node leaf fields = fields.map fun e => (e.1, views node leaf e.2) := by
  induction fields with
  | nil => rfl
  | cons e rest ih =>
    obtain ⟨k, v⟩ := e
    rw [fieldViews, ih, List.map_cons]

theorem views_eq (v : Value) : views node leaf v = Views.of (fold node leaf) v := by
  cases v with
  | object fields =>
    have hentries :
        (views node leaf (.object fields)).entries = fields.map fun e =>
        (e.1, fold node leaf e.2) := by
      rw [views, fieldViews_eq, List.map_map]
      rfl
    have hraw : (views node leaf (.object fields)).raw = .object fields := by rw [views]
    have hitems :
        (views node leaf (.object fields)).items = itemsOf (fold node leaf) (.object fields) := by
      rw [views]
      rfl
    rw [Views.of, entriesOf, ← hentries, ← hitems]
    exact congrArg (fun raw => Views.mk raw _ _ _) hraw
  | array items =>
    have hitems : (views node leaf (.array items)).items = items.map (fold node leaf) := by
      rw [views, itemViews_eq, List.map_map]
      rfl
    have hraw : (views node leaf (.array items)).raw = .array items := by rw [views]
    have hentries :
        (views node leaf (.array items)).entries = entriesOf (fold node leaf) (.array items) := by
      rw [views]
      rfl
    rw [Views.of, itemsOf, ← hitems, ← hentries]
    exact congrArg (fun raw => Views.mk raw _ _ _) hraw
  | _ => rfl

theorem fold_object (fields : List (String × Value)) :
    fold node leaf (.object fields) = node (members (fold node leaf) fields) := by
  rw [fold, views, fieldViews_eq, members]
  refine congrArg node (List.map_congr_left fun e _ => ?_)
  rw [views_eq]

theorem fold_leaf {v : Value} (h : v.asObject? = none) : fold node leaf v = leaf v := by
  cases v with
  | object fields => cases h
  | array items => rw [fold, views]
  | _ => rfl

end Fold

/-! ### What an object's members are -/

section Members

variable {α : Type}

def isSchema : Value → Bool
  | .object _ => true
  | .bool _ => true
  | _ => false

def isArray : Value → Bool
  | .array _ => true
  | _ => false

/-- The schema under a keyword. -/
def schemaAt (ms : List (String × Views α)) (key : String) : Option α :=
  ((ms.lookup key).filter fun w => isSchema w.raw).map (·.schema)

/-- The list of schemas under a keyword. -/
def listAt (ms : List (String × Views α)) (key : String) : Option (List α) :=
  ((ms.lookup key).filter fun w => isArray w.raw).map (·.items)

/-- The map of schemas under a keyword. -/
def mapAt (ms : List (String × Views α)) (key : String) : List (String × α) :=
  (ms.lookup key).elim [] (·.entries)

def natAt (ms : List (String × Views α)) (key : String) : Option Nat :=
  (ms.lookup key).bind fun w => w.raw.asU64?

theorem lookup_members (f : Value → α) (fields : List (String × Value)) (key : String) :
    (members f fields).lookup key = (fields.lookup key).map (Views.of f) := by
  unfold members
  induction fields with
  | nil => rfl
  | cons e rest ih =>
    obtain ⟨k, v⟩ := e
    rw [List.map_cons, List.lookup_cons, List.lookup_cons, ih]
    cases key == k <;> rfl

theorem schemaAt_members (f : Value → α) (fields : List (String × Value)) (key : String) :
    schemaAt (members f fields) key = ((fields.lookup key).filter isSchema).map f := by
  rw [schemaAt, lookup_members]
  cases fields.lookup key with
  | none => rfl
  | some v => cases v <;> rfl

theorem listAt_members (f : Value → α) (fields : List (String × Value)) (key : String) :
    listAt (members f fields) key = ((fields.lookup key).filter isArray).map (itemsOf f) := by
  rw [listAt, lookup_members]
  cases fields.lookup key with
  | none => rfl
  | some v => cases v <;> rfl

theorem mapAt_members (f : Value → α) (fields : List (String × Value)) (key : String) :
    mapAt (members f fields) key = (fields.lookup key).elim [] (entriesOf f) := by
  rw [mapAt, lookup_members]
  cases fields.lookup key with
  | none => rfl
  | some v => rfl

theorem natAt_members (f : Value → α) (fields : List (String × Value)) (key : String) :
    natAt (members f fields) key = (fields.lookup key).bind Value.asU64? := by
  rw [natAt, lookup_members]
  cases fields.lookup key with
  | none => rfl
  | some v => rfl

end Members

/-! ### Meaning -/

/-- What a schema says of a document: whether it is valid, and the names and places it has looked
at. -/
@[ext] structure Outcome where
  valid : Bool
  names : String → Bool
  indices : Nat → Bool

namespace Outcome

def pass : Outcome := ⟨true, fun _ => false, fun _ => false⟩

def verdict (b : Bool) : Outcome := ⟨b, fun _ => false, fun _ => false⟩

def and (o o' : Outcome) : Outcome :=
  ⟨o.valid && o'.valid, fun n => o.names n || o'.names n, fun i => o.indices i || o'.indices i⟩

def all (os : List Outcome) : Outcome := os.foldr and pass

/-- What the valid ones have looked at counts. -/
def any (os : List Outcome) : Outcome :=
  ⟨os.any (·.valid), fun n => os.any fun o => o.valid && o.names n,
    fun i => os.any fun o => o.valid && o.indices i⟩

def one (os : List Outcome) : Outcome := (verdict (os.countP (·.valid) == 1)).and (any os)

def neg (o : Outcome) : Outcome := verdict !o.valid

def cond (o yes no : Outcome) : Outcome := if o.valid then o.and yes else no

end Outcome

abbrev Sem := Value → Outcome

def docFields : Value → List (String × Value)
  | .object fields => fields
  | _ => []

def docItems : Value → List Value
  | .array items => items
  | _ => []

/-- Every member of the document against the schemas its name selects. -/
def fieldwise (select : String → List Sem) (doc : Value) : Outcome :=
  ⟨(docFields doc).all fun e => (select e.1).all fun s => (s e.2).valid,
    fun n => ((docFields doc).map (·.1)).contains n && !(select n).isEmpty, fun _ => false⟩

/-- Every element of the document against the schemas its place selects. -/
def itemwise (select : Nat → List Sem) (doc : Value) : Outcome :=
  ⟨(docItems doc).zipIdx.all fun e => (select e.2).all fun s => (s e.1).valid, fun _ => false,
    fun i => decide (i < (docItems doc).length) && !(select i).isEmpty⟩

/-- The elements that match count, and are looked at. -/
def counted (least : Nat) (most : Option Nat) (s : Sem) : Sem
  | .array items =>
    ⟨decide (least ≤ items.countP fun v => (s v).valid) &&
      most.all fun m => decide (items.countP (fun v => (s v).valid) ≤ m), fun _ => false,
      fun i => items[i]?.any fun v => (s v).valid⟩
  | _ => .pass

/-- The keywords that are read together with others, or that say nothing of a document. -/
def structural : List String :=
  ["allOf", "anyOf", "oneOf", "not", "if", "then", "else", "dependentSchemas", "properties",
    "patternProperties", "additionalProperties", "propertyNames", "prefixItems", "items",
    "contains", "minContains", "maxContains", "unevaluatedProperties", "unevaluatedItems", "$ref",
    "$defs", "definitions", "description"]

/-- The keywords that stand for themselves, and what a pattern matches. -/
structure Vocabulary where
  asserts : String → Value → Value → Bool
  hits : String → String → Bool

/-- A schema object, its subschemas read. -/
structure Parts where
  asserted : Value → Bool
  ref : Option String
  allOf : List Sem
  anyOf : Option (List Sem)
  oneOf : Option (List Sem)
  negated : Option Sem
  test : Option Sem
  consequence : Option Sem
  alternative : Option Sem
  dependentSchemas : List (String × Sem)
  properties : List (String × Sem)
  patternProperties : List (String × Sem)
  additionalProperties : Option Sem
  propertyNames : Option Sem
  prefixItems : List Sem
  tuple : List Sem
  items : Option Sem
  contains : Option Sem
  minContains : Nat
  maxContains : Option Nat
  unevaluatedProperties : Option Sem
  unevaluatedItems : Option Sem

section Meaning

variable (V : Vocabulary) (resolve : String → Sem)

def parts (ms : List (String × Views Sem)) : Parts where
  asserted doc := ms.all fun e => structural.contains e.1 || V.asserts e.1 e.2.raw doc
  ref := (ms.lookup "$ref").bind fun w => w.raw.asStr?
  allOf := (listAt ms "allOf").getD []
  anyOf := listAt ms "anyOf"
  oneOf := listAt ms "oneOf"
  negated := schemaAt ms "not"
  test := schemaAt ms "if"
  consequence := schemaAt ms "then"
  alternative := schemaAt ms "else"
  dependentSchemas := mapAt ms "dependentSchemas"
  properties := mapAt ms "properties"
  patternProperties := mapAt ms "patternProperties"
  additionalProperties := schemaAt ms "additionalProperties"
  propertyNames := schemaAt ms "propertyNames"
  prefixItems := (listAt ms "prefixItems").getD []
  tuple := (listAt ms "items").getD []
  items := schemaAt ms "items"
  contains := schemaAt ms "contains"
  minContains := (natAt ms "minContains").getD 1
  maxContains := natAt ms "maxContains"
  unevaluatedProperties := schemaAt ms "unevaluatedProperties"
  unevaluatedItems := schemaAt ms "unevaluatedItems"

namespace Parts

/-- The schemas of which some are to be met. -/
def chosen (p : Parts) (doc : Value) : Outcome :=
  Outcome.and (p.anyOf.elim .pass fun ss => .any (ss.map (· doc)))
    (p.oneOf.elim .pass fun ss => .one (ss.map (· doc)))

/-- The schemas that look at the document itself. -/
def inPlace (p : Parts) (doc : Value) : Outcome :=
  .all [.all (p.ref.toList.map fun r => resolve r doc), .all (p.allOf.map (· doc)), p.chosen doc,
    p.negated.elim .pass fun s => (s doc).neg,
    p.test.elim .pass fun s => (s doc).cond (p.consequence.elim .pass (· doc))
      (p.alternative.elim .pass (· doc)),
    .all ((p.dependentSchemas.filter fun e => ((docFields doc).map (·.1)).contains e.1).map
      fun e => e.2 doc)]

/-- The schemas that name a member. -/
def named (p : Parts) (n : String) : List Sem :=
  (p.properties.lookup n).toList ++ (p.patternProperties.filter fun e => V.hits e.1 n).map (·.2)

/-- The schemas a member's value has to meet. -/
def member (p : Parts) (n : String) : List Sem :=
  p.named V n ++ if (p.named V n).isEmpty then p.additionalProperties.toList else []

/-- The schemas an element has to meet. -/
def element (p : Parts) (i : Nat) : List Sem :=
  p.prefixItems[i]?.toList ++ p.tuple[i]?.toList ++
    if p.prefixItems.length ≤ i then p.items.toList else []

/-- The schemas that look at the document's members and elements. -/
def children (p : Parts) (doc : Value) : Outcome :=
  .all [fieldwise (p.member V) doc,
    .verdict ((docFields doc).all fun e => p.propertyNames.all fun s => (s (.string e.1)).valid),
    itemwise p.element doc, p.contains.elim .pass fun s =>
      counted p.minContains p.maxContains s doc]

def looked (p : Parts) (doc : Value) : Outcome :=
  .all [.verdict (p.asserted doc), p.inPlace resolve doc, p.children V doc]

/-- What nothing has looked at is left to the `unevaluated` keywords. -/
def outcome (p : Parts) : Sem := fun doc =>
  let o := p.looked V resolve doc
  .all [o, fieldwise (fun n => if o.names n then [] else p.unevaluatedProperties.toList) doc,
    itemwise (fun i => if o.indices i then [] else p.unevaluatedItems.toList) doc]

end Parts

theorem asserted_members (f : Value → Sem) (fields : List (String × Value)) (doc : Value) :
    (parts V (members f fields)).asserted doc =
      fields.all fun e => structural.contains e.1 || V.asserts e.1 e.2 doc := by
  unfold parts members
  dsimp only
  rw [List.all_map]
  rfl

/-- A schema that is no object. -/
def plainSchema : Value → Sem
  | .bool b => fun _ => .verdict b
  | _ => fun _ => .pass

def denote : Value → Sem := fold (fun ms => (parts V ms).outcome V resolve) plainSchema

theorem denote_object (fields : List (String × Value)) :
    denote V resolve (.object fields) =
      (parts V (members (denote V resolve) fields)).outcome V resolve :=
  fold_object fields

end Meaning

/-- The least length of a string, and no other keyword. -/
def lengths : Vocabulary where
  asserts key bound doc :=
    match key, bound, doc with
    | "minLength", .number (.posInt n), .string s => decide (n.toNat ≤ s.length)
    | _, _, _ => true
  hits _ _ := false

end JsonSchema
end Aisix
