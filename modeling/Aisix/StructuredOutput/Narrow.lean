import Aisix.JsonSchema
import Aisix.JsonText
import Aisix.SortedMap
import Mathlib.Data.String.Basic
import Mathlib.Logic.Relation

/-!
# Aisix.StructuredOutput.Narrow

The schema a provider's decoder is given: keywords it rejects are removed, node by node, at every
place that holds a schema.
-/

namespace Aisix
namespace StructuredOutput

open Json JsonSchema

structure SchemaLimits where
  notedConstraints : List String
  droppedKeywords : List String
  allowedMinItems : Option (List Nat)
  relaxOneOf : Bool
  inlineInternalRefs : Bool

def ANTHROPIC_SCHEMA_LIMITS : SchemaLimits where
  notedConstraints :=
    ["minimum", "maximum", "exclusiveMinimum", "exclusiveMaximum", "multipleOf", "minLength",
      "maxLength", "maxItems", "uniqueItems"]
  droppedKeywords := []
  allowedMinItems := some [0, 1]
  relaxOneOf := true
  inlineInternalRefs := false

def GEMINI_OPENAPI_SCHEMA_LIMITS : SchemaLimits where
  notedConstraints := ["exclusiveMinimum", "exclusiveMaximum", "multipleOf", "uniqueItems"]
  droppedKeywords :=
    ["additionalProperties", "allOf", "not", "if", "then", "else", "const", "contains",
      "patternProperties", "prefixItems", "propertyNames", "dependentSchemas", "dependentRequired",
      "unevaluatedProperties", "unevaluatedItems", "readOnly", "writeOnly", "deprecated",
      "contentEncoding", "contentMediaType", "$schema", "$id", "$comment", "$anchor"]
  allowedMinItems := none
  relaxOneOf := true
  inlineInternalRefs := true

/-! ### The places that hold schemas -/

def SCHEMA_MAPS : List String :=
  ["properties", "patternProperties", "dependentSchemas", "$defs", "definitions"]

def SCHEMA_LISTS : List String := ["anyOf", "oneOf", "allOf", "prefixItems"]

def SCHEMA_VALUES : List String :=
  ["items", "not", "if", "then", "else", "contains", "propertyNames", "additionalProperties",
    "unevaluatedProperties", "unevaluatedItems"]

/-- The schemas `for_each_subschema` visits in the member `key`. -/
def visitedIn (key : String) : Value → List Value
  | .object entries =>
    if SCHEMA_MAPS.contains key then entries.map (·.2)
    else if SCHEMA_VALUES.contains key then [.object entries]
    else []
  | .array items => if SCHEMA_LISTS.contains key || SCHEMA_VALUES.contains key then items else []
  | _ => []

/-- What the visits leave of the member `key`. -/
def visited (key : String) (w : Views Value) : Value :=
  match w.raw with
  | .object _ =>
    if SCHEMA_MAPS.contains key then .object w.entries
    else if SCHEMA_VALUES.contains key then w.schema
    else w.raw
  | .array _ =>
    if SCHEMA_LISTS.contains key || SCHEMA_VALUES.contains key then .array w.items else w.raw
  | _ => w.raw

def forEachSubschema (visit : Value → Value) (fields : List (String × Value)) :
    List (String × Value) :=
  (members visit fields).map fun e => (e.1, visited e.1 e.2)

/-- `w` stands where a schema is visited in `v` itself. -/
def Below (v w : Value) : Prop := ∃ fields, v = .object fields ∧ ∃ e ∈ fields, w ∈ visitedIn e.1 e.2

/-- `w` is at a place of the schema `v` that holds a schema. -/
def Position : Value → Value → Prop := Relation.ReflTransGen Below

/-! ### One node -/

section Node

variable (F : FloatText) (limits : SchemaLimits)

def renderConstraint : Value → String
  | .string s => s
  | other => String.ofList (text F other)

/-- Removes the constraints, in the order given, with a note of each. -/
def noteConstraints : List String → List (String × Value) → List String × List (String × Value)
  | [], fields => ([], fields)
  | key :: keys, fields =>
    match fields.lookup key with
    | some value =>
      let rest := noteConstraints keys (remove key fields)
      ((key ++ ": " ++ renderConstraint F value) :: rest.1, rest.2)
    | none => noteConstraints keys fields

def minItemsOutOfRange (fields : List (String × Value)) : Bool :=
  limits.allowedMinItems.any fun allowed =>
    ((fields.lookup "minItems").bind Value.asU64?).any fun v => !allowed.contains v

def noteMinItems (fields : List (String × Value)) : List String × List (String × Value) :=
  if minItemsOutOfRange limits fields then
    match fields.lookup "minItems" with
    | some value => (["minItems: " ++ renderConstraint F value], remove "minItems" fields)
    | none => ([], fields)
  else ([], fields)

def describe (notes : List String) (fields : List (String × Value)) : List (String × Value) :=
  if notes.isEmpty then fields
  else
    let note := String.intercalate ", " notes
    let merged :=
      match (fields.lookup "description").bind Value.asStr? with
      | some existing => if existing = "" then note else existing ++ " (" ++ note ++ ")"
      | none => note
    SortedMap.insertEntry "description" (.string merged) fields

def dropKeywords (fields : List (String × Value)) : List (String × Value) :=
  limits.droppedKeywords.foldl (fun fields key => remove key fields) fields

def relaxed (fields : List (String × Value)) : List (String × Value) :=
  if limits.relaxOneOf then
    match fields.lookup "oneOf" with
    | some branches =>
      let rest := remove "oneOf" fields
      if (rest.lookup "anyOf").isSome then rest else SortedMap.insertEntry "anyOf" branches rest
    | none => fields
  else fields

/-- What `narrow_schema_node` does to the members of the node itself. -/
def limited (fields : List (String × Value)) : List (String × Value) :=
  let noted := noteConstraints F limits.notedConstraints fields
  let bounded := noteMinItems F limits noted.2
  relaxed limits (dropKeywords limits (describe (noted.1 ++ bounded.1) bounded.2))

/-- The subschemas are narrowed first, which `narrowSchemaNode_object` puts in the order of the
source. -/
def narrowSchemaNode : Value → Value :=
  fold (fun ms => .object (limited F limits (ms.map fun e => (e.1, visited e.1 e.2)))) id

end Node

/-! ### Visits -/

theorem lookup_map_entries {f : String → Value → Value} (fields : List (String × Value))
    (key : String) :
    (fields.map fun e => (e.1, f e.1 e.2)).lookup key = (fields.lookup key).map (f key) :=
  Value.get_mapFields f (.object fields) key

theorem forEachSubschema_eq (visit : Value → Value) (fields : List (String × Value)) :
    forEachSubschema visit fields = fields.map fun e =>
      (e.1, visited e.1 (Views.of visit e.2)) := by
  rw [forEachSubschema, members, List.map_map]
  rfl

theorem lookup_forEachSubschema (visit : Value → Value) (fields : List (String × Value))
    (key : String) :
    (forEachSubschema visit fields).lookup key = (fields.lookup key).map fun v => visited key
    (Views.of visit v) := by
  rw [forEachSubschema_eq]
  exact lookup_map_entries (f := fun key v => visited key (Views.of visit v)) fields key

theorem visited_congr {key : String} {f g : Value → Value} {v : Value}
    (h : ∀ w ∈ visitedIn key v, f w = g w) :
    visited key (Views.of f v) = visited key (Views.of g v) := by
  unfold visitedIn at h
  unfold visited Views.of entriesOf itemsOf
  cases v with
  | object entries =>
    dsimp only at h ⊢
    by_cases hmap : SCHEMA_MAPS.contains key = true
    · rw [if_pos hmap] at h
      rw [if_pos hmap, if_pos hmap,
        List.map_congr_left fun e he => by rw [h e.2 (List.mem_map_of_mem he)]]
    · rw [if_neg hmap] at h
      rw [if_neg hmap, if_neg hmap]
      by_cases hvalue : SCHEMA_VALUES.contains key = true
      · rw [if_pos hvalue] at h
        rw [if_pos hvalue, if_pos hvalue, h _ (List.mem_singleton_self _)]
      · rw [if_neg hvalue, if_neg hvalue]
  | array items =>
    dsimp only at h ⊢
    by_cases hlist : (SCHEMA_LISTS.contains key || SCHEMA_VALUES.contains key) = true
    · rw [if_pos hlist] at h
      rw [if_pos hlist, if_pos hlist, List.map_congr_left h]
    · rw [if_neg hlist, if_neg hlist]
  | _ => rfl

theorem forEachSubschema_congr {f g : Value → Value} {fields : List (String × Value)}
    (h : ∀ e ∈ fields, ∀ w ∈ visitedIn e.1 e.2, f w = g w) :
    forEachSubschema f fields = forEachSubschema g fields := by
  rw [forEachSubschema_eq, forEachSubschema_eq]
  exact List.map_congr_left fun e he => by rw [visited_congr (h e he)]

theorem visited_visited {key : String} {f g : Value → Value} {v : Value}
    (hobject : ∀ fields, ∃ fields', f (.object fields) = .object fields') :
    visited key (Views.of g (visited key (Views.of f v))) =
      visited key (Views.of (fun w => g (f w)) v) := by
  unfold visited Views.of entriesOf itemsOf
  cases v with
  | object entries =>
    dsimp only
    by_cases hmap : SCHEMA_MAPS.contains key = true
    · rw [if_pos hmap, if_pos hmap]
      dsimp only
      rw [if_pos hmap, List.map_map]
      rfl
    · rw [if_neg hmap, if_neg hmap]
      by_cases hvalue : SCHEMA_VALUES.contains key = true
      · obtain ⟨fields', hfields'⟩ := hobject entries
        rw [if_pos hvalue, if_pos hvalue, hfields']
        dsimp only
        rw [if_neg hmap, if_pos hvalue]
      · rw [if_neg hvalue, if_neg hvalue]
        dsimp only
        rw [if_neg hmap, if_neg hvalue]
  | array items =>
    dsimp only
    by_cases hlist : (SCHEMA_LISTS.contains key || SCHEMA_VALUES.contains key) = true
    · rw [if_pos hlist, if_pos hlist]
      dsimp only
      rw [if_pos hlist, List.map_map]
      rfl
    · rw [if_neg hlist, if_neg hlist]
      dsimp only
      rw [if_neg hlist]
  | _ => rfl

def isWalked (key : String) : Bool :=
  SCHEMA_MAPS.contains key || SCHEMA_LISTS.contains key || SCHEMA_VALUES.contains key

theorem visited_of_not_isWalked {key : String} (h : isWalked key = false) (f : Value → Value)
    (v : Value) : visited key (Views.of f v) = v := by
  obtain ⟨hrest, hvalue⟩ := Bool.or_eq_false_iff.mp h
  obtain ⟨hmap, hlist⟩ := Bool.or_eq_false_iff.mp hrest
  unfold visited Views.of
  cases v with
  | object entries =>
    dsimp only
    rw [hmap, hvalue, if_neg nofun, if_neg nofun]
  | array items =>
    dsimp only
    rw [hlist, hvalue, Bool.or_false, if_neg nofun]
  | _ => rfl

theorem visited_anyOf (f : Value → Value) (v : Value) :
    visited "anyOf" (Views.of f v) = visited "oneOf" (Views.of f v) := by
  cases v <;> rfl

/-! ### The members of a node after its own step -/

theorem mem_of_lookup {key : String} {v : Value} {fields : List (String × Value)}
    (h : fields.lookup key = some v) :
    (key, v) ∈ fields := by
  obtain ⟨before, after, rfl, -⟩ := List.lookup_eq_some_iff.mp h
  exact List.mem_append_right _ List.mem_cons_self

theorem remove_forEachSubschema (key : String) (f : Value → Value)
    (fields : List (String × Value)) :
    remove key (forEachSubschema f fields) = forEachSubschema f (remove key fields) := by
  rw [forEachSubschema_eq, forEachSubschema_eq, remove, List.filter_map]
  rfl

theorem insertEntry_forEachSubschema {key : String} {v w : Value} (f : Value → Value)
    (fields : List (String × Value)) (h : visited key (Views.of f v) = w) :
    SortedMap.insertEntry key w (forEachSubschema f fields) =
      forEachSubschema f (SortedMap.insertEntry key v fields) := by
  rw [forEachSubschema_eq, forEachSubschema_eq]
  induction fields with
  | nil =>
    rw [← h]
    rfl
  | cons e rest ih =>
    obtain ⟨k, x⟩ := e
    rw [List.map_cons, SortedMap.insertEntry, SortedMap.insertEntry, ih]
    split
    · rw [← h, List.map_cons, List.map_cons]
    · split
      · rw [← h, List.map_cons]
      · rw [List.map_cons]

section Node

variable (F : FloatText) {limits : SchemaLimits}

theorem noteConstraints_forEachSubschema (f : Value → Value) {keys : List String}
    (h : ∀ key ∈ keys, isWalked key = false) (fields : List (String × Value)) :
    noteConstraints F keys (forEachSubschema f fields) =
      ((noteConstraints F keys fields).1,
      forEachSubschema f (noteConstraints F keys fields).2) := by
  induction keys generalizing fields with
  | nil => rfl
  | cons key keys ih =>
    obtain ⟨hkey, hkeys⟩ := List.forall_mem_cons.mp h
    rw [noteConstraints, noteConstraints, lookup_forEachSubschema]
    cases fields.lookup key with
    | none => exact ih hkeys fields
    | some v =>
      dsimp only [Option.map_some]
      rw [remove_forEachSubschema, ih hkeys, visited_of_not_isWalked hkey]

/-- The keywords of the limits are read at the node itself, and the members that stay carry on. -/
structure Sound (limits : SchemaLimits) : Prop where
  noted : ∀ key ∈ limits.notedConstraints, structural.contains key = false
  minItems : "minItems" ∉ limits.notedConstraints ++ limits.droppedKeywords
  kept : ∀ key ∈ ["anyOf", "oneOf", "description", "properties", "items", "$ref"],
    key ∉ limits.droppedKeywords
  relaxes : limits.relaxOneOf = true

theorem sound_anthropic : Sound ANTHROPIC_SCHEMA_LIMITS := ⟨by decide, by decide, by decide, rfl⟩

theorem sound_gemini : Sound GEMINI_OPENAPI_SCHEMA_LIMITS := ⟨by decide, by decide, by decide, rfl⟩

theorem isWalked_of_not_structural {key : String} (h : structural.contains key = false) :
    isWalked key = false := by
  have hplain : ∀ l : List String, l ⊆ structural → l.contains key = false := by
    intro l hl
    refine Bool.eq_false_iff.mpr fun hmem => ?_
    rw [List.contains_iff_mem.mpr (hl (List.contains_iff_mem.mp hmem))] at h
    cases h
  rw [isWalked, hplain SCHEMA_MAPS (by decide), hplain SCHEMA_LISTS (by decide),
    hplain SCHEMA_VALUES (by decide)]
  rfl

theorem lookup_forEachSubschema_of_not_isWalked {key : String} (h : isWalked key = false)
    (f : Value → Value) (fields : List (String × Value)) :
    (forEachSubschema f fields).lookup key = fields.lookup key := by
  rw [lookup_forEachSubschema]
  cases fields.lookup key with
  | none => rfl
  | some v => rw [Option.map_some, visited_of_not_isWalked h]

theorem noteMinItems_forEachSubschema (f : Value → Value) (fields : List (String × Value)) :
    noteMinItems F limits (forEachSubschema f fields) =
      ((noteMinItems F limits fields).1, forEachSubschema f (noteMinItems F limits fields).2) := by
  have hlookup : (forEachSubschema f fields).lookup "minItems" = fields.lookup "minItems" :=
    lookup_forEachSubschema_of_not_isWalked (by decide) f fields
  unfold noteMinItems minItemsOutOfRange
  rw [hlookup]
  split
  · cases fields.lookup "minItems" with
    | none => rfl
    | some v =>
      dsimp only
      rw [remove_forEachSubschema]
  · rfl

theorem describe_forEachSubschema (f : Value → Value) (notes : List String)
    (fields : List (String × Value)) :
    describe notes (forEachSubschema f fields) = forEachSubschema f (describe notes fields) := by
  have hlookup : (forEachSubschema f fields).lookup "description" = fields.lookup "description" :=
    lookup_forEachSubschema_of_not_isWalked (by decide) f fields
  unfold describe
  rw [hlookup]
  split
  · rfl
  · exact insertEntry_forEachSubschema f fields rfl

theorem dropKeywords_forEachSubschema (f : Value → Value) (fields : List (String × Value)) :
    dropKeywords limits (forEachSubschema f fields) =
      forEachSubschema f (dropKeywords limits fields) := by
  unfold dropKeywords
  induction limits.droppedKeywords generalizing fields with
  | nil => rfl
  | cons key keys ih => rw [List.foldl_cons, List.foldl_cons, remove_forEachSubschema, ih]

theorem relaxed_forEachSubschema (f : Value → Value) (fields : List (String × Value)) :
    relaxed limits (forEachSubschema f fields) = forEachSubschema f (relaxed limits fields) := by
  unfold relaxed
  rw [lookup_forEachSubschema]
  split
  · cases fields.lookup "oneOf" with
    | none => rfl
    | some branches =>
      dsimp only [Option.map_some]
      rw [remove_forEachSubschema, lookup_forEachSubschema, Option.isSome_map]
      split
      · rfl
      · exact insertEntry_forEachSubschema f _ (visited_anyOf f branches)
  · rfl

theorem limited_forEachSubschema (h : Sound limits) (f : Value → Value)
    (fields : List (String × Value)) :
    limited F limits (forEachSubschema f fields) =
      forEachSubschema f (limited F limits fields) := by
  unfold limited
  dsimp only
  rw [noteConstraints_forEachSubschema F f fun key hkey => isWalked_of_not_structural
    (h.noted key hkey)]
  dsimp only
  rw [noteMinItems_forEachSubschema, describe_forEachSubschema, dropKeywords_forEachSubschema,
    relaxed_forEachSubschema]

theorem narrowSchemaNode_object (h : Sound limits) (fields : List (String × Value)) :
    narrowSchemaNode F limits (.object fields) =
      .object (forEachSubschema (narrowSchemaNode F limits) (limited F limits fields)) := by
  rw [← limited_forEachSubschema F h]
  exact fold_object fields

theorem narrowSchemaNode_leaf {v : Value} (h : v.asObject? = none) :
    narrowSchemaNode F limits v = v := fold_leaf h

/-! ### What is left of a node -/

theorem dropKeywords_eq (fields : List (String × Value)) :
    dropKeywords limits fields = fields.filter fun e => !limits.droppedKeywords.contains e.1 := by
  unfold dropKeywords
  induction limits.droppedKeywords generalizing fields with
  | nil => exact (List.filter_eq_self.mpr fun _ _ => rfl).symm
  | cons key keys ih =>
    rw [List.foldl_cons, ih, remove, List.filter_filter]
    refine List.filter_congr fun e _ => ?_
    rw [List.contains_cons, Bool.not_or, Bool.and_comm]
    rfl

theorem noteConstraints_snd (keys : List String) (fields : List (String × Value)) :
    (noteConstraints F keys fields).2 = fields.filter fun e => !keys.contains e.1 := by
  induction keys generalizing fields with
  | nil => exact (List.filter_eq_self.mpr fun _ _ => rfl).symm
  | cons key keys ih =>
    have hremove : (remove key fields).filter (fun e => !keys.contains e.1) =
        fields.filter fun e => !(key :: keys).contains e.1 := by
      rw [remove, List.filter_filter]
      refine List.filter_congr fun e _ => ?_
      rw [List.contains_cons, Bool.not_or, Bool.and_comm]
      rfl
    rw [noteConstraints]
    cases hlookup : fields.lookup key with
    | none => rw [ih, ← hremove, remove_of_lookup_none hlookup]
    | some v =>
      dsimp only
      rw [ih, hremove]

theorem noteConstraints_fst {keys : List String} {fields : List (String × Value)}
    (h : ∀ key ∈ keys, fields.lookup key = none) : (noteConstraints F keys fields).1 = [] := by
  induction keys with
  | nil => rfl
  | cons key keys ih =>
    obtain ⟨hkey, hkeys⟩ := List.forall_mem_cons.mp h
    rw [noteConstraints, hkey]
    exact ih hkeys

/-- A keyword that no node has after its own step. -/
def isRemoved (limits : SchemaLimits) (key : String) : Bool :=
  limits.notedConstraints.contains key || limits.droppedKeywords.contains key

/-- Nothing is to be removed at the node. -/
structure Settled (limits : SchemaLimits) (fields : List (String × Value)) : Prop where
  removed : ∀ key, isRemoved limits key = true → fields.lookup key = none
  minItems : minItemsOutOfRange limits fields = false
  oneOf : fields.lookup "oneOf" = none

theorem lookup_noteMinItems {key : String} (h : key ≠ "minItems") (fields : List (String × Value)) :
    (noteMinItems F limits fields).2.lookup key = fields.lookup key := by
  unfold noteMinItems
  split
  · cases fields.lookup "minItems" with
    | none => rfl
    | some v =>
      dsimp only
      rw [lookup_remove, if_neg h]
  · rfl

theorem lookup_describe {key : String} (h : key ≠ "description") (notes : List String)
    (fields : List (String × Value)) :
    (describe notes fields).lookup key = fields.lookup key := by
  unfold describe
  split
  · rfl
  · dsimp only
    rw [SortedMap.lookup_insertEntry, if_neg h]

theorem lookup_relaxed {key : String} (h : key ≠ "oneOf") (h' : key ≠ "anyOf")
    (fields : List (String × Value)) :
    (relaxed limits fields).lookup key = fields.lookup key := by
  unfold relaxed
  split
  · cases fields.lookup "oneOf" with
    | none => rfl
    | some branches =>
      dsimp only
      split
      · rw [lookup_remove, if_neg h]
      · rw [SortedMap.lookup_insertEntry, if_neg h', lookup_remove, if_neg h]
  · rfl

theorem lookup_relaxed_anyOf (h : limits.relaxOneOf = true) (fields : List (String × Value)) :
    (relaxed limits fields).lookup "anyOf" = (fields.lookup "anyOf").or
    (fields.lookup "oneOf") := by
  unfold relaxed
  rw [if_pos h]
  cases hone : fields.lookup "oneOf" with
  | none => rw [Option.or_none]
  | some branches =>
    have hother : (remove "oneOf" fields).lookup "anyOf" = fields.lookup "anyOf" := by
      rw [lookup_remove, if_neg (by decide)]
    dsimp only
    cases hany : fields.lookup "anyOf" with
    | none =>
      rw [if_neg (by rw [hother, hany]; nofun), SortedMap.lookup_insertEntry,
        if_pos rfl, Option.none_or]
    | some _ => rw [if_pos (by rw [hother, hany]; rfl), hother, hany, Option.some_or]

theorem lookup_relaxed_oneOf (h : limits.relaxOneOf = true) (fields : List (String × Value)) :
    (relaxed limits fields).lookup "oneOf" = none := by
  unfold relaxed
  rw [if_pos h]
  cases hone : fields.lookup "oneOf" with
  | none => exact hone
  | some branches =>
    dsimp only
    split
    · rw [lookup_remove, if_pos rfl]
    · rw [SortedMap.lookup_insertEntry, if_neg (by decide), lookup_remove, if_pos rfl]

/-- Before `oneOf` is seen to, a member that is neither a count nor a description is there or
removed. -/
theorem lookup_unrelaxed {key : String} (h : key ≠ "minItems") (h' : key ≠ "description")
    (fields : List (String × Value)) :
    (dropKeywords limits (describe ((noteConstraints F limits.notedConstraints fields).1 ++
        (noteMinItems F limits (noteConstraints F limits.notedConstraints fields).2).1)
      (noteMinItems F limits (noteConstraints F limits.notedConstraints fields).2).2)).lookup key =
      if isRemoved limits key then none else fields.lookup key := by
  rw [dropKeywords_eq, Value.lookup_filter (! limits.droppedKeywords.contains ·),
    lookup_describe h', lookup_noteMinItems F h, noteConstraints_snd,
    Value.lookup_filter (! limits.notedConstraints.contains ·), isRemoved]
  cases limits.droppedKeywords.contains key <;> cases limits.notedConstraints.contains key <;> rfl

theorem lookup_limited {key : String} (h : key ∉ ["minItems", "description", "oneOf", "anyOf"])
    (fields : List (String × Value)) :
    (limited F limits fields).lookup key =
    if isRemoved limits key then none else fields.lookup key := by
  simp only [List.mem_cons, List.not_mem_nil, or_false, not_or] at h
  obtain ⟨hmin, hdescription, hone, hany⟩ := h
  unfold limited
  dsimp only
  rw [lookup_relaxed hone hany, lookup_unrelaxed F hmin hdescription]

theorem Sound.not_isRemoved (h : Sound limits) {key : String}
    (hstructural : structural.contains key = true)
    (hkept : key ∈ ["anyOf", "oneOf", "description", "properties", "items", "$ref"]) :
    isRemoved limits key = false := by
  refine Bool.or_eq_false_iff.mpr ⟨Bool.eq_false_iff.mpr fun hmem => ?_,
    Bool.eq_false_iff.mpr fun hmem => ?_⟩
  · rw [h.noted key (List.contains_iff_mem.mp hmem)] at hstructural
    cases hstructural
  · exact h.kept key hkept (List.contains_iff_mem.mp hmem)

theorem lookup_limited_anyOf (h : Sound limits) (fields : List (String × Value)) :
    (limited F limits fields).lookup "anyOf" = (fields.lookup "anyOf").or
    (fields.lookup "oneOf") := by
  unfold limited
  dsimp only
  rw [lookup_relaxed_anyOf h.relaxes, lookup_unrelaxed F (by decide) (by decide),
    lookup_unrelaxed F (by decide) (by decide), h.not_isRemoved (by decide) (by decide),
    h.not_isRemoved (by decide) (by decide)]
  rfl

theorem lookup_limited_oneOf (h : Sound limits) (fields : List (String × Value)) :
    (limited F limits fields).lookup "oneOf" = none := by
  unfold limited
  exact lookup_relaxed_oneOf h.relaxes _

theorem minItems_noteMinItems (fields : List (String × Value)) :
    minItemsOutOfRange limits (noteMinItems F limits fields).2 = false := by
  unfold noteMinItems
  split
  · next hout =>
    cases hlookup : fields.lookup "minItems" with
    | none =>
      unfold minItemsOutOfRange at hout
      rw [hlookup] at hout
      cases hallowed : limits.allowedMinItems <;> rw [hallowed] at hout <;> cases hout
    | some v =>
      unfold minItemsOutOfRange
      dsimp only
      rw [lookup_remove, if_pos rfl]
      cases limits.allowedMinItems <;> rfl
  · next hin => exact Bool.eq_false_iff.mpr hin

theorem settled_limited (h : Sound limits) (fields : List (String × Value)) :
    Settled limits (limited F limits fields) := by
  refine ⟨fun key hkey => ?_, ?_, lookup_limited_oneOf F h fields⟩
  · have hother : key ∉ ["minItems", "description", "oneOf", "anyOf"] := by
      intro hmem
      simp only [List.mem_cons, List.not_mem_nil, or_false] at hmem
      rcases hmem with rfl | hmem
      · refine h.minItems (List.mem_append.mpr ?_)
        exact ((Bool.or_eq_true _ _).mp hkey).imp List.contains_iff_mem.mp List.contains_iff_mem.mp
      · have hkept : isRemoved limits key = false := by
          rcases hmem with rfl | rfl | rfl <;> exact h.not_isRemoved (by decide) (by decide)
        rw [hkept] at hkey
        cases hkey
    rw [lookup_limited F hother, hkey, if_pos rfl]
  · have hmin : ∀ fields' : List (String × Value), (limited F limits fields).lookup "minItems" =
        fields'.lookup "minItems" → minItemsOutOfRange limits fields' = false →
        minItemsOutOfRange limits (limited F limits fields) = false := by
      intro fields' heq hfalse
      unfold minItemsOutOfRange at hfalse ⊢
      rw [heq]
      exact hfalse
    refine hmin (noteMinItems F limits (noteConstraints F limits.notedConstraints fields).2).2 ?_
      (minItems_noteMinItems F _)
    have hdropped : (!limits.droppedKeywords.contains "minItems") = true := by
      simpa using fun hmem => h.minItems (List.mem_append_right _ hmem)
    unfold limited
    dsimp only
    rw [lookup_relaxed (by decide) (by decide), dropKeywords_eq,
      Value.lookup_filter (! limits.droppedKeywords.contains ·), hdropped, if_pos rfl,
      lookup_describe (by decide)]

theorem limited_of_settled {fields : List (String × Value)} (h : Settled limits fields) :
    limited F limits fields = fields := by
  have hnoted : ∀ key ∈ limits.notedConstraints, fields.lookup key = none := fun key hkey =>
    h.removed key ((Bool.or_eq_true _ _).mpr (.inl (List.contains_iff_mem.mpr hkey)))
  have hself : noteConstraints F limits.notedConstraints fields = ([], fields) := by
    refine Prod.ext (noteConstraints_fst F hnoted) ?_
    rw [noteConstraints_snd]
    refine List.filter_eq_self.mpr fun e he => ?_
    simpa using fun hmem => by simpa using List.lookup_eq_none_iff.mp (hnoted e.1 hmem) e he
  have hmin : noteMinItems F limits fields = ([], fields) := by
    unfold noteMinItems
    rw [h.minItems]
    rfl
  have hdrop : dropKeywords limits fields = fields := by
    rw [dropKeywords_eq]
    refine List.filter_eq_self.mpr fun e he => ?_
    have hremoved := h.removed e.1
    simpa using fun hmem => by
      simpa using List.lookup_eq_none_iff.mp
        (hremoved ((Bool.or_eq_true _ _).mpr (.inr (List.contains_iff_mem.mpr hmem)))) e he
  have hrelaxed : relaxed limits fields = fields := by
    unfold relaxed
    rw [h.oneOf]
    split <;> rfl
  unfold limited
  dsimp only
  rw [hself]
  dsimp only
  rw [hmin]
  exact (congrArg (relaxed limits) hdrop).trans hrelaxed

theorem settled_forEachSubschema (f : Value → Value) {fields : List (String × Value)}
    (h : Settled limits fields) : Settled limits (forEachSubschema f fields) := by
  refine ⟨fun key hkey => ?_, ?_, ?_⟩
  · rw [lookup_forEachSubschema, h.removed key hkey]
    rfl
  · have hmin := h.minItems
    unfold minItemsOutOfRange at hmin ⊢
    rwa [lookup_forEachSubschema_of_not_isWalked (by decide)]
  · rw [lookup_forEachSubschema, h.oneOf]
    rfl

/-! ### All nodes -/

theorem mem_limited {fields : List (String × Value)} {e : String × Value}
    (h : e ∈ limited F limits fields) :
    e ∈ fields ∨ (∃ s, e = ("description", .string s)) ∨ e.1 = "anyOf" ∧
      ("oneOf", e.2) ∈ fields := by
  unfold limited at h
  dsimp only at h
  have hnoted :
      ∀ e' ∈ (noteMinItems F limits (noteConstraints F limits.notedConstraints fields).2).2,
      e' ∈ fields := by
    intro e' he'
    have hmem : e' ∈ (noteConstraints F limits.notedConstraints fields).2 := by
      unfold noteMinItems at he'
      split at he'
      · split at he'
        · exact mem_remove he'
        · exact he'
      · exact he'
    rw [noteConstraints_snd] at hmem
    exact List.mem_of_mem_filter hmem
  have hdropped : ∀ {notes : List String} {fs : List (String × Value)} {e' : String × Value},
      (∀ x ∈ fs, x ∈ fields) → e' ∈ dropKeywords limits (describe notes fs) → e' ∈ fields ∨
      ∃ s, e' = ("description", .string s) := by
    intro notes fs e' hfs he'
    rw [dropKeywords_eq] at he'
    have hmem := List.mem_of_mem_filter he'
    unfold describe at hmem
    split at hmem
    · exact .inl (hfs e' hmem)
    · rcases SortedMap.mem_insertEntry hmem with heq | hmem
      · exact .inr ⟨_, heq⟩
      · exact .inl (hfs e' hmem)
  unfold relaxed at h
  split at h
  · split at h
    · next branches hone =>
      have hbranches := hdropped hnoted (mem_of_lookup hone)
      have hin : ("oneOf", branches) ∈ fields := hbranches.resolve_right fun ⟨s, heq⟩ =>
        absurd (Prod.mk.inj heq).1 (by decide)
      dsimp only at h
      split at h
      · exact (hdropped hnoted (mem_remove h)).imp id .inl
      · rcases SortedMap.mem_insertEntry h with rfl | h
        · exact .inr (.inr ⟨rfl, hin⟩)
        · exact (hdropped hnoted (mem_remove h)).imp id .inl
    · exact (hdropped hnoted h).imp id .inl
  · exact (hdropped hnoted h).imp id .inl

theorem visitedIn_limited {fields : List (String × Value)} {e : String × Value} {w : Value}
    (he : e ∈ limited F limits fields) (hw : w ∈ visitedIn e.1 e.2) :
    ∃ e' ∈ fields, w ∈ visitedIn e'.1 e'.2 := by
  rcases mem_limited F he with he | ⟨s, rfl⟩ | ⟨hkey, he⟩
  · exact ⟨e, he, hw⟩
  · cases hw
  · refine ⟨("oneOf", e.2), he, ?_⟩
    rw [hkey] at hw
    obtain ⟨k, v⟩ := e
    cases v with
    | array items => exact hw
    | _ => cases hw

theorem sizeOf_visitedIn {key : String} {v w : Value} (h : w ∈ visitedIn key v) :
    sizeOf w ≤ sizeOf v := by
  unfold visitedIn at h
  split at h
  · next entries =>
    split at h
    · obtain ⟨e, he, rfl⟩ := List.mem_map.mp h
      have hentry := List.sizeOf_lt_of_mem he
      have hvalue : sizeOf e.2 < sizeOf e := by
        obtain ⟨k, x⟩ := e
        simp
      simp only [Value.object.sizeOf_spec]
      omega
    · split at h
      · rw [List.mem_singleton.mp h]
      · cases h
  · split at h
    · have hitem := List.sizeOf_lt_of_mem h
      simp only [Value.array.sizeOf_spec]
      omega
    · cases h
  · cases h

theorem schema_induction {P : Value → Prop}
    (hobject : ∀ fields, (∀ e ∈ fields, ∀ w ∈ visitedIn e.1 e.2, P w) → P (.object fields))
    (hleaf : ∀ v : Value, v.asObject? = none → P v) (v : Value) : P v := by
  induction hn : sizeOf v using Nat.strong_induction_on generalizing v with
  | _ n ih =>
    cases v with
    | object fields =>
      refine hobject fields fun e he w hw => ih (sizeOf w) ?_ w rfl
      have hvalue := sizeOf_visitedIn hw
      have hmember := List.sizeOf_lt_of_mem he
      obtain ⟨k, x⟩ := e
      simp only [Prod.mk.sizeOf_spec] at hmember
      simp only [Value.object.sizeOf_spec] at hn
      dsimp only at hvalue
      omega
    | _ => exact hleaf _ rfl

theorem narrowSchemaNode_isObject (h : Sound limits) (fields : List (String × Value)) :
    ∃ fields', narrowSchemaNode F limits (.object fields) = .object fields' :=
  ⟨_, narrowSchemaNode_object F h fields⟩

theorem narrowSchemaNode_idem (h : Sound limits) (v : Value) :
    narrowSchemaNode F limits (narrowSchemaNode F limits v) = narrowSchemaNode F limits v := by
  induction v using schema_induction with
  | hobject fields ih =>
    have hsettled :=
      settled_forEachSubschema (narrowSchemaNode F limits) (settled_limited F h fields)
    have htwice : forEachSubschema (narrowSchemaNode F limits)
        (forEachSubschema (narrowSchemaNode F limits) (limited F limits fields)) =
          forEachSubschema (fun w => narrowSchemaNode F limits (narrowSchemaNode F limits w))
            (limited F limits fields) := by
      rw [forEachSubschema_eq, forEachSubschema_eq, forEachSubschema_eq, List.map_map]
      exact List.map_congr_left fun e _ => congrArg (Prod.mk e.1)
        (visited_visited (narrowSchemaNode_isObject F h))
    rw [narrowSchemaNode_object F h, narrowSchemaNode_object F h,
      limited_of_settled F hsettled, htwice]
    refine congrArg Value.object (forEachSubschema_congr fun e he w hw => ?_)
    obtain ⟨e', he', hw'⟩ := visitedIn_limited F he hw
    exact ih e' he' w hw'
  | hleaf v hv => rw [narrowSchemaNode_leaf F hv, narrowSchemaNode_leaf F hv]

theorem visitedIn_visited {key : String} {f : Value → Value}
    (hobject : ∀ fields, ∃ fields', f (.object fields) = .object fields')
    (v : Value) : visitedIn key (visited key (Views.of f v)) = (visitedIn key v).map f := by
  unfold visited Views.of entriesOf itemsOf
  cases v with
  | object entries =>
    dsimp only
    by_cases hmap : SCHEMA_MAPS.contains key = true
    · rw [if_pos hmap, visitedIn, visitedIn, if_pos hmap, if_pos hmap, List.map_map, List.map_map]
      rfl
    · rw [if_neg hmap]
      by_cases hvalue : SCHEMA_VALUES.contains key = true
      · obtain ⟨fields', hfields'⟩ := hobject entries
        rw [if_pos hvalue, hfields', visitedIn, visitedIn, if_neg hmap, if_neg hmap,
          if_pos hvalue, if_pos hvalue, List.map_singleton, hfields']
      · rw [if_neg hvalue, visitedIn, if_neg hmap, if_neg hvalue]
        rfl
  | array items =>
    dsimp only
    by_cases hlist : (SCHEMA_LISTS.contains key || SCHEMA_VALUES.contains key) = true
    · rw [if_pos hlist, visitedIn, visitedIn, if_pos hlist, if_pos hlist]
    · rw [if_neg hlist, visitedIn, if_neg hlist]
      rfl
  | _ => rfl

theorem narrowed_of_position (h : Sound limits) {v w : Value}
    (hw : Position (narrowSchemaNode F limits v) w) : ∃ u, w = narrowSchemaNode F limits u := by
  induction hw with
  | refl => exact ⟨v, rfl⟩
  | tail _ hstep ih =>
    obtain ⟨u, rfl⟩ := ih
    obtain ⟨fields', hfields', e, he, hw⟩ := hstep
    cases u with
    | object fields =>
      rw [narrowSchemaNode_object F h] at hfields'
      obtain rfl := Value.object.inj hfields'
      rw [forEachSubschema_eq] at he
      obtain ⟨e', -, rfl⟩ := List.mem_map.mp he
      rw [visitedIn_visited (narrowSchemaNode_isObject F h)] at hw
      obtain ⟨x, -, rfl⟩ := List.mem_map.mp hw
      exact ⟨x, rfl⟩
    | _ =>
      rw [narrowSchemaNode_leaf F rfl] at hfields'
      cases hfields'

theorem get_of_position (h : Sound limits) {v w : Value}
    (hw : Position (narrowSchemaNode F limits v) w) {key : String}
    (hkey : isRemoved limits key = true ∨ key = "oneOf") : w.get key = none := by
  obtain ⟨u, rfl⟩ := narrowed_of_position F h hw
  cases u with
  | object fields =>
    have hsettled :=
      settled_forEachSubschema (narrowSchemaNode F limits) (settled_limited F h fields)
    rw [narrowSchemaNode_object F h, Value.get]
    rcases hkey with hkey | rfl
    · exact hsettled.removed key hkey
    · exact hsettled.oneOf
  | _ =>
    rw [narrowSchemaNode_leaf F rfl]
    rfl

/-- `w` stands where a schema is visited in what is kept of `v` itself. -/
def KeptBelow (limits : SchemaLimits) (v w : Value) : Prop :=
  ∃ fields, v = .object fields ∧ ∃ e ∈ limited F limits fields, w ∈ visitedIn e.1 e.2

def KeptPosition (limits : SchemaLimits) : Value → Value → Prop :=
  Relation.ReflTransGen (KeptBelow F limits)

theorem position_narrowSchemaNode (h : Sound limits) {v w : Value}
    (hw : KeptPosition F limits v w) :
    Position (narrowSchemaNode F limits v) (narrowSchemaNode F limits w) := by
  refine Relation.ReflTransGen.lift (narrowSchemaNode F limits) (fun u x hx => ?_) v w hw
  obtain ⟨fields, rfl, e, he, hx⟩ := hx
  refine ⟨_, narrowSchemaNode_object F h fields,
    (e.1, visited e.1 (Views.of (narrowSchemaNode F limits) e.2)), ?_, ?_⟩
  · rw [forEachSubschema_eq]
    exact List.mem_map_of_mem he
  · rw [visitedIn_visited (narrowSchemaNode_isObject F h)]
    exact List.mem_map_of_mem hx

theorem names_kept (h : Sound limits) {fields entries : List (String × Value)} {key : String}
    (hmap : key ∈ SCHEMA_MAPS) (hkey : isRemoved limits key = false)
    (hlookup : fields.lookup key = some (.object entries)) :
    (narrowSchemaNode F limits (.object fields)).get key =
      some (.object (entries.map fun e => (e.1, narrowSchemaNode F limits e.2))) := by
  have hother : key ∉ ["minItems", "description", "oneOf", "anyOf"] := by
    unfold SCHEMA_MAPS at hmap
    simp only [List.mem_cons, List.not_mem_nil, or_false] at hmap
    rcases hmap with rfl | rfl | rfl | rfl | rfl <;> decide
  rw [narrowSchemaNode_object F h, Value.get, lookup_forEachSubschema,
    lookup_limited F hother, hkey, hlookup]
  unfold visited Views.of entriesOf
  dsimp only [Option.map_some]
  rw [if_neg fun hpair => by cases hpair]
  dsimp only [Option.map_some]
  rw [if_pos (List.contains_iff_mem.mpr hmap)]

end Node

end StructuredOutput
end Aisix
