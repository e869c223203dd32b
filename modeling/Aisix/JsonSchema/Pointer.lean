import Aisix.JsonSchema.Looser

/-!
# Aisix.JsonSchema.Pointer

What a reference within a document stands for.
-/

namespace Aisix
namespace JsonSchema

open Json

/-- A segment of a pointer, its escapes read. -/
def unescape : List Char → List Char
  | [] => []
  | '~' :: '0' :: cs => '~' :: unescape cs
  | '~' :: '1' :: cs => '/' :: unescape cs
  | c :: cs => c :: unescape cs

/-- The value that so many steps lead to. -/
def descend : Value → List String → Option Value
  | v, [] => some v
  | .object fields, key :: rest => (fields.lookup key).bind (descend · rest)
  | .array items, key :: rest =>
    (items.zipIdx.find? fun e => toString e.2 == key).bind (descend ·.1 rest)
  | _, _ :: _ => none

/-- What a fragment points at. -/
def pointed (root : Value) (reference : String) : Option Value :=
  match reference.toList with
  | ['#'] => some root
  | '#' :: '/' :: path =>
    descend root ((path.splitOn '/').map fun segment => String.ofList (unescape segment))
  | _ => none

section Resolve

variable (V : Vocabulary) (outside : String → Sem) (root : Value)

/-- References followed into the document so many times; what is not in it is `outside`. -/
def resolveIn : Nat → String → Sem
  | 0, reference => outside reference
  | depth + 1, reference =>
    match pointed root reference with
    | some v => denote V (resolveIn depth) v
    | none => outside reference

theorem resolveIn_of_outside {reference : String}
    (h : pointed root reference = none) (depth : Nat) :
    resolveIn V outside root depth reference = outside reference := by
  cases depth with
  | zero => rfl
  | succ depth => rw [resolveIn, h]

end Resolve

theorem unescape_of_notMem {segment : List Char} (h : '~' ∉ segment) :
    unescape segment = segment := by
  induction segment with
  | nil => rfl
  | cons c cs ih =>
    have hc : c ≠ '~' := fun heq => h (heq ▸ List.mem_cons_self)
    rw [unescape, ih fun hmem => h (List.mem_cons_of_mem _ hmem)]
    · exact fun _ heq => absurd heq hc
    · exact fun _ heq => absurd heq hc

/-! ### What a schema's meaning depends on -/

section Congr

variable (V : Vocabulary) {f g : Value → Sem} {fields : List (String × Value)}

theorem rel_eq {α : Type} {o o' : Option α} (h : Option.Rel (· = ·) o o') : o = o' := by
  cases h with
  | none => rfl
  | some h => rw [h]

theorem schemaAt_congr {key : String} (hkey : (maps ++ lists).contains key = false)
    (h : ∀ w ∈ subschemas fields key, f w = g w) :
    schemaAt (members f fields) key = schemaAt (members g fields) key :=
  rel_eq (schemaAt_rel hkey h)

theorem listAt_congr {key : String} (hkey : maps.contains key = false)
    (h : ∀ w ∈ subschemas fields key, f w = g w) :
    listAt (members f fields) key = listAt (members g fields) key := by
  have hrel := listAt_rel hkey h
  rw [List.forall₂_eq_eq_eq] at hrel
  exact rel_eq hrel

theorem mapAt_congr {key : String} (hkey : maps.contains key = true)
    (h : ∀ w ∈ subschemas fields key, f w = g w) :
    mapAt (members f fields) key = mapAt (members g fields) key := by
  have hrel := mapAt_rel hkey h
  have heq : List.Forall₂ (· = ·) (mapAt (members f fields) key) (mapAt (members g fields) key) :=
    hrel.imp fun a b hab => Prod.ext hab.1 hab.2
  rwa [List.forall₂_eq_eq_eq] at heq

/-- The keywords whose members are schemas, or hold them. -/
def applicators : List String :=
  ["allOf", "anyOf", "oneOf", "not", "if", "then", "else", "dependentSchemas", "properties",
    "patternProperties", "additionalProperties", "propertyNames", "prefixItems", "items",
    "contains", "unevaluatedProperties", "unevaluatedItems"]

theorem parts_congr (h : ∀ key ∈ applicators, ∀ w ∈ subschemas fields key, f w = g w) :
    parts V (members f fields) = parts V (members g fields) := by
  have hasserted :
      (parts V (members f fields)).asserted = (parts V (members g fields)).asserted := by
    funext doc
    rw [asserted_members, asserted_members]
  have href : (parts V (members f fields)).ref = (parts V (members g fields)).ref := by
    unfold parts
    dsimp only
    rw [lookup_members, lookup_members]
    cases fields.lookup "$ref" <;> rfl
  have hschema : ∀ key, key ∈ applicators → (maps ++ lists).contains key = false →
      schemaAt (members f fields) key = schemaAt (members g fields) key :=
    fun key hmem hkey => schemaAt_congr hkey (h key hmem)
  have hlist : ∀ key, key ∈ applicators → maps.contains key = false →
      listAt (members f fields) key = listAt (members g fields) key :=
    fun key hmem hkey => listAt_congr hkey (h key hmem)
  have hmap : ∀ key, key ∈ applicators → maps.contains key = true →
      mapAt (members f fields) key = mapAt (members g fields) key :=
    fun key hmem hkey => mapAt_congr hkey (h key hmem)
  have hnat : ∀ key, natAt (members f fields) key = natAt (members g fields) key := fun key => by
    rw [natAt_members, natAt_members]
  unfold parts at hasserted href ⊢
  dsimp only at hasserted href
  rw [hasserted, href]
  simp (disch := decide) only [hschema, hlist, hmap, hnat]

theorem outcome_of_ref_none {p : Parts} (h : p.ref = none) (resolve resolve' : String → Sem) :
    p.outcome V resolve = p.outcome V resolve' := by
  unfold Parts.outcome Parts.looked Parts.inPlace
  rw [h]
  rfl

end Congr

/-- The members that add nothing to a reference. -/
def inert : List String := ["$ref", "$defs", "definitions", "description"]

/-- A reference and nothing else. -/
def bare (reference : String) : Parts where
  asserted _ := true
  ref := some reference
  allOf := []
  anyOf := none
  oneOf := none
  negated := none
  test := none
  consequence := none
  alternative := none
  dependentSchemas := []
  properties := []
  patternProperties := []
  additionalProperties := none
  propertyNames := none
  prefixItems := []
  tuple := []
  items := none
  contains := none
  minContains := 1
  maxContains := none
  unevaluatedProperties := none
  unevaluatedItems := none

theorem Outcome.and_pass (o : Outcome) : o.and pass = o :=
  Outcome.ext (Bool.and_true _) (funext fun _ => Bool.or_false _) (funext fun _ => Bool.or_false _)

theorem fieldwise_nil (doc : Value) : fieldwise (fun _ => []) doc = .pass :=
  Outcome.ext (List.all_eq_true.mpr fun _ _ => rfl) (funext fun _ => Bool.and_false _) rfl

theorem itemwise_nil (doc : Value) : itemwise (fun _ => []) doc = .pass :=
  Outcome.ext (List.all_eq_true.mpr fun _ _ => rfl) rfl (funext fun _ => Bool.and_false _)

theorem outcome_bare (V : Vocabulary) (resolve : String → Sem) (reference : String) :
    (bare reference).outcome V resolve = resolve reference := by
  funext doc
  have hinPlace : (bare reference).inPlace resolve doc = resolve reference doc :=
    (Outcome.and_pass _).trans (Outcome.and_pass _)
  have hselect : ∀ i, (bare reference).element i = [] := fun i => by
    unfold Parts.element bare
    split <;> rfl
  have hchildren : (bare reference).children V doc = .pass := by
    have hnames : ((docFields doc).all fun _ => true) = true := List.all_eq_true.mpr fun _ _ => rfl
    unfold Parts.children
    rw [show (bare reference).member V = fun _ => [] from rfl, fieldwise_nil,
      funext hselect, itemwise_nil]
    exact congrArg (fun b => Outcome.all [.pass, .verdict b, .pass, .pass]) hnames
  have hlooked : (bare reference).looked V resolve doc = resolve reference doc := by
    unfold Parts.looked
    rw [hinPlace, hchildren]
    exact Outcome.and_pass _
  unfold Parts.outcome
  dsimp only
  rw [hlooked]
  have hfields : fieldwise (fun n => if (resolve reference doc).names n then [] else
      (bare reference).unevaluatedProperties.toList) doc = .pass := by
    rw [show (fun n => if (resolve reference doc).names n then [] else
      (bare reference).unevaluatedProperties.toList) = fun _ => [] from funext fun n => ite_self _,
        fieldwise_nil]
  have hitems : itemwise (fun i => if (resolve reference doc).indices i then [] else
      (bare reference).unevaluatedItems.toList) doc = .pass := by
    rw [show (fun i => if (resolve reference doc).indices i then [] else
      (bare reference).unevaluatedItems.toList) = fun _ => [] from funext fun i => ite_self _,
        itemwise_nil]
  rw [hfields, hitems]
  exact Outcome.and_pass _

theorem denote_of_ref (V : Vocabulary) (resolve : String → Sem) {fields : List (String × Value)}
    {reference : String} (href : strField (.object fields) "$ref" = some reference)
    (hinert : ∀ e ∈ fields, e.1 ∈ inert) :
    denote V resolve (.object fields) = resolve reference := by
  have hnone : ∀ key, key ∉ inert → fields.lookup key = none := by
    intro key hkey
    cases hlookup : fields.lookup key with
    | none => rfl
    | some v =>
      obtain ⟨before, after, rfl, -⟩ := List.lookup_eq_some_iff.mp hlookup
      exact absurd (hinert (key, v) (List.mem_append_right _ List.mem_cons_self)) hkey
  have hparts : parts V (members (denote V resolve) fields) = bare reference := by
    have hasserted : (parts V (members (denote V resolve) fields)).asserted = fun _ => true := by
      funext doc
      rw [asserted_members]
      refine List.all_eq_true.mpr fun e he => (Bool.or_eq_true _ _).mpr
        (.inl (List.contains_iff_mem.mpr ?_))
      have hsubset : inert ⊆ structural := by decide
      exact hsubset (hinert e he)
    have href' : (parts V (members (denote V resolve) fields)).ref = some reference := by
      unfold parts
      dsimp only
      obtain ⟨v, hlookup, hv⟩ := Option.bind_eq_some_iff.mp href
      rw [lookup_members, show fields.lookup "$ref" = some v from hlookup]
      exact hv
    have hlookup : ∀ key, key ∉ inert → (members (denote V resolve) fields).lookup key = none := by
      intro key hkey
      rw [lookup_members, hnone key hkey]
      rfl
    unfold parts at hasserted href' ⊢
    dsimp only at hasserted href'
    rw [hasserted, href']
    simp (disch := decide) only [schemaAt, listAt, mapAt, natAt, hlookup]
    rfl
  rw [denote_object, hparts, outcome_bare]

end JsonSchema
end Aisix
