import Aisix.JsonSchema.Looser
import Aisix.StructuredOutput.Narrow

/-!
# Aisix.StructuredOutput.Loosen

Which documents a narrowed schema takes: all that the schema took, where what is removed stands in a
place that can only take documents away (`looser_narrowSchemaNode`).
-/

namespace Aisix
namespace StructuredOutput

open Json JsonSchema

/-! ### The meaning of visited members -/

section Visited

variable (V : Vocabulary) {g : Value → Value} (f : Value → Sem) (fields : List (String × Value))

theorem schemaAt_forEachSubschema (hobject : ∀ fields, isSchema (g (.object fields)) = true)
    (hleaf : ∀ b, g (.bool b) = .bool b) {key : String} (hkey : SCHEMA_VALUES.contains key = true)
    (hmap : SCHEMA_MAPS.contains key = false) :
    schemaAt (members f (forEachSubschema g fields)) key =
      schemaAt (members (fun w => f (g w)) fields) key := by
  rw [schemaAt_members, schemaAt_members, lookup_forEachSubschema]
  cases fields.lookup key with
  | none => rfl
  | some v =>
    rw [Option.map_some]
    unfold visited Views.of
    cases v with
    | object entries =>
      dsimp only
      rw [hmap, hkey, if_neg nofun, if_pos rfl, Option.filter_some, if_pos (hobject entries)]
      rfl
    | array items =>
      dsimp only
      split <;> rfl
    | bool b => exact congrArg (fun w => some (f w)) (hleaf b).symm
    | _ => rfl

theorem listAt_forEachSubschema (hobject : ∀ fields, isSchema (g (.object fields)) = true)
    {key : String} (hkey : (SCHEMA_LISTS.contains key || SCHEMA_VALUES.contains key) = true)
    (hmap : SCHEMA_MAPS.contains key = false) :
    listAt (members f (forEachSubschema g fields)) key =
      listAt (members (fun w => f (g w)) fields) key := by
  rw [listAt_members, listAt_members, lookup_forEachSubschema]
  cases fields.lookup key with
  | none => rfl
  | some v =>
    rw [Option.map_some]
    unfold visited Views.of
    cases v with
    | object entries =>
      have hnot : isArray (g (.object entries)) = false := by
        have hschema := hobject entries
        cases hg : g (.object entries) with
        | array items =>
          rw [hg] at hschema
          cases hschema
        | _ => rfl
      dsimp only
      rw [hmap, if_neg nofun]
      split
      · rw [Option.filter_some, hnot]
        rfl
      · rfl
    | array items =>
      dsimp only [itemsOf]
      rw [if_pos hkey]
      exact congrArg some List.map_map
    | _ => rfl

theorem mapAt_forEachSubschema {key : String} (hmap : SCHEMA_MAPS.contains key = true) :
    mapAt (members f (forEachSubschema g fields)) key =
      mapAt (members (fun w => f (g w)) fields) key := by
  rw [mapAt_members, mapAt_members, lookup_forEachSubschema]
  cases fields.lookup key with
  | none => rfl
  | some v =>
    rw [Option.map_some]
    unfold visited Views.of
    cases v with
    | object entries =>
      dsimp only [entriesOf, Option.elim_some]
      rw [if_pos hmap]
      exact List.map_map
    | array items =>
      dsimp only
      split <;> rfl
    | _ => rfl

theorem parts_forEachSubschema (hobject : ∀ fields, isSchema (g (.object fields)) = true)
    (hleaf : ∀ b, g (.bool b) = .bool b) :
    parts V (members f (forEachSubschema g fields)) =
      parts V (members (fun w => f (g w)) fields) := by
  have hasserted : (parts V (members f (forEachSubschema g fields))).asserted =
      (parts V (members (fun w => f (g w)) fields)).asserted := by
    funext doc
    rw [asserted_members, asserted_members, forEachSubschema_eq, List.all_map]
    refine congrArg (List.all fields) (funext fun e => ?_)
    dsimp only [Function.comp]
    cases hstructural : structural.contains e.1 with
    | true => rfl
    | false => rw [visited_of_not_isWalked (isWalked_of_not_structural hstructural)]
  have hraw : ∀ {β : Type} (key : String) (read : Value → Option β), isWalked key = false →
      ((members f (forEachSubschema g fields)).lookup key).bind (fun w => read w.raw) =
        ((members (fun w => f (g w)) fields).lookup key).bind fun w => read w.raw := by
    intro β key read hkey
    rw [lookup_members, lookup_members, lookup_forEachSubschema_of_not_isWalked hkey]
    cases fields.lookup key <;> rfl
  have hmin := hraw "minContains" Value.asU64? (by decide)
  have hmax := hraw "maxContains" Value.asU64? (by decide)
  have href := hraw "$ref" Value.asStr? (by decide)
  unfold parts at hasserted ⊢
  dsimp only at hasserted
  rw [hasserted, href]
  unfold natAt
  rw [hmin, hmax]
  simp (disch := first | assumption | decide)
    only [schemaAt_forEachSubschema f fields hobject hleaf,
    listAt_forEachSubschema f fields hobject, mapAt_forEachSubschema f fields]

end Visited

/-! ### Where keywords may be removed -/

/-- What a place is to become: no tighter, no looser; and whether somebody asks what it has looked
at. -/
structure Demand where
  up : Bool
  down : Bool
  seen : Bool

/-- The keywords whose schemas look at the document itself. -/
def inPlaceKeywords : List String :=
  ["allOf", "anyOf", "oneOf", "if", "then", "else", "dependentSchemas"]

/-- What is demanded of the schemas under a keyword. -/
def Demand.at (d : Demand) (fields : List (String × Value)) (key : String) : Demand :=
  let both := d.up || d.down
  let seen := inPlaceKeywords.contains key && (d.seen || asksLooked fields)
  if key = "not" then ⟨d.down, d.up, seen⟩
  else if key = "if" ∨ key = "contains" ∧
    (fields.lookup "maxContains").bind Value.asU64? ≠ none then ⟨both, both, seen⟩
  else ⟨d.up, d.down, seen⟩

section Demands

variable (F : FloatText) (limits : SchemaLimits)

/-- What the node's own step may do where `d` is demanded. -/
structure Allowed (d : Demand) (fields : List (String × Value)) : Prop where
  unchanged : d.down = true → Settled limits fields
  alternatives : d.up = true → (d.seen || asksLooked (limited F limits fields)) = true →
    fields.lookup "oneOf" = none ∨ fields.lookup "anyOf" = none
  tuple : d.up = true → isRemoved limits "prefixItems" = true →
    arrayField (.object fields) "prefixItems" = [] ∨ (fields.lookup "items").filter isSchema = none

/-- The places below a node that mean something, with what is demanded there. -/
def Demanded (x y : Value × Demand) : Prop :=
  ∃ fields key v, x.1 = .object fields ∧ (limited F limits fields).lookup key = some v ∧
    key ≠ "$defs" ∧ key ≠ "definitions" ∧ y.1 ∈ visitedIn key v ∧
    y.2 = x.2.at (limited F limits fields) key

/-- Nothing is removed that is demanded to stay. -/
def Loosens (d : Demand) (v : Value) : Prop :=
  ∀ fields d', Relation.ReflTransGen (Demanded F limits) (v, d) (.object fields, d') →
    Allowed F limits d' fields

def Meets (d : Demand) (s s' : Sem) : Prop :=
  (d.up = true → Looser d.seen s s') ∧ (d.down = true → Looser d.seen s' s)

end Demands

section Narrowing

variable (V : Vocabulary) (resolve : String → Sem) (F : FloatText) {limits : SchemaLimits}

theorem asserted_limited (f : Value → Sem) (fields : List (String × Value)) (doc : Value)
    (h : (parts V (members f fields)).asserted doc = true) :
    (parts V (members f (limited F limits fields))).asserted doc = true := by
  rw [asserted_members] at h ⊢
  refine List.all_eq_true.mpr fun e he => ?_
  rcases mem_limited F he with he | ⟨s, rfl⟩ | ⟨hkey, -⟩
  · exact List.all_eq_true.mp h e he
  · rfl
  · rw [hkey]
    rfl

theorem chosen_limited (h : Sound limits) (f : Value → Sem) {fields : List (String × Value)}
    {inner : Bool}
    (halternatives : inner = true → fields.lookup "oneOf" = none ∨ fields.lookup "anyOf" = none)
    (doc : Value) :
    ((parts V (members f fields)).chosen doc).Looser inner
    ((parts V (members f (limited F limits fields))).chosen doc) := by
  have hone' : (parts V (members f (limited F limits fields))).oneOf = none := by
    unfold parts
    dsimp only
    rw [listAt_members, lookup_limited_oneOf F h]
    rfl
  have hany' : (parts V (members f (limited F limits fields))).anyOf =
      (((fields.lookup "anyOf").or (fields.lookup "oneOf")).filter isArray).map (itemsOf f) := by
    unfold parts
    dsimp only
    rw [listAt_members, lookup_limited_anyOf F h]
  have hany :
      (parts V (members f fields)).anyOf =
      ((fields.lookup "anyOf").filter isArray).map (itemsOf f) :=
    listAt_members f fields "anyOf"
  have hone :
      (parts V (members f fields)).oneOf =
      ((fields.lookup "oneOf").filter isArray).map (itemsOf f) :=
    listAt_members f fields "oneOf"
  unfold Parts.chosen
  rw [hone', hany', hany, hone]
  cases hlookup : fields.lookup "anyOf" with
  | none =>
    -- The alternatives are renamed.
    rw [Option.none_or]
    cases hlist : ((fields.lookup "oneOf").filter isArray).map (itemsOf f) with
    | none => exact .refl inner _
    | some ss =>
      intro hvalid
      have hexactly : (Outcome.one (ss.map (· doc))).valid = true := hvalid
      obtain ⟨hvalid', hlooked⟩ := Outcome.one_looser_any inner (ss.map (· doc)) hexactly
      refine ⟨(Bool.and_eq_true _ _).mpr ⟨hvalid', rfl⟩,
        fun hinner => ⟨fun n hn => ?_, fun i hi => ?_⟩⟩
      · exact (Bool.or_eq_true _ _).mpr (.inl ((hlooked hinner).1 n hn))
      · exact (Bool.or_eq_true _ _).mpr (.inl ((hlooked hinner).2 i hi))
  | some v =>
    rw [Option.some_or]
    cases inner with
    | true =>
      have hnone := (halternatives rfl).resolve_right (by rw [hlookup]; nofun)
      rw [hnone]
      exact .refl true _
    | false => exact (Outcome.and_looser_left _ _).trans fun hvalid =>
      ⟨(Bool.and_eq_true _ _).mpr ⟨hvalid, rfl⟩, nofun⟩

/-- The limits remove no keyword that is read together with others, or all that ask or answer what
has been looked at. -/
def Removes (limits : SchemaLimits) (seen : Bool) : Prop :=
  (∀ key ∈ structural, isRemoved limits key = false) ∨
    seen = false ∧
      ∀ key ∈ ["additionalProperties", "contains", "if", "unevaluatedProperties",
      "unevaluatedItems"], isRemoved limits key = true

theorem removes_anthropic (seen : Bool) : Removes ANTHROPIC_SCHEMA_LIMITS seen := .inl (by decide)

theorem removes_gemini : Removes GEMINI_OPENAPI_SCHEMA_LIMITS false := .inr ⟨rfl, by decide⟩

theorem asksLooked_limited {d : Demand} (hremoves : Removes limits d.seen)
    (fields : List (String × Value)) :
    (d.seen || asksLooked (limited F limits fields)) = false ∨
    ∀ key ∈ structural, isRemoved limits key = false := by
  rcases hremoves with hnone | ⟨hseen, hall⟩
  · exact .inr hnone
  · refine .inl ?_
    unfold asksLooked
    rw [hseen, lookup_limited F (by decide), lookup_limited F (by decide), hall _ (by decide),
      hall _ (by decide)]
    rfl

theorem trimmed_limited (h : Sound limits) (f : Value → Sem) {fields : List (String × Value)}
    {d : Demand} (hremoves : Removes limits d.seen) (hallowed : Allowed F limits d fields)
    (hup : d.up = true) :
    Trimmed (d.seen || asksLooked (limited F limits fields)) (parts V (members f fields))
      (parts V (members f (limited F limits fields))) := by
  generalize hinner : (d.seen || asksLooked (limited F limits fields)) = inner
  have hlookup : ∀ key, key ∉ ["minItems", "description", "oneOf", "anyOf"] → key ∈ structural →
      (members f (limited F limits fields)).lookup key = (members f fields).lookup key ∨
        inner = false ∧ isRemoved limits key = true ∧
          (members f (limited F limits fields)).lookup key = none := by
    intro key hkey hstructural
    rw [lookup_members, lookup_members, lookup_limited F hkey]
    cases hremoved : isRemoved limits key with
    | false => exact .inl rfl
    | true =>
      refine .inr ⟨?_, rfl, rfl⟩
      rcases asksLooked_limited F hremoves fields with hfalse | hnone
      · rw [← hinner, hfalse]
      · rw [hnone key hstructural] at hremoved
        cases hremoved
  have hschema : ∀ key, key ∉ ["minItems", "description", "oneOf", "anyOf"] → key ∈ structural →
      schemaAt (members f (limited F limits fields)) key = schemaAt (members f fields) key ∨
        inner = false ∧ schemaAt (members f (limited F limits fields)) key = none := by
    intro key hkey hstructural
    unfold schemaAt
    rcases hlookup key hkey hstructural with heq | ⟨hfalse, -, hnone⟩
    · exact .inl (by rw [heq])
    · exact .inr ⟨hfalse, by rw [hnone]; rfl⟩
  have hmap : ∀ key, key ∉ ["minItems", "description", "oneOf", "anyOf"] → key ∈ structural →
      mapAt (members f (limited F limits fields)) key = mapAt (members f fields) key ∨
        inner = false ∧ mapAt (members f (limited F limits fields)) key = [] := by
    intro key hkey hstructural
    unfold mapAt
    rcases hlookup key hkey hstructural with heq | ⟨hfalse, -, hnone⟩
    · exact .inl (by rw [heq])
    · exact .inr ⟨hfalse, by rw [hnone]; rfl⟩
  have hlist : ∀ key, key ∉ ["minItems", "description", "oneOf", "anyOf"] → key ∈ structural →
      (listAt (members f (limited F limits fields)) key).getD [] =
        (listAt (members f fields) key).getD [] ∨ inner = false ∧ isRemoved limits key = true ∧
        (listAt (members f (limited F limits fields)) key).getD [] = [] := by
    intro key hkey hstructural
    unfold listAt
    rcases hlookup key hkey hstructural with heq | ⟨hfalse, hremoved, hnone⟩
    · exact .inl (by rw [heq])
    · exact .inr ⟨hfalse, hremoved, by rw [hnone]; rfl⟩
  have hkept : ∀ key ∈ ["properties", "items", "$ref"],
      (members f (limited F limits fields)).lookup key = (members f fields).lookup key := by
    intro key hkey
    rw [lookup_members, lookup_members]
    simp only [List.mem_cons, List.not_mem_nil, or_false] at hkey
    rcases hkey with rfl | rfl | rfl <;>
      rw [lookup_limited F (by decide), h.not_isRemoved (by decide) (by decide), if_neg nofun]
  have hgroups : (∀ key, key ∉ ["minItems", "description", "oneOf", "anyOf"] → key ∈ structural →
        (members f (limited F limits fields)).lookup key = (members f fields).lookup key) ∨
      inner = false ∧ ∀ key ∈ ["additionalProperties", "contains", "if"],
        schemaAt (members f (limited F limits fields)) key = none := by
    rcases hremoves with hnone | ⟨hseen, hall⟩
    · refine .inl fun key hkey hstructural => ?_
      rw [lookup_members, lookup_members, lookup_limited F hkey,
        hnone key hstructural, if_neg nofun]
    · refine .inr ⟨?_, fun key hkey => ?_⟩
      · rcases hlookup "contains" (by decide) (by decide) with heq | ⟨hfalse, -, -⟩
        · rcases asksLooked_limited F (.inr ⟨hseen, hall⟩) fields with hfalse | hnone
          · rw [← hinner, hfalse]
          · have hcontains := hall "contains" (by decide)
            rw [hnone "contains" (by decide)] at hcontains
            cases hcontains
        · exact hfalse
      · unfold schemaAt
        simp only [List.mem_cons, List.not_mem_nil, or_false] at hkey
        rcases hkey with rfl | rfl | rfl <;>
          rw [lookup_members, lookup_limited F (by decide), hall _ (by decide)] <;> rfl
  refine {
    asserted := asserted_limited V F f fields
    ref := ?_
    allOf := ?_
    chosen := chosen_limited V F h f fun hlooked => hallowed.alternatives hup (hinner.trans hlooked)
    negated := (hschema "not" (by decide) (by decide)).imp id And.right
    test := ?_
    dependentSchemas := hmap "dependentSchemas" (by decide) (by decide)
    properties := ?_
    additionalProperties := ?_
    propertyNames := (hschema "propertyNames" (by decide) (by decide)).imp id And.right
    tuple := ?_
    items := ?_
    prefixItems := ?_
    contains := ?_
    unevaluatedProperties := hschema "unevaluatedProperties" (by decide) (by decide)
    unevaluatedItems := hschema "unevaluatedItems" (by decide) (by decide) }
  · exact congrArg (fun o => o.bind fun w => w.raw.asStr?) (hkept "$ref" (by decide))
  · exact (hlist "allOf" (by decide) (by decide)).imp id fun hnil => ⟨hnil.1, hnil.2.2⟩
  · rcases hgroups with hsame | ⟨hfalse, hnone⟩
    · refine .inl ⟨?_, ?_, ?_⟩
      · exact congrArg (fun o => (o.filter fun w => isSchema w.raw).map (·.schema))
          (hsame "if" (by decide) (by decide))
      · exact congrArg (fun o => (o.filter fun w => isSchema w.raw).map (·.schema))
          (hsame "then" (by decide) (by decide))
      · exact congrArg (fun o => (o.filter fun w => isSchema w.raw).map (·.schema))
          (hsame "else" (by decide) (by decide))
    · exact .inr ⟨hfalse, hnone "if" (by decide)⟩
  · exact congrArg (fun o => o.elim [] (·.entries)) (hkept "properties" (by decide))
  · have hpattern := hmap "patternProperties" (by decide) (by decide)
    rcases hgroups with hsame | ⟨hfalse, hnone⟩
    · refine .inl ⟨?_, ?_⟩
      · exact congrArg (fun o => o.elim [] (·.entries))
          (hsame "patternProperties" (by decide) (by decide))
      · exact congrArg (fun o => (o.filter fun w => isSchema w.raw).map (·.schema))
          (hsame "additionalProperties" (by decide) (by decide))
    · exact .inr ⟨hfalse, hpattern.imp id And.right, hnone "additionalProperties" (by decide)⟩
  · exact congrArg (fun o => ((o.filter fun w => isArray w.raw).map (·.items)).getD [])
      (hkept "items" (by decide))
  · exact congrArg (fun o => (o.filter fun w => isSchema w.raw).map (·.schema))
      (hkept "items" (by decide))
  · refine (hlist "prefixItems" (by decide) (by decide)).imp id fun ⟨hfalse, hremoved, hnil⟩ =>
      ⟨hfalse, hnil, ?_⟩
    refine (hallowed.tuple hup hremoved).symm.imp (fun hitems => ?_) fun hprefix => ?_
    · refine (schemaAt_members f fields "items").trans ?_
      rw [hitems]
      rfl
    · refine (congrArg (Option.getD · []) (listAt_members f fields "prefixItems")).trans ?_
      unfold arrayField Value.get at hprefix
      dsimp only at hprefix
      cases hvalue : fields.lookup "prefixItems" with
      | none => rfl
      | some v =>
        rw [hvalue] at hprefix
        cases v with
        | array items =>
          obtain rfl : items = [] := hprefix
          rfl
        | _ => rfl
  · rcases hgroups with hsame | ⟨hfalse, hnone⟩
    · refine .inl ⟨?_, ?_, ?_⟩
      · exact congrArg (fun o => (o.filter fun w => isSchema w.raw).map (·.schema))
          (hsame "contains" (by decide) (by decide))
      · exact congrArg (fun o => (o.bind fun w => w.raw.asU64?).getD 1)
          (hsame "minContains" (by decide) (by decide))
      · exact congrArg (fun o => o.bind fun w => w.raw.asU64?)
          (hsame "maxContains" (by decide) (by decide))
    · exact .inr ⟨hfalse, hnone "contains" (by decide)⟩

/-! ### All nodes -/

def Demand.swap (d : Demand) : Demand := ⟨d.down, d.up, d.seen⟩

theorem Demand.swap_at (d : Demand) (fields : List (String × Value)) (key : String) :
    (d.at fields key).swap = d.swap.at fields key := by
  unfold Demand.at Demand.swap
  split
  · rfl
  · split
    · dsimp only
      rw [Bool.or_comm d.up]
    · rfl

theorem Meets.swap {d : Demand} {s s' : Sem} (h : Meets d s s') : Meets d.swap s' s := ⟨h.2, h.1⟩

theorem Meets.refl (d : Demand) (s : Sem) : Meets d s s := ⟨fun _ => .refl _ s, fun _ => .refl _ s⟩

theorem below_of_meets {fields : List (String × Value)} {d : Demand} {f g : Value → Sem}
    (hup : d.up = true) (hone : fields.lookup "oneOf" = none)
    (h : ∀ key, isWalked key = true → key ≠ "$defs" → key ≠ "definitions" →
      ∀ w ∈ subschemas fields key,
        Meets (d.at fields key) (f w) (g w)) :
    JsonSchema.Below (d.seen || asksLooked fields) fields f g := by
  have hboth : (d.up || d.down) = true := by rw [hup, Bool.true_or]
  have hplain : ∀ key, key ≠ "not" → key ≠ "if" → isWalked key = true → key ≠ "$defs" →
      key ≠ "definitions" → ∀ w ∈ subschemas fields key,
        Looser (inPlaceKeywords.contains key && (d.seen || asksLooked fields)) (f w) (g w) := by
    intro key hnot hif hwalked hdefs hdefinitions w hw
    have hmeets := h key hwalked hdefs hdefinitions w hw
    unfold Demand.at at hmeets
    dsimp only at hmeets
    rw [if_neg hnot] at hmeets
    split at hmeets
    · exact hmeets.1 hboth
    · exact hmeets.1 hup
  refine ⟨?_, ?_, ?_, ?_, ?_⟩
  · intro key hkey w hw
    simp only [List.mem_cons, List.not_mem_nil, or_false] at hkey
    rcases hkey with rfl | rfl | rfl | rfl | rfl <;>
      exact hplain _ (by decide) (by decide) (by decide) (by decide) (by decide) w hw
  · intro key hkey w hw
    simp only [List.mem_cons, List.not_mem_nil, or_false] at hkey
    rcases hkey with rfl | rfl
    · unfold subschemas at hw
      rw [hone] at hw
      cases hw
    · have hmeets := h "if" (by decide) (by decide) (by decide) w hw
      exact ⟨hmeets.1 hboth, hmeets.2 hboth⟩
  · intro w hw
    exact (h "not" (by decide) (by decide) (by decide) w hw).2 hup
  · intro key hkey w hw
    simp only [List.mem_cons, List.not_mem_nil, or_false] at hkey
    rcases hkey with rfl | rfl | rfl | rfl | rfl | rfl | rfl | rfl | rfl <;>
      exact hplain _ (by decide) (by decide) (by decide) (by decide) (by decide) w hw
  · intro hmax w hw
    have hmeets := h "contains" (by decide) (by decide) (by decide) w hw
    unfold Demand.at at hmeets
    dsimp only at hmeets
    rw [if_neg (by decide), if_pos (.inr ⟨rfl, hmax⟩)] at hmeets
    exact hmeets.2 hboth

theorem removes_at {d : Demand} (h : Removes limits d.seen) (fields : List (String × Value))
    (key : String) : Removes limits (d.at (limited F limits fields) key).seen := by
  have hseen : (d.at (limited F limits fields) key).seen =
      (inPlaceKeywords.contains key && (d.seen || asksLooked (limited F limits fields))) := by
    unfold Demand.at
    dsimp only
    split
    · rfl
    · split <;> rfl
  rw [hseen]
  rcases asksLooked_limited F h fields with hfalse | hnone
  · rw [hfalse, Bool.and_false]
    exact h.imp id fun hall => ⟨rfl, hall.2⟩
  · exact .inl hnone

theorem loosens_below {d : Demand} {fields : List (String × Value)}
    (h : Loosens F limits d (.object fields)) {key : String} {v : Value}
    (hlookup : (limited F limits fields).lookup key = some v) (hdefs : key ≠ "$defs")
    (hdefinitions : key ≠ "definitions") {w : Value} (hw : w ∈ visitedIn key v) :
    Loosens F limits (d.at (limited F limits fields) key) w :=
  fun fields' d' hreach => h fields' d'
    (.head ⟨fields, key, v, rfl, hlookup, hdefs, hdefinitions, hw, rfl⟩ hreach)

theorem visitedIn_of_subschemas {fields : List (String × Value)} {key : String}
    (hkey : isWalked key = true) {w : Value} (hw : w ∈ subschemas fields key) :
    (∃ v, fields.lookup key = some v ∧ w ∈ visitedIn key v) ∨ w.asObject? = none ∧
    ∃ b, w = .bool b := by
  unfold subschemas at hw
  cases hlookup : fields.lookup key with
  | none =>
    rw [hlookup] at hw
    cases hw
  | some v =>
    rw [hlookup] at hw
    cases v with
    | object entries =>
      refine .inl ⟨_, rfl, ?_⟩
      unfold visitedIn
      dsimp only at hw ⊢
      by_cases hmap : SCHEMA_MAPS.contains key = true
      · rw [if_pos hmap]
        rwa [show maps = SCHEMA_MAPS from rfl, if_pos hmap] at hw
      · rw [if_neg hmap]
        rw [show maps = SCHEMA_MAPS from rfl, if_neg hmap] at hw
        by_cases hlist : SCHEMA_LISTS.contains key = true
        · rw [show lists = SCHEMA_LISTS from rfl, if_pos hlist] at hw
          cases hw
        · rw [show lists = SCHEMA_LISTS from rfl, if_neg hlist] at hw
          have hvalue : SCHEMA_VALUES.contains key = true := by
            rw [isWalked, Bool.eq_false_iff.mpr hmap, Bool.eq_false_iff.mpr hlist] at hkey
            exact hkey
          rwa [if_pos hvalue]
    | array items =>
      refine .inl ⟨_, rfl, ?_⟩
      unfold visitedIn
      dsimp only at hw ⊢
      by_cases hmap : SCHEMA_MAPS.contains key = true
      · rw [show maps = SCHEMA_MAPS from rfl, if_pos hmap] at hw
        cases hw
      · rw [show maps = SCHEMA_MAPS from rfl, if_neg hmap] at hw
        have hlist : (SCHEMA_LISTS.contains key || SCHEMA_VALUES.contains key) = true := by
          rw [isWalked, Bool.eq_false_iff.mpr hmap] at hkey
          exact hkey
        rwa [if_pos hlist]
    | bool b => exact .inr (by rw [List.mem_singleton.mp hw]; exact ⟨rfl, b, rfl⟩)
    | _ => cases hw

theorem meets_narrowSchemaNode (h : Sound limits) (v : Value) : ∀ d : Demand,
    Removes limits d.seen → Loosens F limits d v →
    Meets d (denote V resolve v) (denote V resolve (narrowSchemaNode F limits v)) := by
  induction v using schema_induction with
  | hleaf v hv =>
    intro d _ _
    rw [narrowSchemaNode_leaf F hv]
    exact .refl d _
  | hobject fields ih =>
    intro d hremoves hloosens
    have hallowed : Allowed F limits d fields := hloosens fields d .refl
    have hbelow : ∀ key, isWalked key = true → key ≠ "$defs" → key ≠ "definitions" →
        ∀ w ∈ subschemas (limited F limits fields) key,
          Meets (d.at (limited F limits fields) key) (denote V resolve w)
            (denote V resolve (narrowSchemaNode F limits w)) := by
      intro key hwalked hdefs hdefinitions w hw
      rcases visitedIn_of_subschemas hwalked hw with ⟨x, hx, hvisited⟩ | ⟨hleaf, -⟩
      · obtain ⟨e', he', hw'⟩ := visitedIn_limited F (mem_of_lookup hx) hvisited
        exact ih e' he' w hw' _ (removes_at F hremoves fields key)
          (loosens_below F hloosens hx hdefs hdefinitions hvisited)
      · rw [narrowSchemaNode_leaf F hleaf]
        exact .refl _ _
    have hnarrowed : denote V resolve (narrowSchemaNode F limits (.object fields)) =
        (parts V (members (fun w => denote V resolve (narrowSchemaNode F limits w))
          (limited F limits fields))).outcome
          V resolve := by
      rw [narrowSchemaNode_object F h, denote_object]
      refine congrArg (Parts.outcome V resolve)
        (parts_forEachSubschema V _ _ (fun fields' => ?_) fun b => narrowSchemaNode_leaf F rfl)
      rw [narrowSchemaNode_object F h]
      rfl
    have hone := lookup_limited_oneOf F h fields
    rw [hnarrowed, denote_object]
    refine ⟨fun hup => ?_, fun hdown => ?_⟩
    · have htrimmed := trimmed_limited V F h (denote V resolve) hremoves hallowed hup
      refine (looser_of_trimmed V resolve htrimmed (fun hseen => by rw [hseen, Bool.true_or])
        fun hne => ?_).trans (looser_of_below V resolve (below_of_meets hup hone hbelow))
      rw [hne.elim (asksLooked_of_schemaAt _ (.inl rfl)) (asksLooked_of_schemaAt _ (.inr rfl)),
        Bool.or_true]
    · have hself := limited_of_settled F (hallowed.unchanged hdown)
      rw [hself] at hbelow hone ⊢
      refine looser_of_below V resolve
        (below_of_meets (d := d.swap) hdown hone fun key hw hd hd' w hmem => ?_)
      rw [← Demand.swap_at]
      exact (hbelow key hw hd hd' w hmem).swap

end Narrowing

end StructuredOutput
end Aisix
