import Aisix.JsonSchema.Pointer
import Aisix.StructuredOutput.InlineRefs
import Aisix.StructuredOutput.Loosen

/-!
# Aisix.StructuredOutput.RefMeaning

When a schema whose references are replaced still means what it meant (`inlineInternalRefs_spec`).
-/

namespace Aisix
namespace StructuredOutput

open Json JsonSchema

/-! ### The references the walk meets -/

mutual

/-- `P` holds of every reference the walk over the value meets. -/
def EveryRef (P : String → Prop) : Value → Prop
  | .array items => itemsEveryRef P items
  | .object fields =>
    match strField (.object fields) "$ref" with
    | some reference => P reference
    | none => fieldsEveryRef P fields
  | .null => True
  | .bool _ => True
  | .number _ => True
  | .string _ => True

def itemsEveryRef (P : String → Prop) : List Value → Prop
  | [] => True
  | v :: vs => EveryRef P v ∧ itemsEveryRef P vs

def fieldsEveryRef (P : String → Prop) : List (String × Value) → Prop
  | [] => True
  | (_, v) :: rest => EveryRef P v ∧ fieldsEveryRef P rest

end

/-- References name definitions, and chains of them are no longer than `left`; those `ok` may stay.
-/
def Chained (defs : Definitions) (ok : String → Prop) : Nat → Value → Prop
  | 0 => EveryRef ok
  | left + 1 => EveryRef fun reference =>
    ok reference ∨ ∃ name definition, definitionOf defs reference = some (name, definition) ∧
      Chained defs ok left definition

theorem itemsEveryRef_iff {P : String → Prop} {items : List Value} :
    itemsEveryRef P items ↔ ∀ v ∈ items, EveryRef P v := by
  induction items with
  | nil => exact ⟨fun _ => nofun, fun _ => trivial⟩
  | cons v vs ih => rw [itemsEveryRef, ih, List.forall_mem_cons]

theorem fieldsEveryRef_iff {P : String → Prop} {fields : List (String × Value)} :
    fieldsEveryRef P fields ↔ ∀ e ∈ fields, EveryRef P e.2 := by
  induction fields with
  | nil => exact ⟨fun _ => nofun, fun _ => trivial⟩
  | cons e rest ih =>
    obtain ⟨k, v⟩ := e
    rw [fieldsEveryRef, ih, List.forall_mem_cons]

mutual

theorem EveryRef.imp {P Q : String → Prop} (h : ∀ reference, P reference → Q reference) :
    ∀ v : Value, EveryRef P v → EveryRef Q v
  | .array items, hv => by
    rw [EveryRef] at hv ⊢
    exact itemsEveryRef.imp h items hv
  | .object fields, hv => by
    rw [EveryRef] at hv ⊢
    cases href : strField (.object fields) "$ref" with
    | some reference =>
      rw [href] at hv
      exact h reference hv
    | none =>
      rw [href] at hv
      exact fieldsEveryRef.imp h fields hv
  | .null, _ => trivial
  | .bool _, _ => trivial
  | .number _, _ => trivial
  | .string _, _ => trivial

theorem itemsEveryRef.imp {P Q : String → Prop} (h : ∀ reference, P reference → Q reference) :
    ∀ items : List Value, itemsEveryRef P items → itemsEveryRef Q items
  | [], _ => trivial
  | v :: vs, hvs => by
    rw [itemsEveryRef] at hvs ⊢
    exact ⟨EveryRef.imp h v hvs.1, itemsEveryRef.imp h vs hvs.2⟩

theorem fieldsEveryRef.imp {P Q : String → Prop} (h : ∀ reference, P reference → Q reference) :
    ∀ fields : List (String × Value), fieldsEveryRef P fields → fieldsEveryRef Q fields
  | [], _ => trivial
  | (k, v) :: rest, hvs => by
    rw [fieldsEveryRef] at hvs ⊢
    exact ⟨EveryRef.imp h v hvs.1, fieldsEveryRef.imp h rest hvs.2⟩

end

section Expand

variable (F : FloatText) {defs : Definitions} {expand : Option (Value → Expansion Value)}

theorem expandItems_value (items : List Value) :
    (expandItems F defs expand items).value = items.map fun v =>
    (expandAt F defs expand v).value := by
  induction items with
  | nil => rfl
  | cons v vs ih =>
    rw [expandItems, List.map_cons, ← ih]

theorem expandFields_value (fields : List (String × Value)) :
    (expandFields F defs expand fields).value = fields.map fun e =>
    (e.1, (expandAt F defs expand e.2).value) := by
  induction fields with
  | nil => rfl
  | cons e rest ih =>
    obtain ⟨k, v⟩ := e
    rw [expandFields, List.map_cons, ← ih]

theorem expandAt_array (items : List Value) :
    (expandAt F defs expand (.array items)).value =
    .array (items.map fun v => (expandAt F defs expand v).value) := by
  rw [expandAt, ← expandItems_value]

theorem expandAt_object {fields : List (String × Value)}
    (h : strField (.object fields) "$ref" = none) :
    (expandAt F defs expand (.object fields)).value =
      .object (fields.map fun e => (e.1, (expandAt F defs expand e.2).value)) := by
  rw [expandAt, h, ← expandFields_value]

/-- What a definition is replaced by is a schema. -/
def KeepsSchemas (defs : Definitions) (expand : Option (Value → Expansion Value)) : Prop :=
  ∀ g, expand = some g → ∀ e ∈ defs, isSchema (g e.2).value = true

theorem mem_of_definitionOf {reference name : String} {definition : Value}
    (h : definitionOf defs reference = some (name, definition)) : (name, definition) ∈ defs := by
  obtain ⟨name', -, hname⟩ := Option.bind_eq_some_iff.mp h
  obtain ⟨definition', hlookup, heq⟩ := Option.map_eq_some_iff.mp hname
  obtain ⟨rfl, rfl⟩ := Prod.mk.inj heq
  exact mem_of_lookup hlookup

theorem expandAt_ref {fields : List (String × Value)} {reference : String}
    (h : strField (.object fields) "$ref" = some reference) :
    (expandAt F defs expand (.object fields)).value = .object fields ∨
    ∃ g name definition, expand = some g ∧
      definitionOf defs reference = some (name, definition) ∧
        (expandAt F defs expand (.object fields)).value = (g definition).value := by
  rw [expandAt, h]
  dsimp only
  cases definitionOf defs reference with
  | none => exact .inl rfl
  | some found =>
    cases expand with
    | none => exact .inl rfl
    | some g => exact .inr ⟨g, found.1, found.2, rfl, rfl, rfl⟩

theorem isSchema_expandAt (hkeeps : KeepsSchemas defs expand) {v : Value} (h : isSchema v = true) :
    isSchema (expandAt F defs expand v).value = true := by
  cases v with
  | object fields =>
    cases href : strField (.object fields) "$ref" with
    | none =>
      rw [expandAt_object F href]
      rfl
    | some reference =>
      rcases expandAt_ref F href with heq | ⟨g, name, definition, hg, hdefinition, heq⟩
      · rw [heq]
        rfl
      · rw [heq]
        exact hkeeps g hg _ (mem_of_definitionOf hdefinition)
  | bool b => rfl
  | _ => cases h

theorem asStr_expandAt (hkeeps : KeepsSchemas defs expand) (v : Value) :
    (expandAt F defs expand v).value.asStr? = v.asStr? := by
  cases v with
  | object fields =>
    have hschema := isSchema_expandAt F hkeeps (v := .object fields) rfl
    cases hvalue : (expandAt F defs expand (.object fields)).value with
    | string s =>
      rw [hvalue] at hschema
      cases hschema
    | _ => rfl
  | array items =>
    rw [expandAt_array]
    rfl
  | _ => rfl

theorem strField_expandAt (hkeeps : KeepsSchemas defs expand) (fields : List (String × Value))
    (key : String) :
    strField (.object (fields.map fun e => (e.1, (expandAt F defs expand e.2).value))) key =
      strField (.object fields) key := by
  unfold strField
  rw [show Value.object (fields.map fun e => (e.1, (expandAt F defs expand e.2).value)) =
    (Value.object fields).mapFields fun _ v => (expandAt F defs expand v).value from rfl,
    Value.get_mapFields]
  cases (Value.object fields).get key with
  | none => rfl
  | some v => exact asStr_expandAt F hkeeps v

section Remaining

variable {P Q : String → Prop}

/-- What remains in the place of each reference. -/
def RefsBecome (F : FloatText) (defs : Definitions) (expand : Option (Value → Expansion Value))
    (P Q : String → Prop) :
    Prop :=
  ∀ fields reference, strField (.object fields) "$ref" = some reference → P reference →
    EveryRef Q (expandAt F defs expand (.object fields)).value

mutual

theorem everyRef_expandAt (hkeeps : KeepsSchemas defs expand) (h : RefsBecome F defs expand P Q) :
    ∀ v : Value, EveryRef P v → EveryRef Q (expandAt F defs expand v).value
  | .array items, hv => by
    rw [EveryRef] at hv
    rw [expandAt, EveryRef]
    exact everyRef_expandItems hkeeps h items hv
  | .object fields, hv => by
    rw [EveryRef] at hv
    cases href : strField (.object fields) "$ref" with
    | some reference =>
      rw [href] at hv
      exact h fields reference href hv
    | none =>
      rw [href] at hv
      rw [expandAt_object F href, EveryRef, strField_expandAt F hkeeps, href, ← expandFields_value]
      exact everyRef_expandFields hkeeps h fields hv
  | .null, _ => trivial
  | .bool _, _ => trivial
  | .number _, _ => trivial
  | .string _, _ => trivial

theorem everyRef_expandItems (hkeeps : KeepsSchemas defs expand)
    (h : RefsBecome F defs expand P Q) : ∀ items : List Value,
    itemsEveryRef P items → itemsEveryRef Q (expandItems F defs expand items).value
  | [], _ => trivial
  | v :: vs, hvs => by
    rw [itemsEveryRef] at hvs
    rw [expandItems, itemsEveryRef]
    exact ⟨everyRef_expandAt hkeeps h v hvs.1, everyRef_expandItems hkeeps h vs hvs.2⟩

theorem everyRef_expandFields (hkeeps : KeepsSchemas defs expand)
    (h : RefsBecome F defs expand P Q) :
    ∀ fields : List (String × Value), fieldsEveryRef P fields →
      fieldsEveryRef Q (expandFields F defs expand fields).value
  | [], _ => trivial
  | (k, v) :: rest, hvs => by
    rw [fieldsEveryRef] at hvs
    rw [expandFields, fieldsEveryRef]
    exact ⟨everyRef_expandAt hkeeps h v hvs.1, everyRef_expandFields hkeeps h rest hvs.2⟩

end

end Remaining

end Expand

theorem keepsSchemas_expandRefs (F : FloatText) {defs : Definitions}
    (hdefs : ∀ e ∈ defs, isSchema e.2 = true) (left : Nat) :
    ∀ e ∈ defs, isSchema (expandRefs F defs left e.2).value = true := by
  induction left with
  | zero => exact fun e he => isSchema_expandAt F (fun g hg => by cases hg) (hdefs e he)
  | succ left ih =>
    refine fun e he => isSchema_expandAt F (fun g hg => ?_) (hdefs e he)
    obtain rfl := Option.some.inj hg
    exact ih

theorem everyRef_expandRefs (F : FloatText) {defs : Definitions}
    (hdefs : ∀ e ∈ defs, isSchema e.2 = true) {ok : String → Prop}
    (hok : ∀ reference, ok reference → definitionOf defs reference = none) (left : Nat) {v : Value}
    (h : Chained defs ok left v) : EveryRef ok (expandRefs F defs left v).value := by
  have hstays :
      ∀ {expand : Option (Value → Expansion Value)} {fields : List (String × Value)}
      {reference : String}, strField (.object fields) "$ref" = some reference → ok reference →
        EveryRef ok (expandAt F defs expand (.object fields)).value := by
    intro expand fields reference href hreference
    have hsame : (expandAt F defs expand (.object fields)).value = .object fields := by
      refine (expandAt_ref F href).resolve_right fun ⟨g, name, definition, _, hdefinition, _⟩ => ?_
      rw [hok reference hreference] at hdefinition
      cases hdefinition
    rw [hsame, EveryRef, href]
    exact hreference
  induction left generalizing v with
  | zero => exact everyRef_expandAt F (fun g hg => by cases hg) (fun fields reference => hstays) v h
  | succ left ih =>
    refine everyRef_expandAt F (fun g hg => ?_) (fun fields reference href hchain => ?_) v h
    · obtain rfl := Option.some.inj hg
      exact keepsSchemas_expandRefs F hdefs left
    · rcases hchain with hreference | ⟨name, definition, hdefinition, hchained⟩
      · exact hstays href hreference
      · rw [expandAt, href]
        dsimp only
        rw [hdefinition]
        exact ih hchained

mutual

theorem noRefs_of_everyRef : ∀ v : Value, EveryRef (fun _ => False) v → NoRefs v
  | .array items, h => by
    rw [EveryRef] at h
    rw [NoRefs]
    exact itemsNoRefs_of_everyRef items h
  | .object fields, h => by
    rw [EveryRef] at h
    rw [NoRefs]
    cases href : strField (.object fields) "$ref" with
    | some reference =>
      rw [href] at h
      exact h.elim
    | none =>
      rw [href] at h
      exact ⟨rfl, fieldsNoRefs_of_everyRef fields h⟩
  | .null, _ => trivial
  | .bool _, _ => trivial
  | .number _, _ => trivial
  | .string _, _ => trivial

theorem itemsNoRefs_of_everyRef : ∀ items : List Value,
    itemsEveryRef (fun _ => False) items → itemsNoRefs items
  | [], _ => trivial
  | v :: vs, h => by
    rw [itemsEveryRef] at h
    rw [itemsNoRefs]
    exact ⟨noRefs_of_everyRef v h.1, itemsNoRefs_of_everyRef vs h.2⟩

theorem fieldsNoRefs_of_everyRef : ∀ fields : List (String × Value),
    fieldsEveryRef (fun _ => False) fields → fieldsNoRefs fields
  | [], _ => trivial
  | (k, v) :: rest, h => by
    rw [fieldsEveryRef] at h
    rw [fieldsNoRefs]
    exact ⟨noRefs_of_everyRef v h.1, fieldsNoRefs_of_everyRef rest h.2⟩

end

theorem everyRef_withoutBlocks {P : String → Prop} {v : Value} (h : EveryRef P v) :
    EveryRef P (withoutBlocks v) := by
  cases v with
  | object fields =>
    have hfield : strField (.object (remove "definitions" (remove "$defs" fields))) "$ref" =
        strField (.object fields) "$ref" :=
      congrArg (Option.bind · Value.asStr?) (lookup_withoutBlocks (by decide) (by decide))
    rw [EveryRef] at h
    rw [withoutBlocks, EveryRef, hfield]
    cases href : strField (.object fields) "$ref" with
    | some reference =>
      rw [href] at h
      exact h
    | none =>
      rw [href] at h
      exact fieldsEveryRef_iff.mpr fun e he => fieldsEveryRef_iff.mp h e
        (mem_remove (mem_remove he))
  | _ => exact h

/-! ### The pointer that names a definition -/

theorem internalRefName_eq_some {reference name : String}
    (h : internalRefName reference = some name) : ∃ block ∈ ["$defs", "definitions"],
    ∃ key : String, '/' ∉ key.toList ∧
      reference.toList = '#' :: '/' :: name.toList ∧ name = block ++ "/" ++ key := by
  obtain ⟨path, hpath, hrest⟩ := Option.bind_eq_some_iff.mp h
  obtain ⟨parts, hparts, hname⟩ := Option.bind_eq_some_iff.mp hrest
  split at hname
  · next hok =>
    obtain ⟨hblock, -, hslash⟩ := hok
    obtain rfl := Option.some.inj hname
    have hsplit := Mcp.splitOnce_eq_some hparts
    have hkey : '/' ∉ (String.ofList parts.2).toList := by rwa [String.toList_ofList]
    have heq : ∀ block : String, parts.1 = block.toList →
        String.ofList path = block ++ "/" ++ String.ofList parts.2 := by
      intro block hfirst
      refine String.toList_injective ?_
      have hkeyList : (String.ofList parts.2).toList = parts.2 := String.toList_ofList
      rw [String.toList_append, String.toList_append, hkeyList,
        String.toList_ofList, hsplit, hfirst]
      rfl
    have href : reference.toList = '#' :: '/' :: (String.ofList path).toList := by
      rw [String.toList_ofList]
      exact Mcp.stripPrefix_eq_some.mp hpath
    rcases hblock with hblock | hblock
    · exact ⟨"$defs", by decide, _, hkey, href, heq _ hblock⟩
    · exact ⟨"definitions", by decide, _, hkey, href, heq _ hblock⟩
  · cases hname

theorem lookup_map_key {block : String} (entries : List (String × Value)) (key : String) :
    (entries.map fun e => (block ++ "/" ++ e.1, e.2)).lookup (block ++ "/" ++ key) =
    entries.lookup key := by
  induction entries with
  | nil => rfl
  | cons e rest ih =>
    obtain ⟨k, v⟩ := e
    have hbeq : (block ++ "/" ++ key == block ++ "/" ++ k) = (key == k) := by
      refine Bool.eq_iff_iff.mpr ?_
      rw [beq_iff_eq, beq_iff_eq]
      exact ⟨fun h => String.append_right_inj _ |>.mp h, fun h => by rw [h]⟩
    rw [List.map_cons, List.lookup_cons, List.lookup_cons, hbeq, ih]

theorem lookup_map_other {block other : String}
    (h : ∀ k k' : String, block ++ "/" ++ k ≠ other ++ "/" ++ k')
    (entries : List (String × Value)) (key : String) :
    (entries.map fun e => (other ++ "/" ++ e.1, e.2)).lookup (block ++ "/" ++ key) = none := by
  refine List.lookup_eq_none_iff.mpr fun e he => ?_
  obtain ⟨e', -, rfl⟩ := List.mem_map.mp he
  exact bne_iff_ne.mpr (h key e'.1)

theorem blocks_apart (k k' : String) : "$defs" ++ "/" ++ k ≠ "definitions" ++ "/" ++ k' := by
  intro h
  have hlist := congrArg String.toList h
  rw [String.toList_append, String.toList_append, String.toList_append,
    String.toList_append] at hlist
  exact absurd (show some '$' = some 'd' from congrArg List.head? hlist) (by decide)

theorem lookup_allDefinitions {schema : Value} {block key : String} {definition : Value}
    (hblock : block ∈ ["$defs", "definitions"])
    (h : (allDefinitions schema).lookup (block ++ "/" ++ key) = some definition) :
    ∃ entries, schema.get block = some (.object entries) ∧
      entries.lookup key = some definition := by
  have hown : (definitionsOf block schema).lookup (block ++ "/" ++ key) = some definition := by
    unfold allDefinitions at h
    rw [List.lookup_append] at h
    simp only [List.mem_cons, List.not_mem_nil, or_false] at hblock
    rcases hblock with rfl | rfl
    · have hother : (definitionsOf "definitions" schema).lookup ("$defs" ++ "/" ++ key) = none := by
        unfold definitionsOf
        split
        · exact lookup_map_other blocks_apart _ key
        · rfl
      rwa [hother, Option.or_none] at h
    · have hother : (definitionsOf "$defs" schema).lookup ("definitions" ++ "/" ++ key) = none := by
        unfold definitionsOf
        split
        · exact lookup_map_other (fun k k' heq => blocks_apart k' k heq.symm) _ key
        · rfl
      rwa [hother, Option.none_or] at h
  unfold definitionsOf at hown
  split at hown
  · next entries hentries =>
    rw [lookup_map_key] at hown
    exact ⟨entries, hentries, hown⟩
  · cases hown

theorem pointed_of_definitionOf {schema : Value} {reference name : String} {definition : Value}
    (h : definitionOf (allDefinitions schema) reference = some (name, definition))
    (hescape : '~' ∉ name.toList) :
    pointed schema reference = some definition ∧ Position schema definition := by
  obtain ⟨name', hname, hfound⟩ := Option.bind_eq_some_iff.mp h
  obtain ⟨definition', hlookup, heq⟩ := Option.map_eq_some_iff.mp hfound
  obtain ⟨rfl, rfl⟩ := Prod.mk.inj heq
  obtain ⟨block, hblock, key, hslash, href, rfl⟩ := internalRefName_eq_some hname
  obtain ⟨entries, hentries, hentry⟩ := lookup_allDefinitions hblock hlookup
  have hpath : (block ++ "/" ++ key).toList = block.toList ++ '/' :: key.toList := by
    rw [String.toList_append, String.toList_append, List.append_assoc]
    rfl
  have hblockSlash : '/' ∉ block.toList := by
    simp only [List.mem_cons, List.not_mem_nil, or_false] at hblock
    rcases hblock with rfl | rfl <;> decide
  rw [hpath] at hescape
  have hkeyEscape : '~' ∉ key.toList :=
    fun hmem => hescape (List.mem_append_right _ (List.mem_cons_of_mem _ hmem))
  have hblockEscape : '~' ∉ block.toList := fun hmem => hescape (List.mem_append_left _ hmem)
  cases schema with
  | object fields =>
    refine ⟨?_, .single ⟨fields, rfl, (block, .object entries), mem_of_lookup hentries, ?_⟩⟩
    · unfold pointed
      rw [href, hpath]
      change descend (.object fields) (((block.toList ++ '/' :: key.toList).splitOn '/').map
        fun segment => String.ofList (unescape segment)) = _
      rw [List.splitOn_append_cons_self_of_not_mem hblockSlash, List.splitOn_eq_singleton hslash]
      rw [List.map_cons, List.map_singleton, unescape_of_notMem hblockEscape,
        unescape_of_notMem hkeyEscape, String.ofList_toList, String.ofList_toList, descend]
      rw [show fields.lookup block = some (.object entries) from hentries, Option.bind_some,
        descend, hentry]
      rfl
    · have hmap : SCHEMA_MAPS.contains block = true := by
        simp only [List.mem_cons, List.not_mem_nil, or_false] at hblock
        rcases hblock with rfl | rfl <;> decide
      unfold visitedIn
      dsimp only
      rw [if_pos hmap]
      exact List.mem_map_of_mem (mem_of_lookup hentry)
  | _ => cases hentries

/-! ### Meaning -/

/-- Outside the schemas of a member there are no references. -/
def Shaped (key : String) (v : Value) : Prop :=
  match v with
  | .object _ =>
    if SCHEMA_MAPS.contains key then strField v "$ref" = none
    else SCHEMA_VALUES.contains key = true ∨ NoRefs v
  | .array _ => (SCHEMA_LISTS.contains key || SCHEMA_VALUES.contains key) = true ∨ NoRefs v
  | _ => True

/-- References stand alone and where schemas stand, and definitions are schemas under names without
escapes. -/
structure Plain (schema : Value) : Prop where
  alone : ∀ fields, Position schema (.object fields) → strField (.object fields) "$ref" ≠ none →
    ∀ e ∈ fields, e.1 ∈ inert
  shaped : ∀ fields, Position schema (.object fields) → strField (.object fields) "$ref" = none →
    ∀ e ∈ fields, Shaped e.1 e.2
  schemas : ∀ e ∈ allDefinitions schema, isSchema e.2 = true
  unescaped : ∀ e ∈ allDefinitions schema, '~' ∉ e.1.toList

section Meaning

variable (F : FloatText) {defs : Definitions} {expand : Option (Value → Expansion Value)}

theorem visited_expandAt {key : String} {v : Value} (h : Shaped key v) :
    visited key (Views.of (fun w => (expandAt F defs expand w).value) v) =
      (expandAt F defs expand v).value := by
  unfold visited Views.of entriesOf itemsOf
  cases v with
  | object entries =>
    unfold Shaped at h
    dsimp only at h ⊢
    by_cases hmap : SCHEMA_MAPS.contains key = true
    · rw [if_pos hmap] at h
      rw [if_pos hmap, expandAt_object F h]
    · rw [if_neg hmap] at h
      rw [if_neg hmap]
      by_cases hvalue : SCHEMA_VALUES.contains key = true
      · rw [if_pos hvalue]
      · rw [if_neg hvalue, expandAt_of_noRefs F defs expand _ (h.resolve_left hvalue)]
  | array items =>
    unfold Shaped at h
    dsimp only at h ⊢
    by_cases hlist : (SCHEMA_LISTS.contains key || SCHEMA_VALUES.contains key) = true
    · rw [if_pos hlist, expandAt_array]
    · rw [if_neg hlist, expandAt_of_noRefs F defs expand _ (h.resolve_left hlist)]
  | _ => rfl

theorem everyRef_visitedIn {P : String → Prop} {key : String} {v : Value} (hshaped : Shaped key v)
    (h : EveryRef P v) {w : Value} (hw : w ∈ visitedIn key v) : EveryRef P w := by
  unfold visitedIn at hw
  cases v with
  | object entries =>
    unfold Shaped at hshaped
    dsimp only at hw hshaped
    by_cases hmap : SCHEMA_MAPS.contains key = true
    · rw [if_pos hmap] at hw hshaped
      obtain ⟨e, he, rfl⟩ := List.mem_map.mp hw
      rw [EveryRef, hshaped] at h
      exact fieldsEveryRef_iff.mp h e he
    · rw [if_neg hmap] at hw
      split at hw
      · rwa [List.mem_singleton.mp hw]
      · cases hw
  | array items =>
    dsimp only at hw
    split at hw
    · rw [EveryRef] at h
      exact itemsEveryRef_iff.mp h w hw
    · cases hw
  | _ => cases hw

theorem denote_expandAt (V : Vocabulary) {resolve resolve' : String → Sem} {schema : Value}
    (hplain : Plain schema) (hkeeps : KeepsSchemas defs expand) {P : String → Prop}
    (hfollow : ∀ fields reference, Position schema (.object fields) →
      strField (.object fields) "$ref" = some reference → P reference →
        denote V resolve' (expandAt F defs expand (.object fields)).value =
          denote V resolve (.object fields)) (w : Value) :
    Position schema w → EveryRef P w →
      denote V resolve' (expandAt F defs expand w).value = denote V resolve w := by
  induction w using schema_induction with
  | hleaf v hv =>
    intro _ _
    cases v with
    | object fields => cases hv
    | array items =>
      rw [expandAt_array]
      rfl
    | _ => rfl
  | hobject fields ih =>
    intro hposition hrefs
    rw [EveryRef] at hrefs
    cases href : strField (.object fields) "$ref" with
    | some reference =>
      rw [href] at hrefs
      exact hfollow fields reference hposition href hrefs
    | none =>
      rw [href] at hrefs
      have hshaped := hplain.shaped fields hposition href
      have hvisited : fields.map (fun e => (e.1, (expandAt F defs expand e.2).value)) =
          forEachSubschema (fun w => (expandAt F defs expand w).value) fields := by
        rw [forEachSubschema_eq]
        exact List.map_congr_left fun e he => by rw [visited_expandAt F (hshaped e he)]
      have hparts :
          parts V (members (fun w => denote V resolve' (expandAt F defs expand w).value) fields) =
          parts V (members (denote V resolve) fields) := by
        refine parts_congr V fun key hkey w hw => ?_
        have hwalked : isWalked key = true := by
          have hall : ∀ key ∈ applicators, isWalked key = true := by decide
          exact hall key hkey
        rcases visitedIn_of_subschemas hwalked hw with ⟨v, hv, hin⟩ | ⟨-, b, rfl⟩
        · have hmem := mem_of_lookup hv
          refine ih (key, v) hmem w hin (hposition.tail ⟨fields, rfl, (key, v), hmem, hin⟩) ?_
          exact everyRef_visitedIn (hshaped (key, v) hmem)
            (fieldsEveryRef_iff.mp hrefs (key, v) hmem) hin
        · rfl
      have hnone : (parts V (members (denote V resolve) fields)).ref = none := by
        unfold parts
        dsimp only
        rw [lookup_members]
        unfold strField at href
        change (fields.lookup "$ref").bind Value.asStr? = none at href
        cases hlookup : fields.lookup "$ref" with
        | none => rfl
        | some v =>
          rw [hlookup] at href
          exact href
      rw [expandAt_object F href, hvisited, denote_object, denote_object,
        parts_forEachSubschema V _ _ (fun fields' => isSchema_expandAt F hkeeps rfl) fun b => rfl,
        hparts]
      exact outcome_of_ref_none V hnone resolve' resolve

end Meaning

/-- A reference to another document. -/
def Outside (reference : String) : Prop := reference.toList.head? ≠ some '#'

theorem internalRefName_of_outside {reference : String} (h : Outside reference) :
    internalRefName reference = none := by
  cases hname : internalRefName reference with
  | none => rfl
  | some name =>
    obtain ⟨block, -, key, -, href, -⟩ := internalRefName_eq_some hname
    exact absurd (by rw [href]; rfl) h

theorem pointed_of_outside {reference : String} (h : Outside reference) (root : Value) :
    pointed root reference = none := by
  unfold pointed
  split
  · next hlist => exact absurd (by rw [hlist]; rfl) h
  · next path hlist => exact absurd (by rw [hlist]; rfl) h
  · rfl

section Meaning

variable (F : FloatText) (V : Vocabulary) (outside : String → Sem)

theorem expandAt_outside {defs : Definitions} {expand : Option (Value → Expansion Value)}
    {fields : List (String × Value)} {reference : String}
    (href : strField (.object fields) "$ref" = some reference)
    (h : Outside reference) : (expandAt F defs expand (.object fields)).value = .object fields := by
  refine (expandAt_ref F href).resolve_right fun ⟨g, name, definition, _, hdefinition, _⟩ => ?_
  rw [definitionOf, internalRefName_of_outside h] at hdefinition
  cases hdefinition

/-- With its references replaced a schema means what it means in its own document. -/
theorem denote_expandRefs {schema : Value} (hplain : Plain schema) (root : Value) (depth : Nat) :
    ∀ (left : Nat) (w : Value) (fuel : Nat), left ≤ fuel → Position schema w →
      Chained (allDefinitions schema) Outside left w →
        denote V (resolveIn V outside root depth)
          (expandRefs F (allDefinitions schema) left w).value =
          denote V (resolveIn V outside schema fuel) w := by
  have hsame :
      ∀ {expand : Option (Value → Expansion Value)} {fields : List (String × Value)}
      {reference : String} (fuel : Nat), Position schema (.object fields) →
      strField (.object fields) "$ref" = some reference →
        Outside reference →
          denote V (resolveIn V outside root depth)
            (expandAt F (allDefinitions schema) expand (.object fields)).value =
            denote V (resolveIn V outside schema fuel) (.object fields) := by
    intro expand fields reference fuel hposition href hout
    have halone := hplain.alone fields hposition (by rw [href]; nofun)
    rw [expandAt_outside F href hout, denote_of_ref V _ href halone, denote_of_ref V _ href halone,
      resolveIn_of_outside V outside root (pointed_of_outside hout root),
      resolveIn_of_outside V outside schema (pointed_of_outside hout schema)]
  intro left
  induction left with
  | zero =>
    intro w fuel _ hposition hchained
    refine denote_expandAt F V hplain (fun g hg => by cases hg)
      (fun fields reference hat href hout => ?_) w hposition hchained
    exact hsame fuel hat href hout
  | succ left ih =>
    intro w fuel hfuel hposition hchained
    refine denote_expandAt F V hplain (fun g hg => ?_) (fun fields reference hat href hok => ?_) w
      hposition hchained
    · obtain rfl := Option.some.inj hg
      exact keepsSchemas_expandRefs F hplain.schemas left
    · rcases hok with hout | ⟨name, definition, hdefinition, hchain⟩
      · exact hsame fuel hat href hout
      · obtain ⟨fuel, rfl⟩ :=
          Nat.exists_eq_add_of_le' (Nat.lt_of_lt_of_le (Nat.succ_pos left) hfuel)
        have hmem := mem_of_definitionOf hdefinition
        obtain ⟨hpointed, hdefined⟩ := pointed_of_definitionOf hdefinition (hplain.unescaped _ hmem)
        rw [denote_of_ref V _ href (hplain.alone fields hat (by rw [href]; nofun)),
          resolveIn, hpointed]
        dsimp only
        rw [← ih definition fuel (by omega) hdefined hchain, expandAt, href]
        dsimp only
        rw [hdefinition]

end Meaning

/-- The definitions spliced in, and their bytes, fit. -/
def WithinBudget (F : FloatText) (schema : Value) : Prop :=
  let r := expandRefs F (allDefinitions schema) MAX_REF_DEPTH schema
  r.expansions ≤ MAX_REF_EXPANSIONS ∧ r.bytes ≤ MAX_REF_BYTES

theorem inlineInternalRefs_of_withinBudget (F : FloatText) {schema : Value}
    (hsome : allDefinitions schema ≠ []) (hbudget : WithinBudget F schema) :
    inlineInternalRefs F schema =
      withoutBlocks (expandRefs F (allDefinitions schema) MAX_REF_DEPTH schema).value := by
  rw [inlineInternalRefs_eq]
  exact if_neg fun hor => hor.elim (fun hempty => hsome (List.isEmpty_iff.mp hempty))
    fun hnot => hnot hbudget

theorem withinBudget_of_le {F : FloatText} {schema : Value} {expansions : Nat}
    (hexpansions : (expandRefs F (allDefinitions schema) MAX_REF_DEPTH schema).expansions =
      expansions)
    (hfew : expansions ≤ 10)
    (hbytes : (expandRefs F (allDefinitions schema) MAX_REF_DEPTH schema).bytes ≤ 1000) :
    WithinBudget F schema := by
  unfold WithinBudget MAX_REF_EXPANSIONS MAX_REF_BYTES
  dsimp only
  omega

theorem everyRef_inlineInternalRefs (F : FloatText) {schema : Value}
    (hdefs : ∀ e ∈ allDefinitions schema, isSchema e.2 = true) {ok : String → Prop}
    (hok : ∀ reference, ok reference → internalRefName reference = none)
    (hchained : Chained (allDefinitions schema) ok MAX_REF_DEPTH schema)
    (hbudget : WithinBudget F schema) :
    EveryRef ok (inlineInternalRefs F schema) := by
  have hexpanded :=
    everyRef_expandRefs F hdefs (fun reference h => by rw [definitionOf, hok reference h]; rfl)
    MAX_REF_DEPTH hchained
  rw [inlineInternalRefs_eq]
  dsimp only
  split
  · next hor =>
    have hnone : allDefinitions schema = [] :=
      List.isEmpty_iff.mp (hor.resolve_right fun hnot => hnot hbudget)
    refine EveryRef.imp (fun reference hreference => ?_) schema hchained
    refine hreference.resolve_right fun ⟨name, definition, hdefinition, _⟩ => ?_
    have hmem := mem_of_definitionOf hdefinition
    rw [hnone] at hmem
    cases hmem
  · exact everyRef_withoutBlocks hexpanded

/-- All references are replaced or none; what is left of short chains of them is none; and where
they stand alone, and where schemas stand, the schema keeps its meaning. -/
theorem inlineInternalRefs_spec (F : FloatText) (schema : Value) :
    (inlineInternalRefs F schema = schema ∨
        inlineInternalRefs F schema =
          withoutBlocks (expandRefs F (allDefinitions schema) MAX_REF_DEPTH schema).value) ∧
      ((∀ e ∈ allDefinitions schema, isSchema e.2 = true) → WithinBudget F schema →
        (Chained (allDefinitions schema) (fun _ => False) MAX_REF_DEPTH schema →
          NoRefs (inlineInternalRefs F schema)) ∧
          (Chained (allDefinitions schema) Outside MAX_REF_DEPTH schema →
            EveryRef Outside (inlineInternalRefs F schema))) ∧
      (Plain schema → Chained (allDefinitions schema) Outside MAX_REF_DEPTH schema →
        ∀ V outside fuel, MAX_REF_DEPTH ≤ fuel → ∀ doc,
          denote V (resolveIn V outside (inlineInternalRefs F schema) fuel)
            (inlineInternalRefs F schema) doc =
            denote V (resolveIn V outside schema fuel) schema doc) := by
  refine ⟨?_, fun hdefs hbudget => ⟨fun hchained => ?_, fun hchained => ?_⟩,
    fun hplain hchained V outside fuel hfuel doc => ?_⟩
  · rw [inlineInternalRefs_eq]
    dsimp only
    split
    · exact .inl rfl
    · exact .inr rfl
  · exact noRefs_of_everyRef _
      (everyRef_inlineInternalRefs F hdefs (fun _ hfalse => hfalse.elim) hchained hbudget)
  · exact everyRef_inlineInternalRefs F hdefs (fun _ => internalRefName_of_outside) hchained hbudget
  · rw [inlineInternalRefs_eq]
    dsimp only
    split
    · rfl
    · rw [denote_withoutBlocks,
        denote_expandRefs F V outside hplain _ fuel MAX_REF_DEPTH schema fuel hfuel .refl hchained]

def shortName : Value := .object [("minLength", .number (.posInt 3))]

def toShortName : Value := .object [("$ref", .string "#/$defs/Name")]

/-- A property that refers to a definition. -/
def sharedName : Value :=
  .object [("$defs", .object [("Name", shortName)]), ("properties", .object [("a", toShortName)])]

theorem position_sharedName {w : Value} (h : Position sharedName w) :
    w = sharedName ∨ w = shortName ∨ w = toShortName := by
  induction h with
  | refl => exact .inl rfl
  | tail _ hstep ih =>
    obtain ⟨fields, hfields, e, he, hw⟩ := hstep
    rcases ih with rfl | rfl | rfl <;> obtain rfl := Value.object.inj hfields
    · rcases List.mem_cons.mp he with rfl | he
      · exact .inr (.inl (List.mem_singleton.mp hw))
      · obtain rfl := List.mem_singleton.mp he
        exact .inr (.inr (List.mem_singleton.mp hw))
    · obtain rfl := List.mem_singleton.mp he
      cases hw
    · obtain rfl := List.mem_singleton.mp he
      cases hw

theorem plain_sharedName : Plain sharedName := by
  refine ⟨fun fields hat href e he => ?_, fun fields hat href e he => ?_, ?_, ?_⟩
  · rcases position_sharedName hat with heq | heq | heq <;> obtain rfl := Value.object.inj heq
    · exact absurd rfl href
    · exact absurd rfl href
    · rw [List.mem_singleton.mp he]
      decide
  · rcases position_sharedName hat with heq | heq | heq <;> obtain rfl := Value.object.inj heq
    · rcases List.mem_cons.mp he with rfl | he
      · exact rfl
      · rw [List.mem_singleton.mp he]
        exact rfl
    · rw [List.mem_singleton.mp he]
      trivial
    · cases href
  · exact List.forall_mem_singleton.mpr rfl
  · exact List.forall_mem_singleton.mpr (by decide)

theorem chained_sharedName {ok : String → Prop} :
    Chained (allDefinitions sharedName) ok MAX_REF_DEPTH sharedName :=
  ⟨⟨⟨trivial, trivial⟩, trivial⟩, ⟨.inr ⟨"$defs/Name", shortName, rfl, trivial, trivial⟩, trivial⟩,
    trivial⟩

theorem withinBudget_sharedName : WithinBudget bitsText sharedName :=
  withinBudget_of_le rfl (by decide) (by decide)

-- Keeps the elaborator from running the whole expansion.
attribute [local irreducible] inlineInternalRefs

theorem inlineInternalRefs_sharedName :
    NoRefs (inlineInternalRefs bitsText sharedName) ∧
      ∀ doc,
        denote lengths
        (resolveIn lengths (fun _ _ => .pass)
          (inlineInternalRefs bitsText sharedName) MAX_REF_DEPTH)
          (inlineInternalRefs bitsText sharedName) doc =
        denote lengths (resolveIn lengths (fun _ _ => .pass) sharedName MAX_REF_DEPTH)
          sharedName doc := by
  obtain ⟨-, hremain, hmeaning⟩ := inlineInternalRefs_spec bitsText sharedName
  obtain ⟨hnone, -⟩ := hremain plain_sharedName.schemas withinBudget_sharedName
  exact ⟨hnone chained_sharedName,
    fun doc => hmeaning plain_sharedName chained_sharedName lengths (fun _ _ => .pass) MAX_REF_DEPTH
      (Nat.le_refl _) doc⟩

def toNode : Value := .object [("$ref", .string "#/$defs/Node")]

/-- A node of a list, so many nodes before the reference. -/
def unrolled : Nat → Value
  | 0 => toNode
  | n + 1 => .object [("properties", .object [("child", unrolled n)])]

theorem ref_of_unrolled {P : String → Prop} {n : Nat} (h : EveryRef P (unrolled n)) :
    P "#/$defs/Node" := by
  induction n with
  | zero => exact h
  | succ n ih => exact ih h.1.1

/-- A definition that refers to itself. -/
def recursiveRef : Value :=
  .object [("$ref", .string "#/$defs/Node"), ("$defs", .object [("Node", unrolled 1)])]

theorem inlineInternalRefs_recursiveRef :
    inlineInternalRefs bitsText recursiveRef = unrolled MAX_REF_DEPTH :=
  inlineInternalRefs_of_withinBudget bitsText (by nofun)
    (withinBudget_of_le rfl (by decide) (by decide +kernel))

/-- Past the greatest depth the reference stays, and its definition goes. -/
theorem recursiveRef_dangles :
    inlineInternalRefs bitsText recursiveRef = unrolled MAX_REF_DEPTH ∧
      ¬ EveryRef (fun reference => pointed recursiveRef reference = none)
        (inlineInternalRefs bitsText recursiveRef) ∧
      pointed recursiveRef "#/$defs/Node" = some (unrolled 1) ∧
      pointed (inlineInternalRefs bitsText recursiveRef) "#/$defs/Node" = none := by
  rw [inlineInternalRefs_recursiveRef]
  refine ⟨rfl, fun hevery => ?_, rfl, rfl⟩
  have hleft := ref_of_unrolled hevery
  cases hleft

end StructuredOutput
end Aisix
