import Aisix.StructuredOutput.InlineRefs
import Aisix.StructuredOutput.Loosen

/-!
# Aisix.StructuredOutput.Limits

What a schema without references becomes under either set of limits (`applySchemaLimits_spec`).
-/

namespace Aisix
namespace StructuredOutput

open Json JsonSchema

/-- The schema the walk over the nodes starts from, when there are no references. -/
def walkedFrom (limits : SchemaLimits) (schema : Value) : Value :=
  if limits.inlineInternalRefs ∧
    (allDefinitions schema).isEmpty = false then withoutBlocks schema else schema

section Start

variable (F : FloatText) {limits : SchemaLimits}

theorem applySchemaLimits_of_noRefs {schema : Value} (h : NoRefs schema) :
    applySchemaLimits F schema limits = narrowSchemaNode F limits (walkedFrom limits schema) := by
  unfold applySchemaLimits walkedFrom
  rw [inlineInternalRefs_of_noRefs F h]
  cases limits.inlineInternalRefs <;> cases (allDefinitions schema).isEmpty <;> rfl

theorem lookup_limited_withoutBlocks (hsound : Sound limits) {fields : List (String × Value)}
    {key : String} (hkey : key ∉ ["minItems", "description"]) (h : key ≠ "$defs")
    (h' : key ≠ "definitions") :
    (limited F limits (remove "definitions" (remove "$defs" fields))).lookup key =
      (limited F limits fields).lookup key := by
  by_cases hone : key = "oneOf"
  · subst hone
    rw [lookup_limited_oneOf F hsound, lookup_limited_oneOf F hsound]
  · by_cases hany : key = "anyOf"
    · subst hany
      rw [lookup_limited_anyOf F hsound, lookup_limited_anyOf F hsound,
        lookup_withoutBlocks (by decide) (by decide), lookup_withoutBlocks (by decide) (by decide)]
    · have hother : key ∉ ["minItems", "description", "oneOf", "anyOf"] := by
        simp only [List.mem_cons, List.not_mem_nil, or_false, not_or] at hkey ⊢
        exact ⟨hkey.1, hkey.2, hone, hany⟩
      rw [lookup_limited F hother, lookup_limited F hother, lookup_withoutBlocks h h']

theorem asksLooked_limited_withoutBlocks (hsound : Sound limits) (fields : List (String × Value)) :
    asksLooked (limited F limits (remove "definitions" (remove "$defs" fields))) =
      asksLooked (limited F limits fields) := by
  unfold asksLooked
  rw [lookup_limited_withoutBlocks F hsound (by decide) (by decide) (by decide),
    lookup_limited_withoutBlocks F hsound (by decide) (by decide) (by decide)]

theorem at_withoutBlocks (hsound : Sound limits) (d : Demand) (fields : List (String × Value))
    (key : String) :
    d.at (limited F limits (remove "definitions" (remove "$defs" fields))) key =
      d.at (limited F limits fields) key := by
  unfold Demand.at
  rw [asksLooked_limited_withoutBlocks F hsound,
    lookup_limited_withoutBlocks F hsound (by decide) (by decide) (by decide)]

theorem loosens_withoutBlocks (hsound : Sound limits) {d : Demand} {schema : Value}
    (h : Loosens F limits d schema) : Loosens F limits d (withoutBlocks schema) := by
  cases schema with
  | object fields =>
    intro fields' d' hreach
    rcases Relation.ReflTransGen.cases_head hreach with heq | ⟨y, hstep, hrest⟩
    · obtain ⟨hfields, rfl⟩ := Prod.mk.inj heq
      obtain rfl := Value.object.inj hfields
      have hallowed := h fields d .refl
      refine ⟨fun hdown => ?_, fun hup hseen => ?_, fun hup hremoved => ?_⟩
      · have hsettled := hallowed.unchanged hdown
        refine ⟨fun key hkey => ?_, ?_, ?_⟩
        · rw [lookup_remove, lookup_remove, hsettled.removed key hkey]
          split <;> [rfl; split <;> rfl]
        · have hmin := hsettled.minItems
          unfold minItemsOutOfRange at hmin ⊢
          rwa [lookup_withoutBlocks (by decide) (by decide)]
        · rw [lookup_withoutBlocks (by decide) (by decide)]
          exact hsettled.oneOf
      · rw [lookup_withoutBlocks (by decide) (by decide),
          lookup_withoutBlocks (by decide) (by decide)]
        rw [asksLooked_limited_withoutBlocks F hsound] at hseen
        exact hallowed.alternatives hup hseen
      · have hhead :
            arrayField (.object (remove "definitions" (remove "$defs" fields))) "prefixItems" =
            arrayField (.object fields) "prefixItems" := by
          unfold arrayField Value.get
          dsimp only
          rw [lookup_withoutBlocks (by decide) (by decide)]
        rw [hhead, lookup_withoutBlocks (by decide) (by decide)]
        exact hallowed.tuple hup hremoved
    · obtain ⟨fields'', key, v, hfields, hlookup, hdefs, hdefinitions, hvisited, hdemand⟩ := hstep
      obtain rfl := Value.object.inj hfields
      refine h fields' d' (.head ⟨fields, key, v, rfl, ?_, hdefs, hdefinitions, hvisited, ?_⟩ hrest)
      · rwa [lookup_limited_withoutBlocks F hsound ?_ hdefs hdefinitions] at hlookup
        intro hmem
        simp only [List.mem_cons, List.not_mem_nil, or_false] at hmem
        rcases hmem with rfl | rfl
        · cases v <;> cases hvisited
        · cases v <;> cases hvisited
      · rw [hdemand, at_withoutBlocks F hsound]
  | _ => exact h

theorem definitionsOf_narrowSchemaNode (hsound : Sound limits) {block : String}
    (hblock : block ∈ ["$defs", "definitions"])
    (hkept : isRemoved limits block = false) {schema : Value}
    (h : definitionsOf block schema = []) :
    definitionsOf block (narrowSchemaNode F limits schema) = [] := by
  have hother : block ∉ ["minItems", "description", "oneOf", "anyOf"] := by
    simp only [List.mem_cons, List.not_mem_nil, or_false] at hblock
    rcases hblock with rfl | rfl <;> decide
  have hmap : SCHEMA_MAPS.contains block = true := by
    simp only [List.mem_cons, List.not_mem_nil, or_false] at hblock
    rcases hblock with rfl | rfl <;> decide
  cases schema with
  | object fields =>
    unfold definitionsOf Value.get at h ⊢
    rw [narrowSchemaNode_object F hsound]
    dsimp only at h ⊢
    rw [lookup_forEachSubschema, lookup_limited F hother, hkept, if_neg nofun]
    cases hvalue : fields.lookup block with
    | none => rfl
    | some v =>
      rw [hvalue] at h
      unfold visited Views.of
      cases v with
      | object entries =>
        obtain rfl := List.map_eq_nil_iff.mp h
        dsimp only [Option.map_some]
        rw [if_pos hmap]
        rfl
      | array items =>
        dsimp only [Option.map_some]
        by_cases hlist : (SCHEMA_LISTS.contains block || SCHEMA_VALUES.contains block) = true
        · rw [if_pos hlist]
        · rw [if_neg hlist]
      | _ => rfl
  | _ =>
    rw [narrowSchemaNode_leaf F rfl]
    exact h

/-- Where the walk starts there are no definitions for a second inlining to find. -/
theorem allDefinitions_walkedFrom (h : limits.inlineInternalRefs = true) (schema : Value) :
    allDefinitions (walkedFrom limits schema) = [] := by
  unfold walkedFrom
  split
  · exact allDefinitions_withoutBlocks schema
  · next hnot =>
      exact List.isEmpty_iff.mp (Bool.eq_true_of_not_eq_false fun hsome => hnot ⟨h, hsome⟩)

theorem inlineInternalRefs_of_isEmpty {schema : Value} (h : allDefinitions schema = []) :
    inlineInternalRefs F schema = schema := by
  unfold inlineInternalRefs
  rw [h]
  rfl

theorem applySchemaLimits_idem (hsound : Sound limits)
    (hblocks : ∀ block ∈ ["$defs", "definitions"], isRemoved limits block = false) {schema : Value}
    (h : NoRefs schema) :
    applySchemaLimits F (applySchemaLimits F schema limits) limits =
      applySchemaLimits F schema limits := by
  rw [applySchemaLimits_of_noRefs F h, applySchemaLimits]
  cases hinline : limits.inlineInternalRefs with
  | false => exact narrowSchemaNode_idem F hsound _
  | true =>
    obtain ⟨hdefs, hdefinitions⟩ :=
      List.append_eq_nil_iff.mp (allDefinitions_walkedFrom hinline schema)
    have hnone : allDefinitions (narrowSchemaNode F limits (walkedFrom limits schema)) = [] := by
      unfold allDefinitions
      rw [definitionsOf_narrowSchemaNode F hsound (by decide) (hblocks _ (by decide)) hdefs,
        definitionsOf_narrowSchemaNode F hsound (by decide) (hblocks _ (by decide)) hdefinitions]
      rfl
    rw [if_pos rfl, inlineInternalRefs_of_isEmpty F hnone]
    exact narrowSchemaNode_idem F hsound _

theorem looser_applySchemaLimits (hsound : Sound limits) (hremoves : Removes limits false)
    (V : Vocabulary) (resolve : String → Sem) {schema : Value} (h : NoRefs schema)
    (hloosens : Loosens F limits ⟨true, false, false⟩ schema) :
    Looser false (denote V resolve schema)
      (denote V resolve (applySchemaLimits F schema limits)) := by
  have hstart : denote V resolve (walkedFrom limits schema) = denote V resolve schema := by
    unfold walkedFrom
    split
    · exact denote_withoutBlocks V resolve schema
    · rfl
  have hloosens' : Loosens F limits ⟨true, false, false⟩ (walkedFrom limits schema) := by
    unfold walkedFrom
    split
    · exact loosens_withoutBlocks F hsound hloosens
    · exact hloosens
  rw [applySchemaLimits_of_noRefs F h, ← hstart]
  exact (meets_narrowSchemaNode V resolve F hsound (walkedFrom limits schema) _ hremoves
    hloosens').1 rfl

end Start

def IsLimits (limits : SchemaLimits) : Prop :=
  limits = ANTHROPIC_SCHEMA_LIMITS ∨ limits = GEMINI_OPENAPI_SCHEMA_LIMITS

/-- Narrowing takes no document away where only places that can take documents away lose keywords;
it is done once, it leaves no keyword it removes at any place that holds a schema, and it keeps
every name of every map of schemas it keeps. -/
theorem applySchemaLimits_spec (F : FloatText) {limits : SchemaLimits} (hlimits : IsLimits limits)
    {schema : Value} (h : NoRefs schema) :
    (∀ V resolve, Loosens F limits ⟨true, false, false⟩ schema →
      ∀ doc, (denote V resolve schema doc).valid = true →
        (denote V resolve (applySchemaLimits F schema limits) doc).valid = true) ∧
      applySchemaLimits F (applySchemaLimits F schema limits) limits =
        applySchemaLimits F schema limits ∧
      (∀ w, Position (applySchemaLimits F schema limits) w → ∀ key, isRemoved limits key = true ∨
        key = "oneOf" → w.get key = none) ∧
      (∀ fields, KeptPosition F limits (walkedFrom limits schema) (.object fields) →
        Position (applySchemaLimits F schema limits) (narrowSchemaNode F limits (.object fields)) ∧
          ∀ key ∈ SCHEMA_MAPS, isRemoved limits key = false →
            ∀ entries, fields.lookup key = some (.object entries) →
            (narrowSchemaNode F limits (.object fields)).get key =
              some (.object (entries.map fun e => (e.1, narrowSchemaNode F limits e.2)))) := by
  have hsound : Sound limits := by
    rcases hlimits with rfl | rfl
    · exact sound_anthropic
    · exact sound_gemini
  have hremoves : Removes limits false := by
    rcases hlimits with rfl | rfl
    · exact removes_anthropic false
    · exact removes_gemini
  have hblocks : ∀ block ∈ ["$defs", "definitions"], isRemoved limits block = false := by
    rcases hlimits with rfl | rfl <;> decide
  refine ⟨fun V resolve hloosens doc hvalid => ?_, applySchemaLimits_idem F hsound hblocks h, ?_,
    fun fields hkept => ⟨?_, ?_⟩⟩
  · exact (looser_applySchemaLimits F hsound hremoves V resolve h hloosens).valid hvalid
  · intro w hw key hkey
    rw [applySchemaLimits_of_noRefs F h] at hw
    exact get_of_position F hsound hw hkey
  · rw [applySchemaLimits_of_noRefs F h]
    exact position_narrowSchemaNode F hsound hkept
  · intro key hmap hkey entries hlookup
    exact names_kept F hsound hmap hkey hlookup

def atLeast (n : UInt64) : Value := .object [("minLength", .number (.posInt n))]

def oneOfTwo : Value := .object [("oneOf", .array [atLeast 3, atLeast 5])]

/-- A property whose value meets just one of two bounds. -/
def nestedBounds : Value := .object [("properties", .object [("a", oneOfTwo)])]

theorem demanded_nestedBounds {y : Value × Demand}
    (h : Relation.ReflTransGen (Demanded bitsText ANTHROPIC_SCHEMA_LIMITS)
      (nestedBounds, ⟨true, false, false⟩) y) :
    y.1 ∈ [nestedBounds, oneOfTwo, atLeast 3, atLeast 5] ∧ y.2 = ⟨true, false, false⟩ := by
  induction h with
  | refl => exact ⟨List.mem_cons_self, rfl⟩
  | @tail x y _ hstep ih =>
    obtain ⟨v, d⟩ := x
    obtain ⟨fields, key, w, hfields, hlookup, -, -, hvisited, hd⟩ := hstep
    obtain ⟨hv, rfl⟩ := ih
    dsimp only at hfields hv hd
    subst hfields
    have hmem := mem_of_lookup hlookup
    simp only [List.mem_cons, List.not_mem_nil, or_false] at hv
    rcases hv with hv | hv | hv | hv <;> obtain rfl := Value.object.inj hv
    · obtain ⟨rfl, rfl⟩ := Prod.mk.inj (List.mem_singleton.mp hmem)
      exact ⟨List.mem_cons_of_mem _ (List.mem_singleton.mp hvisited ▸ List.mem_cons_self), hd⟩
    · obtain ⟨rfl, rfl⟩ := Prod.mk.inj (List.mem_singleton.mp hmem)
      exact ⟨List.mem_cons_of_mem _ (List.mem_cons_of_mem _ hvisited), hd⟩
    all_goals
      obtain ⟨rfl, rfl⟩ := Prod.mk.inj (List.mem_singleton.mp hmem)
      cases hvisited

theorem loosens_nestedBounds :
    Loosens bitsText ANTHROPIC_SCHEMA_LIMITS ⟨true, false, false⟩ nestedBounds := by
  intro fields d hreach
  obtain ⟨hv, rfl⟩ := demanded_nestedBounds hreach
  refine ⟨nofun, fun _ _ => ?_, nofun⟩
  simp only [List.mem_cons, List.not_mem_nil, or_false] at hv
  rcases hv with hv | hv | hv | hv <;> obtain rfl := Value.object.inj hv
  · exact .inl rfl
  · exact .inr rfl
  · exact .inl rfl
  · exact .inl rfl

theorem applySchemaLimits_nestedBounds :
    (denote lengths (fun _ _ => .pass)
        (applySchemaLimits bitsText nestedBounds ANTHROPIC_SCHEMA_LIMITS)
        (.object [("a", .string "abc")])).valid = true ∧
      applySchemaLimits bitsText (applySchemaLimits bitsText nestedBounds ANTHROPIC_SCHEMA_LIMITS)
          ANTHROPIC_SCHEMA_LIMITS =
        applySchemaLimits bitsText nestedBounds ANTHROPIC_SCHEMA_LIMITS := by
  have hbound : ∀ n, NoRefs (atLeast n) := fun n => ⟨rfl, trivial, trivial⟩
  have hnorefs : NoRefs nestedBounds :=
    ⟨rfl, ⟨rfl, ⟨rfl, ⟨hbound 3, hbound 5, trivial⟩, trivial⟩, trivial⟩, trivial⟩
  have h := applySchemaLimits_spec bitsText (.inl (rfl : ANTHROPIC_SCHEMA_LIMITS = _)) hnorefs
  exact ⟨h.1 lengths (fun _ _ => .pass) loosens_nestedBounds _ rfl, h.2.1⟩

/-- A bound that counts against: no string of three letters. -/
def notThree : Value := .object [("not", atLeast 3)]

/-- Under `not` the bound is removed too, and then nothing is taken. -/
theorem notThree_tightened :
    NoRefs notThree ∧ (denote lengths (fun _ _ => .pass) notThree (.string "a")).valid = true ∧
      (denote lengths (fun _ _ => .pass)
        (applySchemaLimits bitsText notThree ANTHROPIC_SCHEMA_LIMITS)
          (.string "a")).valid = false :=
  ⟨⟨rfl, ⟨rfl, trivial, trivial⟩, trivial⟩, rfl, rfl⟩

end StructuredOutput
end Aisix
