import Aisix.JsonText
import Aisix.Redact.Walk

/-!
# Aisix.Redact.ValueStrings

The walks over a JSON value: `walkValueStrings` rewrites its strings, and two others only find out
whether a redaction would change a key or a string. Each is told apart from its counts: what it
leaves is `mapTexts`, and what it finds is found among `allKeys` or `allTexts`.
-/

namespace Aisix
namespace Redact

open Guardrails Json

/-! ### What a value is made of -/

mutual

/-- The strings of a value, its keys left out. -/
def allTexts : Value → List String
  | .string s => [s]
  | .array items => itemTexts items
  | .object fields => fieldTexts fields
  | .null => []
  | .bool _ => []
  | .number _ => []

def itemTexts : List Value → List String
  | [] => []
  | v :: vs => allTexts v ++ itemTexts vs

def fieldTexts : List (String × Value) → List String
  | [] => []
  | (_, v) :: fields => allTexts v ++ fieldTexts fields

end

mutual

/-- The keys of every object in a value. -/
def allKeys : Value → List String
  | .array items => itemKeys items
  | .object fields => fieldKeys fields
  | .string _ => []
  | .null => []
  | .bool _ => []
  | .number _ => []

def itemKeys : List Value → List String
  | [] => []
  | v :: vs => allKeys v ++ itemKeys vs

def fieldKeys : List (String × Value) → List String
  | [] => []
  | (key, v) :: fields => key :: (allKeys v ++ fieldKeys fields)

end

mutual

/-- The value with every string changed. -/
def mapTexts (f : String → String) : Value → Value
  | .string s => .string (f s)
  | .array items => .array (mapItemTexts f items)
  | .object fields => .object (mapFieldTexts f fields)
  | .null => .null
  | .bool b => .bool b
  | .number n => .number n

def mapItemTexts (f : String → String) : List Value → List Value
  | [] => []
  | v :: vs => mapTexts f v :: mapItemTexts f vs

def mapFieldTexts (f : String → String) : List (String × Value) → List (String × Value)
  | [] => []
  | (key, v) :: fields => (key, mapTexts f v) :: mapFieldTexts f fields

end

variable {f : String → String}

mutual

theorem mapTexts_of_fixed : ∀ {v : Value}, (∀ t ∈ allTexts v, f t = t) → mapTexts f v = v
  | .string s, h => by rw [mapTexts, h s (List.mem_singleton_self s)]
  | .array items, h => by rw [mapTexts, mapItemTexts_of_fixed h]
  | .object fields, h => by rw [mapTexts, mapFieldTexts_of_fixed h]
  | .null, _ => rfl
  | .bool b, _ => rfl
  | .number n, _ => rfl

theorem mapItemTexts_of_fixed : ∀ {items : List Value}, (∀ t ∈ itemTexts items, f t = t) →
    mapItemTexts f items = items
  | [], _ => rfl
  | v :: vs, h => by
    rw [itemTexts] at h
    rw [mapItemTexts, mapTexts_of_fixed fun t ht => h t (List.mem_append_left _ ht),
      mapItemTexts_of_fixed fun t ht => h t (List.mem_append_right _ ht)]

theorem mapFieldTexts_of_fixed :
    ∀ {fields : List (String × Value)}, (∀ t ∈ fieldTexts fields, f t = t) →
    mapFieldTexts f fields = fields
  | [], _ => rfl
  | (key, v) :: fields, h => by
    rw [fieldTexts] at h
    rw [mapFieldTexts, mapTexts_of_fixed fun t ht => h t (List.mem_append_left _ ht),
      mapFieldTexts_of_fixed fun t ht => h t (List.mem_append_right _ ht)]

end

theorem mapFieldTexts_eq_map (fields : List (String × Value)) :
    mapFieldTexts f fields = fields.map fun e => (e.1, mapTexts f e.2) := by
  induction fields with
  | nil => rfl
  | cons e fields ih => rw [mapFieldTexts, ih, List.map_cons]

mutual

theorem wellFormed_mapTexts : ∀ {v : Value}, v.WellFormed → (mapTexts f v).WellFormed
  | .string s, _ => trivial
  | .array items, h => by
    rw [Value.WellFormed] at h
    rw [mapTexts, Value.WellFormed]
    exact wellFormed_mapItemTexts h
  | .object fields, h => by
    rw [Value.WellFormed] at h
    have hkeys : (mapFieldTexts f fields).map Prod.fst = fields.map Prod.fst := by
      rw [mapFieldTexts_eq_map, List.map_map]
      rfl
    rw [mapTexts, Value.WellFormed, hkeys]
    exact ⟨h.1, wellFormed_mapFieldTexts h.2⟩
  | .null, _ => trivial
  | .bool b, _ => trivial
  | .number n, h => h

theorem wellFormed_mapItemTexts : ∀ {items : List Value}, itemsWellFormed items →
    itemsWellFormed (mapItemTexts f items)
  | [], _ => trivial
  | _ :: _, h => ⟨wellFormed_mapTexts h.1, wellFormed_mapItemTexts h.2⟩

theorem wellFormed_mapFieldTexts : ∀ {fields : List (String × Value)}, fieldsWellFormed fields →
    fieldsWellFormed (mapFieldTexts f fields)
  | [], _ => trivial
  | _ :: _, h => ⟨wellFormed_mapTexts h.1, wellFormed_mapFieldTexts h.2⟩

end

/-! ### The walks -/

section

variable (redact : String → Option Redaction)

/-- The redaction of a text is another text. -/
def changes (text : String) : Bool := (redact text).any fun r => r.text != text

/-- What a rewritable text becomes; an empty one is not offered. -/
def rewrittenText (text : String) : String :=
  if text.isEmpty then text else ((redact text).map (·.text)).getD text

def countsOf (text : String) (counts : Counts) : Counts :=
  ((redact text).map fun r => counts.mergeCounts r.counts).getD counts

def applyToString (text : String) (counts : Counts) : String × Counts :=
  if text.isEmpty then (text, counts)
  else
    match redact text with
    | some r => (r.text, counts.mergeCounts r.counts)
    | none => (text, counts)

mutual

/-- Numbers and keys are offered for a look only, which a redaction takes no note of. -/
def walkValueStrings : Value → Counts → Value × Counts
  | .string s, counts =>
    (.string (applyToString redact s counts).1, (applyToString redact s counts).2)
  | .array items, counts => (.array (walkItems items counts).1, (walkItems items counts).2)
  | .object fields, counts => (.object (walkFields fields counts).1, (walkFields fields counts).2)
  | .null, counts => (.null, counts)
  | .bool b, counts => (.bool b, counts)
  | .number n, counts => (.number n, counts)

def walkItems : List Value → Counts → List Value × Counts
  | [], counts => ([], counts)
  | v :: vs, counts =>
    let a := walkValueStrings v counts
    let b := walkItems vs a.2
    (a.1 :: b.1, b.2)

def walkFields : List (String × Value) → Counts → List (String × Value) × Counts
  | [], counts => ([], counts)
  | (key, v) :: fields, counts =>
    let a := walkValueStrings v counts
    let b := walkFields fields a.2
    ((key, a.1) :: b.1, b.2)

end

mutual

def detectUnrewritableObjectKeys : Value → Counts → Bool × Counts
  | .array items, counts => detectItemKeys items counts
  | .object fields, counts => detectFieldKeys fields counts
  | .string _, counts => (false, counts)
  | .null, counts => (false, counts)
  | .bool _, counts => (false, counts)
  | .number _, counts => (false, counts)

def detectItemKeys : List Value → Counts → Bool × Counts
  | [], counts => (false, counts)
  | v :: vs, counts =>
    let a := detectUnrewritableObjectKeys v counts
    let b := detectItemKeys vs a.2
    (a.1 || b.1, b.2)

def detectFieldKeys : List (String × Value) → Counts → Bool × Counts
  | [], counts => (false, counts)
  | (key, v) :: fields, counts =>
    let a := detectUnrewritableObjectKeys v (countsOf redact key counts)
    let b := detectFieldKeys fields a.2
    (changes redact key || a.1 || b.1, b.2)

end

mutual

def detectUnrewritableValueStrings : Value → Counts → Bool × Counts
  | .string s, counts => (changes redact s, countsOf redact s counts)
  | .array items, counts => detectItemStrings items counts
  | .object fields, counts => detectFieldStrings fields counts
  | .null, counts => (false, counts)
  | .bool _, counts => (false, counts)
  | .number _, counts => (false, counts)

def detectItemStrings : List Value → Counts → Bool × Counts
  | [], counts => (false, counts)
  | v :: vs, counts =>
    let a := detectUnrewritableValueStrings v counts
    let b := detectItemStrings vs a.2
    (a.1 || b.1, b.2)

def detectFieldStrings : List (String × Value) → Counts → Bool × Counts
  | [], counts => (false, counts)
  | (_, v) :: fields, counts =>
    let a := detectUnrewritableValueStrings v counts
    let b := detectFieldStrings fields a.2
    (a.1 || b.1, b.2)

end

variable {redact}

theorem applyToString_fst (text : String) (counts : Counts) :
    (applyToString redact text counts).1 = rewrittenText redact text := by
  unfold applyToString rewrittenText
  split
  · rfl
  · cases redact text with
    | none => rfl
    | some r => rfl

mutual

theorem walkValueStrings_fst : ∀ (v : Value) (counts : Counts),
    (walkValueStrings redact v counts).1 = mapTexts (rewrittenText redact) v
  | .string s, counts => by rw [walkValueStrings, mapTexts, applyToString_fst]
  | .array items, counts => by rw [walkValueStrings, mapTexts, walkItems_fst]
  | .object fields, counts => by rw [walkValueStrings, mapTexts, walkFields_fst]
  | .null, counts => rfl
  | .bool b, counts => rfl
  | .number n, counts => rfl

theorem walkItems_fst : ∀ (items : List Value) (counts : Counts),
    (walkItems redact items counts).1 = mapItemTexts (rewrittenText redact) items
  | [], counts => rfl
  | v :: vs, counts => by
    rw [walkItems, mapItemTexts]
    dsimp only
    rw [walkValueStrings_fst, walkItems_fst]

theorem walkFields_fst : ∀ (fields : List (String × Value)) (counts : Counts),
    (walkFields redact fields counts).1 = mapFieldTexts (rewrittenText redact) fields
  | [], counts => rfl
  | (key, v) :: fields, counts => by
    rw [walkFields, mapFieldTexts]
    dsimp only
    rw [walkValueStrings_fst, walkFields_fst]

end

mutual

theorem detectUnrewritableObjectKeys_fst : ∀ (v : Value) (counts : Counts),
    (detectUnrewritableObjectKeys redact v counts).1 = (allKeys v).any (changes redact)
  | .array items, counts => by rw [detectUnrewritableObjectKeys, allKeys, detectItemKeys_fst]
  | .object fields, counts => by rw [detectUnrewritableObjectKeys, allKeys, detectFieldKeys_fst]
  | .string s, counts => rfl
  | .null, counts => rfl
  | .bool b, counts => rfl
  | .number n, counts => rfl

theorem detectItemKeys_fst : ∀ (items : List Value) (counts : Counts),
    (detectItemKeys redact items counts).1 = (itemKeys items).any (changes redact)
  | [], counts => rfl
  | v :: vs, counts => by
    rw [detectItemKeys, itemKeys, List.any_append]
    dsimp only
    rw [detectUnrewritableObjectKeys_fst, detectItemKeys_fst]

theorem detectFieldKeys_fst : ∀ (fields : List (String × Value)) (counts : Counts),
    (detectFieldKeys redact fields counts).1 = (fieldKeys fields).any (changes redact)
  | [], counts => rfl
  | (key, v) :: fields, counts => by
    rw [detectFieldKeys, fieldKeys, List.any_cons, List.any_append, ← Bool.or_assoc]
    dsimp only
    rw [detectUnrewritableObjectKeys_fst, detectFieldKeys_fst]

end

mutual

theorem detectUnrewritableValueStrings_fst : ∀ (v : Value) (counts : Counts),
    (detectUnrewritableValueStrings redact v counts).1 = (allTexts v).any (changes redact)
  | .string s, counts => by
      rw [detectUnrewritableValueStrings, allTexts, List.any_cons, List.any_nil, Bool.or_false]
  | .array items, counts => by rw [detectUnrewritableValueStrings, allTexts, detectItemStrings_fst]
  | .object fields, counts => by
      rw [detectUnrewritableValueStrings, allTexts, detectFieldStrings_fst]
  | .null, counts => rfl
  | .bool b, counts => rfl
  | .number n, counts => rfl

theorem detectItemStrings_fst : ∀ (items : List Value) (counts : Counts),
    (detectItemStrings redact items counts).1 = (itemTexts items).any (changes redact)
  | [], counts => rfl
  | v :: vs, counts => by
    rw [detectItemStrings, itemTexts, List.any_append]
    dsimp only
    rw [detectUnrewritableValueStrings_fst, detectItemStrings_fst]

theorem detectFieldStrings_fst : ∀ (fields : List (String × Value)) (counts : Counts),
    (detectFieldStrings redact fields counts).1 = (fieldTexts fields).any (changes redact)
  | [], counts => rfl
  | (key, v) :: fields, counts => by
    rw [detectFieldStrings, fieldTexts, List.any_append]
    dsimp only
    rw [detectUnrewritableValueStrings_fst, detectFieldStrings_fst]

end

end

end Redact
end Aisix
