import Aisix.Chat
import Aisix.Mcp.Name
import Mathlib.Data.List.Forall2

/-!
# Aisix.ToolCalls.ThoughtSignatures

Thought signatures ride in tool-call ids, and are taken out of a request for every upstream that
does not read them: from the ids of a raw body wherever they sit, and from two members of the
messages of a typed request. `signatures_exact` is about both, and about what the one has to do with
the other.
-/

namespace Aisix
namespace ToolCalls

open Json Mcp

def THOUGHT_SIGNATURE_SEPARATOR : String := "__thought__"

def splitThoughtSignature (id : String) : String × Option String :=
  match splitOnce THOUGHT_SIGNATURE_SEPARATOR.toList id.toList with
  | some (base, signature) => (String.ofList base, some (String.ofList signature))
  | none => (id, none)

def stripThoughtSignature (id : String) : String := (splitThoughtSignature id).1

/-- `contains` of the separator. -/
def isSigned (id : String) : Bool := (splitOnce THOUGHT_SIGNATURE_SEPARATOR.toList id.toList).isSome

def hasSignature (v : Option Value) : Bool := (v.bind Value.asStr?).any isSigned

def stripInPlace : Value → Value
  | .string id => .string (stripThoughtSignature id)
  | .null => .null
  | .bool b => .bool b
  | .number n => .number n
  | .array items => .array items
  | .object fields => .object fields

/-! ### Raw bodies -/

inductive BodyField where
  | toolCallId
  | arguments
  | nested
  deriving DecidableEq, Repr

def isObject : Value → Bool
  | .object _ => true
  | _ => false

def bodyField (key : String) (value : Value) : BodyField :=
  if key = "id" ∨ key = "call_id" ∨ key = "tool_call_id" ∨ key = "tool_use_id" then .toolCallId
  else if key = "arguments" ∨ (key = "input" ∧ isObject value = true) then .arguments
  else .nested

mutual

def bodyHasThoughtSignatures : Value → Bool
  | .object fields => fieldsHaveThoughtSignatures fields
  | .array items => itemsHaveThoughtSignatures items
  | .null => false
  | .bool _ => false
  | .number _ => false
  | .string _ => false

def itemsHaveThoughtSignatures : List Value → Bool
  | [] => false
  | v :: items => bodyHasThoughtSignatures v || itemsHaveThoughtSignatures items

def fieldsHaveThoughtSignatures : List (String × Value) → Bool
  | [] => false
  | (key, value) :: fields =>
    (match bodyField key value with
      | .toolCallId => hasSignature (some value)
      | .arguments => false
      | .nested => bodyHasThoughtSignatures value) || fieldsHaveThoughtSignatures fields

end

mutual

def stripThoughtSignaturesInBody : Value → Value
  | .object fields => .object (stripThoughtSignaturesInFields fields)
  | .array items => .array (stripThoughtSignaturesInItems items)
  | .null => .null
  | .bool b => .bool b
  | .number n => .number n
  | .string s => .string s

def stripThoughtSignaturesInItems : List Value → List Value
  | [] => []
  | v :: items => stripThoughtSignaturesInBody v :: stripThoughtSignaturesInItems items

def stripThoughtSignaturesInFields : List (String × Value) → List (String × Value)
  | [] => []
  | (key, value) :: fields =>
    (key, match bodyField key value with
      | .toolCallId => stripInPlace value
      | .arguments => value
      | .nested => stripThoughtSignaturesInBody value) :: stripThoughtSignaturesInFields fields

end

/-! ### Typed requests -/

def callSigned (c : Value) : Bool := hasSignature (c.get "id")

def messageSigned (m : ChatMessage) : Bool :=
  m.toolCallId.any isSigned ||
    match m.extra.lookup "tool_calls" with
    | some (.array calls) => calls.any callSigned
    | _ => false

def chatSigned (req : ChatFormat) : Bool := req.messages.any messageSigned

def stripCalls : Value → Value
  | .array calls => .array (calls.map (Value.modify "id" stripInPlace))
  | .null => .null
  | .bool b => .bool b
  | .number n => .number n
  | .string s => .string s
  | .object fields => .object fields

def stripMessage (m : ChatMessage) : ChatMessage :=
  { m with
    toolCallId := m.toolCallId.map stripThoughtSignature
    extra := Value.modifyField "tool_calls" stripCalls m.extra }

def chatWithoutThoughtSignatures (req : ChatFormat) : ChatFormat :=
  if chatSigned req then { req with messages := req.messages.map stripMessage } else req

/-! ### Places -/

/-- A step into a value. -/
inductive Seg where
  | key (key : String)
  | index (i : Nat)

def at? : List Seg → Value → Option Value
  | [], v => some v
  | .key key :: path, .object fields => (fields.lookup key).bind (at? path)
  | .index i :: path, .array items => items[i]?.bind (at? path)
  | _ :: _, _ => none

/-- What a place of a body is to the walkers: reached through neither an id nor arguments, a
tool-call id itself, or below one of these. -/
inductive Place where
  | nested
  | toolCallId
  | data
  deriving DecidableEq

def place : List Seg → Value → Place
  | [], _ => .nested
  | .key key :: path, .object fields =>
    match fields.lookup key with
    | none => .data
    | some value =>
      match bodyField key value with
      | .toolCallId => if path.isEmpty then .toolCallId else .data
      | .arguments => .data
      | .nested => place path value
  | .index i :: path, .array items => (items[i]?).elim .data (place path)
  | _ :: _, _ => .data

/-- What becomes of the value of a place. -/
def Place.act : Place → Value → Value
  | .nested => stripThoughtSignaturesInBody
  | .toolCallId => stripInPlace
  | .data => id

/-! ### One id -/

theorem splitOnce_base {α : Type} [DecidableEq α] {sep s a b : List α} (hsep : sep ≠ [])
    (h : splitOnce sep s = some (a, b)) : splitOnce sep a = none := by
  have hnil : splitOnce sep [] = none := by
    cases sep with
    | nil => exact absurd rfl hsep
    | cons c sep => rfl
  induction s generalizing a with
  | nil =>
    rw [hnil] at h
    cases h
  | cons c s ih =>
    rw [splitOnce] at h
    split at h
    · cases h
      exact hnil
    · next hnot =>
      obtain ⟨parts, hparts, heq⟩ := Option.map_eq_some_iff.mp h
      cases heq
      rw [splitOnce]
      cases hhead : stripPrefix sep (c :: parts.1) with
      | none =>
        dsimp only
        rw [ih hparts]
        rfl
      | some r =>
        have hs : c :: s = sep ++ (r ++ (sep ++ parts.2)) := by
          rw [splitOnce_eq_some hparts, ← List.append_assoc, ← stripPrefix_eq_some.mp hhead,
            List.append_assoc]
          rfl
        rw [stripPrefix_eq_some.mpr hs] at hnot
        cases hnot

theorem isSigned_strip (id : String) : isSigned (stripThoughtSignature id) = false := by
  unfold isSigned stripThoughtSignature splitThoughtSignature
  cases hsplit : splitOnce THOUGHT_SIGNATURE_SEPARATOR.toList id.toList with
  | none =>
    dsimp only
    rw [hsplit]
    rfl
  | some parts =>
    dsimp only
    rw [String.toList_ofList, splitOnce_base (by decide) hsplit]
    rfl

theorem strip_of_not_signed {id : String} (h : isSigned id = false) :
    stripThoughtSignature id = id := by
  unfold isSigned at h
  unfold stripThoughtSignature splitThoughtSignature
  rw [Option.isSome_eq_false_iff, Option.isNone_iff_eq_none] at h
  rw [h]

theorem hasSignature_stripInPlace (v : Value) : hasSignature (some (stripInPlace v)) = false := by
  cases v with
  | string id => exact isSigned_strip id
  | _ => rfl

theorem stripInPlace_of_not {v : Value} (h : hasSignature (some v) = false) :
    stripInPlace v = v := by
  cases v with
  | string id => exact congrArg Value.string (strip_of_not_signed h)
  | _ => rfl

theorem stripInPlace_stripInPlace (v : Value) : stripInPlace (stripInPlace v) = stripInPlace v :=
  stripInPlace_of_not (hasSignature_stripInPlace v)

/-! ### Raw bodies -/

theorem bodyField_congr {key : String} {v v' : Value} (h : isObject v = isObject v') :
    bodyField key v = bodyField key v' := by
  unfold bodyField
  rw [h]

theorem isObject_strip (v : Value) : isObject (stripThoughtSignaturesInBody v) = isObject v := by
  cases v <;> rfl

theorem isObject_stripInPlace (v : Value) : isObject (stripInPlace v) = isObject v := by
  cases v <;> rfl

/-- What becomes of the value of a member. -/
def stripField (key : String) (value : Value) : Value :=
  match bodyField key value with
  | .toolCallId => stripInPlace value
  | .arguments => value
  | .nested => stripThoughtSignaturesInBody value

theorem stripFields_cons (key : String) (value : Value) (fields : List (String × Value)) :
    stripThoughtSignaturesInFields ((key, value) :: fields) =
      (key, stripField key value) :: stripThoughtSignaturesInFields fields := rfl

mutual

theorem strip_of_not_has : ∀ v : Value,
    bodyHasThoughtSignatures v = false → stripThoughtSignaturesInBody v = v
  | .object fields, h => by
    rw [bodyHasThoughtSignatures] at h
    rw [stripThoughtSignaturesInBody, stripFields_of_not_have fields h]
  | .array items, h => by
    rw [bodyHasThoughtSignatures] at h
    rw [stripThoughtSignaturesInBody, stripItems_of_not_have items h]
  | .null, _ => rfl
  | .bool _, _ => rfl
  | .number _, _ => rfl
  | .string _, _ => rfl

theorem stripItems_of_not_have : ∀ items : List Value, itemsHaveThoughtSignatures items = false →
    stripThoughtSignaturesInItems items = items
  | [], _ => rfl
  | v :: items, h => by
    rw [itemsHaveThoughtSignatures] at h
    obtain ⟨hhere, hrest⟩ := Bool.or_eq_false_iff.mp h
    rw [stripThoughtSignaturesInItems, strip_of_not_has v hhere, stripItems_of_not_have items hrest]

theorem stripFields_of_not_have : ∀ fields : List (String × Value),
    fieldsHaveThoughtSignatures fields = false →
    stripThoughtSignaturesInFields fields = fields
  | [], _ => rfl
  | (key, value) :: fields, h => by
    rw [fieldsHaveThoughtSignatures] at h
    obtain ⟨hhere, hrest⟩ := Bool.or_eq_false_iff.mp h
    rw [stripFields_cons, stripFields_of_not_have fields hrest]
    have hvalue : stripField key value = value := by
      unfold stripField
      cases hfield : bodyField key value with
      | toolCallId =>
        rw [hfield] at hhere
        exact stripInPlace_of_not hhere
      | arguments => rfl
      | nested =>
        rw [hfield] at hhere
        exact strip_of_not_has value hhere
    rw [hvalue]

end

mutual

theorem has_strip : ∀ v : Value, bodyHasThoughtSignatures (stripThoughtSignaturesInBody v) = false
  | .object fields => by
    rw [stripThoughtSignaturesInBody, bodyHasThoughtSignatures]
    exact fieldsHave_strip fields
  | .array items => by
    rw [stripThoughtSignaturesInBody, bodyHasThoughtSignatures]
    exact itemsHave_strip items
  | .null => rfl
  | .bool _ => rfl
  | .number _ => rfl
  | .string _ => rfl

theorem itemsHave_strip : ∀ items : List Value,
    itemsHaveThoughtSignatures (stripThoughtSignaturesInItems items) = false
  | [] => rfl
  | v :: items => by
    rw [stripThoughtSignaturesInItems, itemsHaveThoughtSignatures, has_strip v,
      itemsHave_strip items]
    rfl

theorem fieldsHave_strip : ∀ fields : List (String × Value),
    fieldsHaveThoughtSignatures (stripThoughtSignaturesInFields fields) = false
  | [] => rfl
  | (key, value) :: fields => by
    rw [stripFields_cons, fieldsHaveThoughtSignatures, fieldsHave_strip fields, Bool.or_false]
    unfold stripField
    cases hfield : bodyField key value with
    | toolCallId =>
      dsimp only
      rw [bodyField_congr (isObject_stripInPlace value), hfield]
      exact hasSignature_stripInPlace value
    | arguments =>
      dsimp only
      rw [hfield]
    | nested =>
      dsimp only
      rw [bodyField_congr (isObject_strip value), hfield]
      exact has_strip value

end

theorem strip_eq_self_iff (v : Value) :
    stripThoughtSignaturesInBody v = v ↔ bodyHasThoughtSignatures v = false := by
  constructor
  · intro h
    rw [← h]
    exact has_strip v
  · exact strip_of_not_has v

theorem strip_strip (v : Value) :
    stripThoughtSignaturesInBody (stripThoughtSignaturesInBody v) =
      stripThoughtSignaturesInBody v :=
  strip_of_not_has _ (has_strip v)

/-! ### Every place -/

theorem lookup_stripFields (key : String) (fields : List (String × Value)) :
    (stripThoughtSignaturesInFields fields).lookup key = (fields.lookup key).map
    (stripField key) := by
  induction fields with
  | nil => rfl
  | cons e fields ih =>
    obtain ⟨k, value⟩ := e
    rw [stripFields_cons, List.lookup_cons, List.lookup_cons]
    cases hkey : key == k with
    | true =>
      obtain rfl : key = k := eq_of_beq hkey
      rfl
    | false => exact ih

theorem getElem?_stripItems (i : Nat) (items : List Value) :
    (stripThoughtSignaturesInItems items)[i]? = items[i]?.map stripThoughtSignaturesInBody := by
  induction items generalizing i with
  | nil => rfl
  | cons v items ih =>
    cases i with
    | zero => rfl
    | succ i => exact ih i

/-- Below an id that is no text nothing changes, and below a text there is nothing. -/
theorem at?_stripInPlace (seg : Seg) (path : List Seg) (v : Value) :
    at? (seg :: path) (stripInPlace v) = at? (seg :: path) v := by
  cases v with
  | string id => cases seg <;> rfl
  | _ => rfl

theorem at?_strip (path : List Seg) (v : Value) :
    at? path (stripThoughtSignaturesInBody v) = (at? path v).map (place path v).act := by
  induction path generalizing v with
  | nil => rfl
  | cons seg path ih =>
    cases seg with
    | key key =>
      cases v with
      | object fields =>
        rw [stripThoughtSignaturesInBody, at?, at?, place, lookup_stripFields]
        cases fields.lookup key with
        | none => rfl
        | some value =>
          rw [Option.map_some, Option.bind_some, Option.bind_some]
          dsimp only
          unfold stripField
          cases bodyField key value with
          | toolCallId =>
            cases path with
            | nil => rfl
            | cons seg path =>
              dsimp only
              rw [at?_stripInPlace]
              exact Option.map_id_apply.symm
          | arguments => exact Option.map_id_apply.symm
          | nested => exact ih value
      | _ => rfl
    | index i =>
      cases v with
      | array items =>
        rw [stripThoughtSignaturesInBody, at?, at?, place, getElem?_stripItems]
        cases items[i]? with
        | none => rfl
        | some value => exact ih value
      | _ => rfl

/-! ### Typed requests -/

theorem stripCalls_of_not {v : Value}
    (h : ∀ calls, v = .array calls → calls.any callSigned = false) : stripCalls v = v := by
  cases v with
  | array calls =>
    have hany := h calls rfl
    rw [List.any_eq_false] at hany
    rw [stripCalls]
    congr 1
    conv => rhs; rw [← List.map_id calls]
    refine List.map_congr_left ?_
    intro c hc
    have hnot : callSigned c = false := Bool.eq_false_iff.mpr (hany c hc)
    cases c with
    | object fields =>
      refine congrArg Value.object (Value.modifyField_of_fixed ?_)
      intro v hv
      have hget : (Value.object fields).get "id" = some v := hv
      unfold callSigned at hnot
      rw [hget] at hnot
      exact stripInPlace_of_not hnot
    | _ => rfl
  | _ => rfl

theorem stripMessage_of_not {m : ChatMessage} (h : messageSigned m = false) :
    stripMessage m = m := by
  unfold messageSigned at h
  obtain ⟨hid, hcalls⟩ := Bool.or_eq_false_iff.mp h
  obtain ⟨role, content, blocks, name, toolCallId, extra⟩ := m
  unfold stripMessage
  have hsame : toolCallId.map stripThoughtSignature = toolCallId := by
    cases toolCallId with
    | none => rfl
    | some id => exact congrArg some (strip_of_not_signed hid)
  have hextra : Value.modifyField "tool_calls" stripCalls extra = extra := by
    refine Value.modifyField_of_fixed ?_
    intro v hv
    refine stripCalls_of_not ?_
    rintro calls rfl
    dsimp only at hcalls
    rw [hv] at hcalls
    exact hcalls
  dsimp only
  rw [hsame, hextra]

theorem chatWithout_eq (req : ChatFormat) :
    chatWithoutThoughtSignatures req = { req with messages := req.messages.map stripMessage } := by
  unfold chatWithoutThoughtSignatures
  split
  · rfl
  · next hnot =>
    have hall := List.any_eq_false.mp (Bool.eq_false_iff.mpr hnot)
    have hmap : req.messages.map stripMessage = req.messages := by
      conv => rhs; rw [← List.map_id req.messages]
      refine List.map_congr_left ?_
      intro m hm
      exact stripMessage_of_not (Bool.eq_false_iff.mpr (hall m hm))
    rw [hmap]

theorem callSigned_strip (c : Value) : callSigned (c.modify "id" stripInPlace) = false := by
  unfold callSigned
  rw [Value.get_modify]
  cases c.get "id" with
  | none => rfl
  | some v => exact hasSignature_stripInPlace v

theorem messageSigned_strip (m : ChatMessage) : messageSigned (stripMessage m) = false := by
  unfold messageSigned stripMessage
  dsimp only
  rw [Value.lookup_modifyField, Bool.or_eq_false_iff]
  constructor
  · cases m.toolCallId with
    | none => rfl
    | some id => exact isSigned_strip id
  · cases m.extra.lookup "tool_calls" with
    | none => rfl
    | some v =>
      cases v with
      | array calls =>
        rw [Option.map_some, stripCalls]
        dsimp only
        rw [List.any_map, List.any_eq_false]
        intro c _
        rw [Function.comp_apply, callSigned_strip]
        exact Bool.false_ne_true
      | _ => rfl

theorem chatSigned_strip (req : ChatFormat) :
    chatSigned (chatWithoutThoughtSignatures req) = false := by
  rw [chatWithout_eq]
  unfold chatSigned
  dsimp only
  rw [List.any_map, List.any_eq_false]
  intro m _
  rw [Function.comp_apply, messageSigned_strip]
  exact Bool.false_ne_true

theorem chatWithout_of_not {req : ChatFormat} (h : chatSigned req = false) :
    chatWithoutThoughtSignatures req = req := by
  unfold chatWithoutThoughtSignatures
  rw [h]
  rfl

theorem chatWithout_eq_self_iff (req : ChatFormat) :
    chatWithoutThoughtSignatures req = req ↔ chatSigned req = false := by
  constructor
  · intro h
    rw [← h]
    exact chatSigned_strip req
  · exact chatWithout_of_not

/-- What becomes of a place below `tool_calls`. -/
def callsAct : List Seg → Value → Value
  | [] => stripCalls
  | [.index _] => Value.modify "id" stripInPlace
  | [.index _, .key key] => if key = "id" then stripInPlace else id
  | _ => id

theorem at?_modify_id (path : List Seg) (key : String) (v : Value) :
    at? (.key key :: path) (v.modify "id" stripInPlace) =
      (at? (.key key :: path) v).map (if key = "id" ∧ path = [] then stripInPlace else id) := by
  cases v with
  | object fields =>
    rw [Value.modify, at?, at?]
    by_cases hkey : key = "id"
    · subst hkey
      rw [Value.lookup_modifyField]
      cases fields.lookup "id" with
      | none => rfl
      | some v =>
        rw [Option.map_some, Option.bind_some, Option.bind_some]
        cases path with
        | nil => rfl
        | cons seg path =>
          rw [at?_stripInPlace, if_neg (fun h => List.cons_ne_nil _ _ h.2), Option.map_id_apply]
    · rw [Value.lookup_modifyField_of_ne hkey, if_neg (fun h => hkey h.1), Option.map_id_apply]
  | _ => rfl

theorem at?_stripCalls (path : List Seg) (v : Value) :
    at? path (stripCalls v) = (at? path v).map (callsAct path) := by
  cases path with
  | nil => rfl
  | cons seg path =>
    cases v with
    | array calls =>
      cases seg with
      | key key => rfl
      | index i =>
        rw [stripCalls, at?, at?, List.getElem?_map]
        cases calls[i]? with
        | none => rfl
        | some c =>
          rw [Option.map_some, Option.bind_some, Option.bind_some]
          cases path with
          | nil => rfl
          | cons seg path =>
            cases seg with
            | index j => cases c <;> exact Option.map_id_apply.symm
            | key key =>
              rw [at?_modify_id]
              cases path with
              | nil => simp [callsAct]
              | cons seg path =>
                rw [if_neg (fun h => List.cons_ne_nil _ _ h.2)]
                rfl
    | _ => cases seg <;> exact Option.map_id_apply.symm

/-- The message but for its tool-call ids. -/
structure SameBesidesIds (m m' : ChatMessage) : Prop where
  rest : m' = { m with toolCallId := m'.toolCallId, extra := m'.extra }
  toolCallId : m'.toolCallId = m.toolCallId.map stripThoughtSignature
  keys : m'.extra.map Prod.fst = m.extra.map Prod.fst
  extra : ∀ key, key ≠ "tool_calls" → m'.extra.lookup key = m.extra.lookup key
  calls : ∀ path, (m'.extra.lookup "tool_calls").bind (at? path) =
    ((m.extra.lookup "tool_calls").bind (at? path)).map (callsAct path)

theorem sameBesidesIds_strip (m : ChatMessage) : SameBesidesIds m (stripMessage m) where
  rest := rfl
  toolCallId := rfl
  keys := Value.map_fst_modifyField _ _ _
  extra := fun _ hkey => Value.lookup_modifyField_of_ne hkey _ _
  calls := by
    intro path
    unfold stripMessage
    dsimp only
    rw [Value.lookup_modifyField]
    cases m.extra.lookup "tool_calls" with
    | none => rfl
    | some v => exact at?_stripCalls path v

/-! ### The JSON of a typed request -/

theorem stripFields_append (fs gs : List (String × Value)) :
    stripThoughtSignaturesInFields (fs ++ gs) = stripThoughtSignaturesInFields fs ++
      stripThoughtSignaturesInFields gs := by
  induction fs with
  | nil => rfl
  | cons e fs ih =>
    obtain ⟨key, value⟩ := e
    rw [List.cons_append, stripFields_cons, stripFields_cons, ih, List.cons_append]

theorem stripFields_optional (key : String) (v : Option Value) :
    stripThoughtSignaturesInFields (optional key v) = optional key (v.map (stripField key)) := by
  cases v <;> rfl

theorem stripItems_eq_map (items : List Value) :
    stripThoughtSignaturesInItems items = items.map stripThoughtSignaturesInBody := by
  induction items with
  | nil => rfl
  | cons v items ih => rw [stripThoughtSignaturesInItems, ih, List.map_cons]

theorem stripFields_modifyField {key : String} {f : Value → Value}
    (h : ∀ v, stripField key (f v) = stripField key v) (fields : List (String × Value)) :
    stripThoughtSignaturesInFields (Value.modifyField key f fields) =
      stripThoughtSignaturesInFields fields := by
  induction fields with
  | nil => rfl
  | cons e fields ih =>
    obtain ⟨k, v⟩ := e
    by_cases hk : k = key
    · subst hk
      rw [Value.modifyField, if_pos rfl, stripFields_cons, stripFields_cons, h]
    · rw [Value.modifyField, if_neg hk, stripFields_cons, stripFields_cons, ih]

theorem stripField_id (v : Value) : stripField "id" v = stripInPlace v := rfl

theorem stripField_tool_call_id (v : Value) : stripField "tool_call_id" v = stripInPlace v := rfl

theorem stripField_tool_calls (v : Value) :
    stripField "tool_calls" v = stripThoughtSignaturesInBody v := rfl

theorem stripField_messages (v : Value) :
    stripField "messages" v = stripThoughtSignaturesInBody v := rfl

theorem strip_stripCalls (v : Value) :
    stripThoughtSignaturesInBody (stripCalls v) = stripThoughtSignaturesInBody v := by
  cases v with
  | array calls =>
    rw [stripCalls, stripThoughtSignaturesInBody, stripThoughtSignaturesInBody, stripItems_eq_map,
      stripItems_eq_map, List.map_map]
    refine congrArg Value.array (List.map_congr_left ?_)
    intro c _
    rw [Function.comp_apply]
    cases c with
    | object fields =>
      rw [Value.modify, stripThoughtSignaturesInBody, stripThoughtSignaturesInBody]
      refine congrArg Value.object (stripFields_modifyField ?_ fields)
      intro v
      rw [stripField_id, stripField_id, stripInPlace_stripInPlace]
    | _ => rfl
  | _ => rfl

theorem strip_toValue_stripMessage (m : ChatMessage) :
    stripThoughtSignaturesInBody (stripMessage m).toValue =
      stripThoughtSignaturesInBody m.toValue := by
  have hid :
      optional "tool_call_id" (((m.toolCallId.map stripThoughtSignature).map Value.string).map
      (stripField "tool_call_id")) = optional "tool_call_id"
      ((m.toolCallId.map Value.string).map (stripField "tool_call_id")) := by
    cases m.toolCallId with
    | none => rfl
    | some id =>
      rw [Option.map_some, Option.map_some, Option.map_some, Option.map_some, Option.map_some,
        stripField_tool_call_id, stripField_tool_call_id]
      exact congrArg (fun v => optional "tool_call_id" (some v))
        (stripInPlace_stripInPlace (.string id))
  have hextra : stripThoughtSignaturesInFields (Value.modifyField "tool_calls" stripCalls m.extra) =
      stripThoughtSignaturesInFields m.extra := by
    refine stripFields_modifyField ?_ m.extra
    intro v
    rw [stripField_tool_calls, stripField_tool_calls, strip_stripCalls]
  have htext : (stripMessage m).text = m.text := rfl
  unfold ChatMessage.toValue
  rw [htext]
  unfold stripMessage
  rw [stripThoughtSignaturesInBody, stripThoughtSignaturesInBody]
  simp only [List.cons_append, stripFields_cons, stripFields_append, hextra]
  rw [stripFields_optional "tool_call_id", stripFields_optional "tool_call_id", hid]

theorem strip_toValue_chatWithout (req : ChatFormat) :
    stripThoughtSignaturesInBody (chatWithoutThoughtSignatures req).toValue =
      stripThoughtSignaturesInBody req.toValue := by
  have hmessages :
      stripField "messages" (.array ((req.messages.map stripMessage).map ChatMessage.toValue)) =
      stripField "messages" (.array (req.messages.map ChatMessage.toValue)) := by
    rw [stripField_messages, stripField_messages, stripThoughtSignaturesInBody,
      stripThoughtSignaturesInBody, stripItems_eq_map, stripItems_eq_map, List.map_map,
      List.map_map, List.map_map]
    refine congrArg Value.array (List.map_congr_left ?_)
    intro m _
    exact strip_toValue_stripMessage m
  rw [chatWithout_eq]
  unfold ChatFormat.toValue
  rw [stripThoughtSignaturesInBody, stripThoughtSignaturesInBody]
  simp only [List.cons_append, stripFields_cons, hmessages]

/-! ### Both forms -/

/-- In a raw body and in a typed request a signature is found if and only if taking the signatures
out changes something; taking them out again changes nothing, and none is left. In a body what
becomes of the value of a place is what the place is for; in a request nothing but the tool-call ids
of its messages changes. The walk over the JSON of the request without its signatures gives what it
gives for the request itself, so the two ways agree where no other id of the JSON is signed, and
nowhere else. -/
theorem signatures_exact :
    (∀ v : Value,
      (bodyHasThoughtSignatures v = false ↔ stripThoughtSignaturesInBody v = v) ∧
        stripThoughtSignaturesInBody (stripThoughtSignaturesInBody v) =
          stripThoughtSignaturesInBody v ∧
        bodyHasThoughtSignatures (stripThoughtSignaturesInBody v) = false ∧
        ∀ path, at? path (stripThoughtSignaturesInBody v) = (at? path v).map (place path v).act) ∧
      ∀ req : ChatFormat,
        (chatSigned req = false ↔ chatWithoutThoughtSignatures req = req) ∧
          chatWithoutThoughtSignatures (chatWithoutThoughtSignatures req) =
            chatWithoutThoughtSignatures req ∧
          chatSigned (chatWithoutThoughtSignatures req) = false ∧
          (chatWithoutThoughtSignatures req =
              { req with messages := (chatWithoutThoughtSignatures req).messages } ∧
            List.Forall₂ SameBesidesIds req.messages (chatWithoutThoughtSignatures req).messages) ∧
          stripThoughtSignaturesInBody (chatWithoutThoughtSignatures req).toValue =
            stripThoughtSignaturesInBody req.toValue ∧
          ((chatWithoutThoughtSignatures req).toValue = stripThoughtSignaturesInBody req.toValue ↔
            bodyHasThoughtSignatures (chatWithoutThoughtSignatures req).toValue = false) := by
  constructor
  · intro v
    exact ⟨(strip_eq_self_iff v).symm, strip_strip v, has_strip v, fun path => at?_strip path v⟩
  · intro req
    refine ⟨(chatWithout_eq_self_iff req).symm, chatWithout_of_not (chatSigned_strip req),
      chatSigned_strip req, ⟨?_, ?_⟩, strip_toValue_chatWithout req, ?_⟩
    · rw [chatWithout_eq]
    · rw [chatWithout_eq, List.forall₂_map_right_iff, List.forall₂_same]
      intro m _
      exact sameBesidesIds_strip m
    · rw [← strip_toValue_chatWithout, ← strip_eq_self_iff]
      exact eq_comm

/-- An id of a message itself is stripped in the JSON and not in the typed request. -/
theorem message_id_stripped_in_json_only :
    ¬∀ req : ChatFormat,
      (chatWithoutThoughtSignatures req).toValue = stripThoughtSignaturesInBody req.toValue := by
  intro h
  have hreq :=
    h (.new "m" [⟨.assistant, some "hi", none, none, none, [("id", .string "msg__thought__x")]⟩])
  have hid :=
    congrArg (fun v => (at? [.key "messages", .index 0, .key "id"] v).bind Value.asStr?) hreq
  revert hid
  decide

end ToolCalls
end Aisix
