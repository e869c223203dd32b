import Aisix.JsonText
import Aisix.Redact.ChatSlots
import Aisix.Redact.ValueStrings
import Mathlib.Data.List.Flatten

/-!
# Aisix.Redact.AnthropicWalk

The walk over the content of a Messages request, and the texts of the signed reasoning blocks that
it leaves out. The two fit together as long as such a block stands in a message's content itself
(`signed_covered_iff`).
-/

namespace Aisix
namespace Redact
namespace Messages

open Json

def ANTHROPIC_STRUCTURAL_FIELDS : List String :=
  ["id", "name", "tool_use_id", "tool_id", "tool_name", "file_id", "server_name", "caller_id",
    "custom_tool_use_id", "mcp_tool_use_id", "session_thread_id", "url"]

def ANTHROPIC_PROTOCOL_FIELDS : List String :=
  ["type", "cache_control", "caller", "text", "thinking", "content", "source", "data", "media_type",
    "title", "context", "input", "input_schema", "description", "output", "stdout", "stderr",
    "error", "error_message", "message", "is_error", "citations", "cited_text", "document_title",
    "tool_references"]

def ANTHROPIC_METADATA_FIELDS : List String :=
  ["document_index", "enabled", "end_block_index", "end_char_index", "end_page_number",
    "error_code", "file_type", "from_", "is_file_update", "lines", "new_lines", "new_start",
    "num_lines", "old_lines", "old_start", "page_age", "processed_at", "retrieved_at",
    "return_code", "search_result_index", "start_block_index", "start_char_index", "start_line",
    "start_page_number", "stop_reason", "to", "total_lines", "trigger", "ttl"]

/-- A field that links two items and carries no content. -/
def isCallHandleField (field : String) : Bool :=
  field == "approval_request_id" || TOOL_CALL_ID_KEYS.contains field

inductive AnthropicKeyContext where
  | protocol
  | userDefined
  | serverToolInput
  deriving DecidableEq

/-- A block the provider has signed. -/
def isThinking (objectType : Option String) : Bool :=
  objectType == some "thinking" || objectType == some "redacted_thinking"

/-- A member that is ciphertext or no text. -/
def isOpaque (objectType : Option String) (field : String) : Bool :=
  ["signature", "encrypted_content", "encrypted_index", "encrypted_stdout"].contains field ||
    field == "data" && objectType.any (["base64", "base64_pdf", "redacted_thinking"].contains ·) ||
    field == "url" && objectType.any (["url", "url_pdf", "image", "document"].contains ·)

/-- The members that are not read. -/
def isSkipped (context : AnthropicKeyContext) (objectType : Option String) (field : String) :
    Bool :=
  context == .protocol &&
    (field == "type" || isOpaque objectType field || ANTHROPIC_METADATA_FIELDS.contains field)

/-- The member's key is the caller's. -/
def offersKey (context : AnthropicKeyContext) (field : String) : Bool :=
  context == .userDefined || context == .protocol && !ANTHROPIC_PROTOCOL_FIELDS.contains field &&
    !ANTHROPIC_STRUCTURAL_FIELDS.contains field

/-- How the value of a member is read. -/
inductive Reading where
  | handle
  | structural
  | walked (context : AnthropicKeyContext)

def reading (context : AnthropicKeyContext) (objectType : Option String) (field : String)
    (child : Value) : Reading :=
  if context = .protocol ∧ isCallHandleField field then .handle
  else if context = .protocol ∧
      (ANTHROPIC_STRUCTURAL_FIELDS.contains field ∨ field = "source" ∧
        child.asStr?.isSome) then .structural
  else
    match context with
    | .userDefined => .walked .userDefined
    | .serverToolInput => .walked .serverToolInput
    | .protocol =>
      if field = "input" ∧ objectType = some "server_tool_use" then .walked .serverToolInput
      else if field = "input" ∨ field = "input_schema" then .walked .userDefined
      else if field = "content" ∧ objectType = some "tool_result" ∧
        child.asObject?.isSome then .walked .userDefined
      else .walked .protocol

section Walk

variable (F : FloatText) (dir : Direction)

/-- What a collecting guardrail takes down of a text that could be rewritten. -/
def offered (text : String) : ScanSegment :=
  match dir with
  | .input => ⟨text, .rewritable, true⟩
  | .inputHistory => ⟨text, .rewritable, false⟩
  | .output => ⟨text, .rewritable, true⟩
  | .outputEcho => ⟨text, .echo, true⟩

def offerUnrewritable (text : String) (role : SegmentRole) : List ScanSegment :=
  if text = "" then [] else [⟨text, role, dir != .inputHistory⟩]

mutual

def redactAnthropicValue (context : AnthropicKeyContext) : Value → List ScanSegment
  | .string s => if s = "" then [] else [offered dir s]
  | .array items => redactAnthropicItems context items
  | .object fields =>
    let objectType := strField (.object fields) "type"
    if context = .protocol ∧
      isThinking objectType then [] else redactAnthropicFields context objectType fields
  | .number n =>
    if context = .protocol then []
    else offerUnrewritable dir (String.ofList (numberText F n)) .label
  | .null => []
  | .bool _ => []

def redactAnthropicItems (context : AnthropicKeyContext) : List Value → List ScanSegment
  | [] => []
  | v :: vs => redactAnthropicValue context v ++ redactAnthropicItems context vs

def redactAnthropicFields (context : AnthropicKeyContext) (objectType : Option String) :
    List (String × Value) → List ScanSegment
  | [] => []
  | (field, child) :: rest =>
    (if isSkipped context objectType field then []
      else
        (if offersKey context field then [offered dir field] else []) ++
          match reading context objectType field child with
          | .handle => (allTexts child).flatMap fun text => offerUnrewritable dir text .label
          | .structural => (allTexts child).map (offered dir)
          | .walked childContext => redactAnthropicValue childContext child) ++
      redactAnthropicFields context objectType rest

end

end Walk

def anthropicLatestTurnStart (messages : List Value) : Nat :=
  let answered := (rposition (fun m => strField m "role" != some "system") messages).getD 0
  ((rposition (fun m => strField m "role" == some "assistant") (messages.take answered)).map
    (· + 1)).getD 0

/-- Each message with the direction its content is walked in. -/
def messageDirections (messages : List Value) : List (Value × Direction) :=
  messages.zipIdx.map fun e =>
    (e.1,
      inputWindow (decide (anthropicLatestTurnStart messages ≤ e.2) &&
      strField e.1 "role" != some "system"))

/-- `redact_anthropic_request` over the messages. -/
def redactAnthropicMessages (F : FloatText) (body : Value) : List ScanSegment :=
  (messageDirections (arrayField body "messages")).flatMap fun m =>
    (m.1.get "content").elim [] (redactAnthropicValue F m.2 .protocol)

/-- The text of a signed block, with the window it is judged in. -/
def anthropicSignedReasoningTexts (body : Value) : List (String × Bool) :=
  (arrayField body "messages").flatMap fun m =>
    (arrayField m "content").flatMap fun b =>
      if strField b "type" = some "thinking" then
        ((strField b "thinking").filter (· ≠ "")).toList.map fun text => (text, false)
      else []

/-- What `moderate_anthropic_request` gives the guardrails to judge of the messages. -/
def judgedSegments (F : FloatText) (body : Value) : List ScanSegment :=
  redactAnthropicMessages F body ++ (anthropicSignedReasoningTexts body).map fun t =>
    ⟨t.1, .scanOnly, t.2⟩

/-! ### The walk without the exception -/

/-- A text of a content; `inside` when it stands in a signed block. -/
structure Slot where
  inside : Bool
  text : String
  /-- The role of a text that is judged and not offered for a rewrite. -/
  role : Option SegmentRole

def Slot.segment (dir : Direction) (s : Slot) : ScanSegment :=
  match s.role with
  | none => offered dir s.text
  | some role => ⟨s.text, role, dir != .inputHistory⟩

section Slots

variable (F : FloatText)

def observedSlot (inside : Bool) (text : String) : List Slot :=
  if text = "" then [] else [⟨inside, text, some .label⟩]

mutual

/-- Every text the walk would offer if it read signed blocks like others. -/
def slots (inside : Bool) (context : AnthropicKeyContext) : Value → List Slot
  | .string s => if s = "" then [] else [⟨inside, s, none⟩]
  | .array items => itemSlots inside context items
  | .object fields =>
    let objectType := strField (.object fields) "type"
    fieldSlots (inside || context == .protocol && isThinking objectType) context objectType fields
  | .number n =>
    if context = .protocol then [] else observedSlot inside (String.ofList (numberText F n))
  | .null => []
  | .bool _ => []

def itemSlots (inside : Bool) (context : AnthropicKeyContext) : List Value → List Slot
  | [] => []
  | v :: vs => slots inside context v ++ itemSlots inside context vs

def fieldSlots (inside : Bool) (context : AnthropicKeyContext) (objectType : Option String) :
    List (String × Value) → List Slot
  | [] => []
  | (field, child) :: rest =>
    (if isSkipped context objectType field then []
      else
        (if offersKey context field then [⟨inside, field, none⟩] else []) ++
          match reading context objectType field child with
          | .handle => (allTexts child).flatMap (observedSlot inside)
          | .structural => (allTexts child).map fun text => ⟨inside, text, none⟩
          | .walked childContext => slots inside childContext child) ++
      fieldSlots inside context objectType rest

end

/-- The texts that are passed over because they stand in a signed block. -/
def passedOver (content : Value) : List String :=
  ((slots F false .protocol content).filter (·.inside)).map (·.text)

def contents (body : Value) : List Value := (arrayField body "messages").filterMap (·.get "content")

def bodyPassedOver (body : Value) : List String := (contents body).flatMap (passedOver F)

/-- Every text of the messages. -/
def bodyTexts (body : Value) : List String :=
  (contents body).flatMap fun content => (slots F false .protocol content).map (·.text)

/-- What is passed over is judged otherwise, each text once. -/
structure Covered (body : Value) : Prop where
  returned : (bodyPassedOver F body).Perm ((anthropicSignedReasoningTexts body).map (·.1))
  judged : ((judgedSegments F body).map (·.text)).Perm (bodyTexts F body)

/-- The texts of a block that are taken from it separately. -/
def signedTexts (b : Value) : List String :=
  if strField b "type" =
    some "thinking" then ((strField b "thinking").filter (· ≠ "")).toList else []

/-- The members of a block besides the one that is taken from it. -/
def otherFields (b : Value) (fields : List (String × Value)) : List (String × Value) :=
  if strField b "type" = some "thinking" ∧
    (strField b "thinking").isSome then fields.eraseP (·.1 == "thinking") else fields

/-- What the walk would offer of a signed block's other members. -/
def otherTexts : Value → List String
  | .object fields =>
    (fieldSlots F true .protocol (strField (.object fields) "type")
      (otherFields (.object fields) fields)).map (·.text)
  | _ => []

/-- The texts taken from a content. -/
def contentSignedTexts : Value → List String
  | .array items => items.flatMap signedTexts
  | _ => []

/-- Texts in signed blocks stand in blocks of a message's own list, and there in the block's
`thinking`. -/
structure Plain (body : Value) : Prop where
  listed : ∀ content ∈ contents body, (∀ items, content ≠ .array items) → passedOver F content = []
  nested : ∀ items, .array items ∈ contents body →
    ∀ b ∈ items, isThinking (strField b "type") = false → passedOver F b = []
  own : ∀ items, .array items ∈ contents body → ∀ b ∈ items, isThinking (strField b "type") = true →
    otherTexts F b = []

/-! ### What the exception takes out -/

mutual

theorem inside_slots (context : AnthropicKeyContext) :
    ∀ (v : Value), ∀ s ∈ slots F true context v, s.inside = true
  | .string t, s, h => by
    rw [slots] at h
    split at h
    · cases h
    · rw [List.mem_singleton.mp h]
  | .array items, s, h => by
    rw [slots] at h
    exact inside_itemSlots context items s h
  | .object fields, s, h => by
    rw [slots] at h
    exact inside_fieldSlots context _ fields s h
  | .number n, s, h => by
    rw [slots, observedSlot] at h
    split at h
    · cases h
    · split at h
      · cases h
      · rw [List.mem_singleton.mp h]
  | .null, s, h => by cases h
  | .bool _, s, h => by cases h

theorem inside_itemSlots (context : AnthropicKeyContext) :
    ∀ (items : List Value), ∀ s ∈ itemSlots F true context items, s.inside = true
  | [], s, h => by cases h
  | v :: vs, s, h => by
    rw [itemSlots] at h
    rcases List.mem_append.mp h with h | h
    · exact inside_slots context v s h
    · exact inside_itemSlots context vs s h

theorem inside_fieldSlots (context : AnthropicKeyContext) (objectType : Option String) :
    ∀ (fields : List (String × Value)), ∀ s ∈ fieldSlots F true context objectType fields,
      s.inside = true
  | [], s, h => by cases h
  | (field, child) :: rest, s, h => by
    rw [fieldSlots] at h
    rcases List.mem_append.mp h with h | h
    · split at h
      · cases h
      · rcases List.mem_append.mp h with h | h
        · split at h
          · rw [List.mem_singleton.mp h]
          · cases h
        · split at h
          · obtain ⟨t, -, h⟩ := List.mem_flatMap.mp h
            rw [observedSlot] at h
            split at h
            · cases h
            · rw [List.mem_singleton.mp h]
          · obtain ⟨t, -, rfl⟩ := List.mem_map.mp h
            rfl
          · next childContext hreading => exact inside_slots childContext child s h
    · exact inside_fieldSlots context objectType rest s h

end

/-- What a walk takes down of some slots. -/
def taken (dir : Direction) (ss : List Slot) : List ScanSegment :=
  (ss.filter (! ·.inside)).map (Slot.segment dir)

theorem taken_append (dir : Direction) (ss ss' : List Slot) :
    taken dir (ss ++ ss') = taken dir ss ++ taken dir ss' := by
  unfold taken
  rw [List.filter_append, List.map_append]

theorem taken_inside (dir : Direction) {ss : List Slot} (h : ∀ s ∈ ss, s.inside = true) :
    taken dir ss = [] := by
  unfold taken
  rw [List.filter_eq_nil_iff.mpr fun s hs => by simp [h s hs]]
  rfl

theorem taken_observedSlot (dir : Direction) (text : String) :
    taken dir (observedSlot false text) = offerUnrewritable dir text .label := by
  unfold observedSlot offerUnrewritable
  split <;> rfl

theorem taken_flatMap_observedSlot (dir : Direction) (texts : List String) :
    taken dir (texts.flatMap (observedSlot false)) = texts.flatMap fun text =>
      offerUnrewritable dir text .label := by
  induction texts with
  | nil => rfl
  | cons text texts ih =>
    rw [List.flatMap_cons, taken_append, taken_observedSlot, ih, List.flatMap_cons]

theorem taken_map (dir : Direction) (texts : List String) :
    taken dir (texts.map fun text => ⟨false, text, none⟩) = texts.map (offered dir) := by
  induction texts with
  | nil => rfl
  | cons text texts ih =>
    rw [List.map_cons, ← List.singleton_append, taken_append, ih]
    rfl

mutual

theorem redactAnthropicValue_eq (dir : Direction) (context : AnthropicKeyContext) :
    ∀ v : Value, redactAnthropicValue F dir context v = taken dir (slots F false context v)
  | .string s => by
    rw [redactAnthropicValue, slots]
    split <;> rfl
  | .array items => by
    rw [redactAnthropicValue, slots]
    exact redactAnthropicItems_eq dir context items
  | .object fields => by
    rw [redactAnthropicValue, slots]
    by_cases hsigned : context = .protocol ∧ isThinking (strField (.object fields) "type")
    · have hinside :
          (false || context == .protocol && isThinking (strField (.object fields) "type")) =
          true := by
        simp [hsigned.1, hsigned.2]
      rw [if_pos hsigned, hinside]
      exact (taken_inside dir (inside_fieldSlots F context _ fields)).symm
    · have hinside :
          (false || context == .protocol && isThinking (strField (.object fields) "type")) =
          false := by
        simpa using hsigned
      rw [if_neg hsigned, hinside]
      exact redactAnthropicFields_eq dir context _ fields
  | .number n => by
    rw [redactAnthropicValue, slots]
    split
    · rfl
    · exact (taken_observedSlot dir _).symm
  | .null => rfl
  | .bool _ => rfl

theorem redactAnthropicItems_eq (dir : Direction) (context : AnthropicKeyContext) :
    ∀ items : List Value,
      redactAnthropicItems F dir context items =
      taken dir (itemSlots F false context items)
  | [] => rfl
  | v :: vs => by
    rw [redactAnthropicItems, itemSlots, taken_append, redactAnthropicValue_eq dir context v,
      redactAnthropicItems_eq dir context vs]

theorem redactAnthropicFields_eq (dir : Direction) (context : AnthropicKeyContext)
    (objectType : Option String) : ∀ fields : List (String × Value),
      redactAnthropicFields F dir context objectType fields =
        taken dir (fieldSlots F false context objectType fields)
  | [] => rfl
  | (field, child) :: rest => by
    rw [redactAnthropicFields, fieldSlots, taken_append,
      redactAnthropicFields_eq dir context objectType rest]
    refine congrArg (· ++ _) ?_
    split
    · rfl
    · rw [taken_append]
      congr 1
      · split <;> rfl
      · split
        · exact (taken_flatMap_observedSlot dir _).symm
        · exact (taken_map dir _).symm
        · next childContext hreading => exact redactAnthropicValue_eq dir childContext child

end

/-! ### When nothing is missing -/

variable {F}

theorem mem_fieldSlots_of_thinking {objectType : Option String} {text : String}
    (htext : text ≠ "") :
    ∀ {fields : List (String × Value)}, fields.lookup "thinking" = some (.string text) →
      ⟨true, text, none⟩ ∈ fieldSlots F true .protocol objectType fields
  | [], h => by cases h
  | (field, child) :: rest, h => by
    rw [List.lookup_cons] at h
    rw [fieldSlots]
    split at h
    · next hfield =>
      obtain rfl := Option.some.inj h
      rw [← eq_of_beq hfield]
      have hread : isSkipped .protocol objectType "thinking" = false := by
        cases objectType <;> rfl
      have hwalked : reading .protocol objectType "thinking" (.string text) = .walked .protocol :=
        rfl
      rw [hread, if_neg (by decide), hwalked]
      refine List.mem_append_left _ (List.mem_append_right _ ?_)
      dsimp only
      rw [slots, if_neg htext]
      exact List.mem_singleton_self _
    · exact List.mem_append_right _ (mem_fieldSlots_of_thinking htext h)

theorem slots_of_thinking {b : Value} (h : isThinking (strField b "type") = true) :
    ∃ fields, b = .object fields ∧
      slots F false .protocol b = fieldSlots F true .protocol (strField b "type") fields := by
  cases b with
  | object fields =>
    refine ⟨fields, rfl, ?_⟩
    rw [slots, h]
    rfl
  | _ => cases h

theorem signedTexts_sublist (b : Value) : List.Sublist (signedTexts b) (passedOver F b) := by
  unfold signedTexts
  split
  · next htype =>
    cases htext : (strField b "thinking").filter (· ≠ "") with
    | none => exact List.nil_sublist _
    | some text =>
      obtain ⟨hfield, hne⟩ := Option.filter_eq_some_iff.mp htext
      have hthinking : isThinking (strField b "type") = true := by
        rw [htype]
        rfl
      obtain ⟨fields, rfl, hslots⟩ := slots_of_thinking (F := F) hthinking
      obtain ⟨v, hlookup, hv⟩ := Option.bind_eq_some_iff.mp hfield
      have hstring : v = .string text := by
        cases v with
        | string s => exact congrArg Value.string (Option.some.inj hv)
        | _ => cases hv
      rw [hstring] at hlookup
      have hmem :
          ⟨true, text, none⟩ ∈ fieldSlots F true .protocol
          (strField (.object fields) "type") fields :=
        mem_fieldSlots_of_thinking (of_decide_eq_true hne) hlookup
      rw [Option.toList_some, List.singleton_sublist]
      unfold passedOver
      rw [hslots]
      exact List.mem_map_of_mem (List.mem_filter.mpr ⟨hmem, rfl⟩)
  · exact List.nil_sublist _

theorem length_fieldSlots_thinking {objectType : Option String} {text : String} :
    ∀ {fields : List (String × Value)}, fields.lookup "thinking" = some (.string text) →
      (fieldSlots F true .protocol objectType fields).length =
        (if text = "" then 0 else 1) +
          (fieldSlots F true .protocol objectType (fields.eraseP (·.1 == "thinking"))).length
  | [], h => by cases h
  | (field, child) :: rest, h => by
    rw [List.lookup_cons] at h
    split at h
    · next hfield =>
      obtain rfl := Option.some.inj h
      obtain rfl := (eq_of_beq hfield).symm
      have hread : isSkipped .protocol objectType "thinking" = false := by
        cases objectType <;> rfl
      have hwalked : reading .protocol objectType "thinking" (.string text) = .walked .protocol :=
        rfl
      rw [List.eraseP_cons_of_pos (by rfl), fieldSlots, hread, if_neg (by decide), hwalked,
        List.length_append]
      dsimp only
      rw [if_neg (by decide), List.nil_append, slots]
      split <;> rfl
    · next hfield =>
      have hother : ¬ ((field, child).1 == "thinking") = true := by
        intro heq
        rw [show field = "thinking" from eq_of_beq heq] at hfield
        cases hfield
      rw [List.eraseP_cons_of_neg (p := fun x : String × Value => x.1 == "thinking") hother,
        fieldSlots, fieldSlots, List.length_append, List.length_append,
        length_fieldSlots_thinking h]
      omega

/-- Nothing but the `thinking` of a signed block is passed over when its other members hold no text.
-/
theorem passedOver_eq_iff {b : Value} (h : isThinking (strField b "type") = true) :
    passedOver F b = signedTexts b ↔ otherTexts F b = [] := by
  have hsublist := signedTexts_sublist (F := F) b
  obtain ⟨fields, rfl, hslots⟩ := slots_of_thinking (F := F) h
  have hpassed : passedOver F (.object fields) =
      (fieldSlots F true .protocol (strField (.object fields) "type") fields).map (·.text) := by
    unfold passedOver
    rw [hslots, List.filter_eq_self.mpr fun s hs => inside_fieldSlots F _ _ _ s hs]
  have hiff : passedOver F (.object fields) = signedTexts (.object fields) ↔
      (passedOver F (.object fields)).length = (signedTexts (.object fields)).length :=
    ⟨congrArg List.length, fun hlength => (hsublist.eq_of_length hlength.symm).symm⟩
  rw [hiff, ← List.length_eq_zero_iff, hpassed, otherTexts, List.length_map, List.length_map,
    otherFields, signedTexts]
  by_cases htype : strField (.object fields) "type" = some "thinking"
  · cases htext : strField (.object fields) "thinking" with
    | none => simp
    | some text =>
      obtain ⟨v, hlookup, hv⟩ := Option.bind_eq_some_iff.mp htext
      have hstring : v = .string text := by
        cases v with
        | string s => exact congrArg Value.string (Option.some.inj hv)
        | _ => cases hv
      rw [hstring] at hlookup
      have hone : (Option.filter (· ≠ "") (some text)).toList.length =
          if text = "" then 0 else 1 := by
        by_cases hempty : text = ""
        · simp [hempty]
        · simp [hempty]
      rw [length_fieldSlots_thinking hlookup, if_pos htype,
        if_pos (And.intro htype Option.isSome_some), hone]
      omega
  · rw [if_neg htype, if_neg fun hboth => htype hboth.1]
    rfl

theorem passedOver_array (items : List Value) :
    passedOver F (.array items) = items.flatMap (passedOver F) := by
  unfold passedOver
  rw [slots]
  induction items with
  | nil => rfl
  | cons b items ih => rw [itemSlots, List.filter_append, List.map_append, ih, List.flatMap_cons]

theorem contentSignedTexts_sublist (content : Value) :
    List.Sublist (contentSignedTexts content) (passedOver F content) := by
  cases content with
  | array items =>
    rw [passedOver_array]
    exact List.Sublist.flatMap_right items fun b _ => signedTexts_sublist b
  | _ => exact List.nil_sublist _

theorem perm_flatMap_iff {α β : Type} {f g : α → List β} :
    ∀ {l : List α}, (∀ x ∈ l, List.Sublist (f x) (g x)) →
    ((l.flatMap g).Perm (l.flatMap f) ↔ ∀ x ∈ l, g x = f x) := by
  intro l h
  constructor
  · intro hperm
    have hlength := hperm.length_eq
    clear hperm
    induction l with
    | nil =>
      intro x hx
      cases hx
    | cons y l ih =>
      obtain ⟨hy, hl⟩ := List.forall_mem_cons.1 h
      rw [List.flatMap_cons, List.flatMap_cons, List.length_append, List.length_append] at hlength
      have hhead := hy.length_le
      have htail := (List.Sublist.flatMap_right l hl).length_le
      refine List.forall_mem_cons.2 ⟨(hy.eq_of_length (by omega)).symm, ih hl (by omega)⟩
  · intro heq
    rw [List.flatMap_congr heq]

theorem flatMap_contents {β : Type} (g : Value → List β) (body : Value) :
    (contents body).flatMap g = (arrayField body "messages").flatMap fun m =>
    (m.get "content").elim [] g := by
  unfold contents
  induction arrayField body "messages" with
  | nil => rfl
  | cons m messages ih =>
    rw [List.filterMap_cons, List.flatMap_cons, ← ih]
    cases m.get "content" with
    | none => rfl
    | some content => rfl

theorem signed_eq (body : Value) :
    (anthropicSignedReasoningTexts body).map (·.1) =
    (contents body).flatMap contentSignedTexts := by
  unfold anthropicSignedReasoningTexts
  rw [flatMap_contents, List.map_flatMap]
  refine List.flatMap_congr fun m _ => ?_
  have hitems : ∀ items : List Value, (items.flatMap fun b =>
      if strField b "type" = some "thinking" then
        ((strField b "thinking").filter (· ≠ "")).toList.map fun text => (text, false)
      else []).map (·.1) = items.flatMap signedTexts := by
    intro items
    rw [List.map_flatMap]
    refine List.flatMap_congr fun b _ => ?_
    unfold signedTexts
    split
    · rw [List.map_map]
      exact List.map_id _
    · rfl
  rw [hitems, arrayField]
  cases m.get "content" with
  | none => rfl
  | some content => cases content <;> rfl

theorem redactAnthropicMessages_texts (body : Value) :
    (redactAnthropicMessages F body).map (·.text) =
      (contents body).flatMap fun content =>
      ((slots F false .protocol content).filter (! ·.inside)).map (·.text) := by
  have htaken :
      ∀ dir (ss : List Slot), (taken dir ss).map (·.text) =
      (ss.filter (! ·.inside)).map (·.text) := by
    intro dir ss
    unfold taken
    rw [List.map_map]
    refine List.map_congr_left fun s _ => ?_
    unfold Function.comp Slot.segment
    cases s.role with
    | none => cases dir <;> rfl
    | some role => rfl
  have hfst : (messageDirections (arrayField body "messages")).map (·.1) =
      arrayField body "messages" := by
    unfold messageDirections
    rw [List.map_map]
    exact List.zipIdx_map_fst 0 _
  rw [flatMap_contents, redactAnthropicMessages, List.map_flatMap]
  conv_rhs => rw [← hfst, List.flatMap_map]
  refine List.flatMap_congr fun m _ => ?_
  cases m.1.get "content" with
  | none => rfl
  | some content =>
    dsimp only [Option.elim_some]
    rw [redactAnthropicValue_eq, htaken]

theorem texts_perm (body : Value) :
    ((redactAnthropicMessages F body).map (·.text) ++ bodyPassedOver F body).Perm
    (bodyTexts F body) := by
  rw [redactAnthropicMessages_texts]
  unfold bodyPassedOver bodyTexts
  refine (List.flatMap_append_perm _ _ _).trans (List.Perm.flatMap_left _ fun content _ => ?_)
  unfold passedOver
  rw [← List.map_append]
  exact (List.perm_append_comm.trans (List.filter_append_perm _ _)).map _

theorem covered_of_perm {body : Value}
    (h : (bodyPassedOver F body).Perm ((anthropicSignedReasoningTexts body).map (·.1))) :
    Covered F body := by
  refine ⟨h, ?_⟩
  have hjudged : (judgedSegments F body).map (·.text) =
      (redactAnthropicMessages F body).map (·.text) ++
        (anthropicSignedReasoningTexts body).map (·.1) := by
    unfold judgedSegments
    rw [List.map_append, List.map_map]
    rfl
  rw [hjudged]
  exact (List.Perm.append_left _ h.symm).trans (texts_perm body)

theorem plain_iff_eq (body : Value) :
    Plain F body ↔
      ∀ content ∈ contents body, passedOver F content = contentSignedTexts content := by
  constructor
  · intro h content hcontent
    by_cases harray : ∃ items, content = .array items
    · obtain ⟨items, rfl⟩ := harray
      rw [passedOver_array]
      refine List.flatMap_congr fun b hb => ?_
      cases hthinking : isThinking (strField b "type") with
      | true => exact (passedOver_eq_iff hthinking).mpr (h.own items hcontent b hb hthinking)
      | false =>
        rw [h.nested items hcontent b hb hthinking, signedTexts, if_neg]
        intro htype
        rw [htype] at hthinking
        cases hthinking
    · have hsigned : contentSignedTexts content = [] := by
        cases content with
        | array items => exact absurd ⟨items, rfl⟩ harray
        | _ => rfl
      rw [hsigned]
      exact h.listed content hcontent fun items heq => harray ⟨items, heq⟩
  · intro h
    have hitems : ∀ items, .array items ∈ contents body →
        ∀ b ∈ items, passedOver F b = signedTexts b := by
      intro items hcontent
      have heq := h _ hcontent
      rw [passedOver_array] at heq
      exact (perm_flatMap_iff fun b _ => signedTexts_sublist b).mp (heq ▸ List.Perm.refl _)
    refine ⟨?_, ?_, fun items hcontent b hb hthinking => (passedOver_eq_iff hthinking).mp
      (hitems items hcontent b hb)⟩
    · intro content hcontent hlist
      rw [h content hcontent]
      cases content with
      | array items => exact absurd rfl (hlist items)
      | _ => rfl
    · intro items hcontent b hb hthinking
      rw [hitems items hcontent b hb, signedTexts, if_neg]
      intro htype
      rw [htype] at hthinking
      cases hthinking

/-- Nothing is missing exactly when signed blocks are where the separate list looks for them. -/
theorem signed_covered_iff (F : FloatText) (body : Value) :
    (∀ dir content, redactAnthropicValue F dir .protocol content =
      taken dir (slots F false .protocol content)) ∧
      (Covered F body ↔ Plain F body) := by
  refine ⟨fun dir content => redactAnthropicValue_eq F dir .protocol content, ?_⟩
  rw [plain_iff_eq]
  have hlocal :=
    perm_flatMap_iff (l := contents body) fun content _ => contentSignedTexts_sublist
      (F := F) content
  rw [← hlocal]
  constructor
  · intro h
    have hreturned := h.returned
    rw [signed_eq] at hreturned
    exact hreturned
  · intro h
    refine covered_of_perm ?_
    rw [signed_eq]
    exact h

end Slots

/-- A tool's result that quotes a signed block. -/
def nestedThinking : Value :=
  .object [("messages", .array [.object [("role", .string "user"),
    ("content", .array [.object [("type", .string "tool_result"), ("tool_use_id", .string "t"),
      ("content", .array [.object [("type", .string "thinking"), ("thinking", .string "secret"),
        ("signature", .string "s")]])]])]])]

theorem nestedThinking_not_covered : ¬ Covered bitsText nestedThinking := by
  intro h
  have hpassed : bodyPassedOver bitsText nestedThinking = ["secret"] := by
    decide
  have hlisted : (anthropicSignedReasoningTexts nestedThinking).map (·.1) = [] := rfl
  have hlength := h.returned.length_eq
  rw [hpassed, hlisted] at hlength
  cases hlength

end Messages
end Redact
end Aisix
