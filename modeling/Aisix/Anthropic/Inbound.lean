import Aisix.Anthropic.Response
import Aisix.Chat
import Aisix.JsonText

/-!
# Aisix.Anthropic.Inbound

A Messages request, read as a chat request: to be sent on, or to be shown to the guardrails.
-/

namespace Aisix
namespace Anthropic

open Json

inductive AnthropicInboundError where
  | notAnObject
  | missingModel
  | missingMessages
  | messageMissingRole (idx : Nat)
  | unsupportedRole (idx : Nat) (role : String)
  | unsupportedContent (idx : Nat)
  | unsupportedSystem
  | invalidField (field expected : String)
  deriving DecidableEq

/-- What the request is read for. -/
inductive InboundUse where
  | dispatch
  | scan
  deriving DecidableEq

/-- What becomes of the caller's `cache_control` markers. -/
inductive CacheMarkers where
  | drop
  | keep
  deriving DecidableEq

/-- Writes a member of an object. -/
def withMember (key : String) (v : Value) : Value → Value
  | .object fields => .object ((key, v) :: remove key fields)
  | other => other

def hasCacheControl (block : Value) : Bool := (block.get "cache_control").isSome

def textPart (t : String) : Value := .object [("type", .string "text"), ("text", .string t)]

def concatTextBlocks (blocks : List Value) : String :=
  String.join (blocks.filterMap fun b => strField b "text")

/-- The text of a document that carries it in its source. -/
def documentSourceText (block : Value) : Option String :=
  if strField block "type" = some "document" then
    (block.get "source").bind fun source =>
      if strField source "type" = some "text" then strField source "data"
      else if strField source "type" = some "content" then
        match source.get "content" with
        | some (.string text) => some text
        | some (.array blocks) => some (concatTextBlocks blocks)
        | _ => none
      else none
  else none

def mediaUrl (source : Value) : Option String :=
  if strField source "type" = some "base64" then
    (strField source "data").map fun data =>
      "data:" ++ (strField source "media_type").getD "application/octet-stream" ++
        ";base64," ++ data
  else if strField source "type" = some "url" then strField source "url"
  else none

def isPdf (block source : Value) : Bool :=
  strField block "type" == some "document" && strField source "type" == some "base64" &&
    strField source "media_type" == some "application/pdf"

/-- An image or a document as a part of a chat message. -/
def openaiMediaPart (block : Value) : Option Value :=
  (block.get "source").bind fun source =>
    if isPdf block source then
      (strField source "data").map fun data =>
        .object [("type", .string "file"), ("file", .object
          [("filename", .string (((strField block "title").filter (· ≠ "")).getD "document.pdf")),
            ("file_data", .string ("data:application/pdf;base64," ++ data))])]
    else (mediaUrl source).map fun url => .object [("type", .string "image_url"),
      ("image_url", .object [("url", .string url)])]

section Markers

variable (markers : CacheMarkers)

def withMarkerOf (part source : Value) : Value :=
  match markers, source.get "cache_control" with
  | .keep, some marker => withMember "cache_control" marker part
  | _, _ => part

/-- A system prompt that keeps its blocks, because one of them is marked. -/
def markedSystemMessage (system : Value) : Option ChatMessage :=
  match system with
  | .array blocks =>
    if markers = .keep ∧ blocks.any hasCacheControl then
      some ⟨.system, none,
        some (blocks.filterMap fun b => (strField b "text").map fun t =>
          withMarkerOf markers (textPart t) b), none, none, []⟩
    else none
  | _ => none

def toolCallFromToolUse (F : FloatText) (block : Value) : Option Value :=
  (strField block "id").bind fun id => (strField block "name").map fun name =>
    withMarkerOf markers
      (.object [("id", .string id), ("type", .string "function"), ("function", .object
      [("name", .string name),
        ("arguments", .string (String.ofList (text F ((block.get "input").getD (.object [])))))])])
        block

/-- The text of a tool result. -/
def toolResultText (block : Value) : String :=
  match block.get "content" with
  | some (.string s) => s
  | some (.array items) => blocksText items
  | _ => ""

def toolMessageFromToolResult (block : Value) : ChatMessage :=
  let marker :=
    (block.get "cache_control").or ((arrayField block "content").findSome? (·.get "cache_control"))
  { role := .tool
    content := some (toolResultText block)
    contentBlocks := none
    name := none
    toolCallId := (strField block "tool_use_id").filter (· ≠ "")
    extra := if markers = .keep then optional "cache_control" marker else [] }

/-- What has been read of a user's entry. -/
structure UserTurn where
  toolMessages : List ChatMessage
  parts : List Value
  text : String
  nonText : Bool

def UserTurn.addText (turn : UserTurn) (t : String) (block : Value) : UserTurn :=
  { turn with
    text := turn.text ++ t
    parts := turn.parts ++ [withMarkerOf markers (textPart t) block]
    nonText := turn.nonText || markers == .keep && hasCacheControl block }

def UserTurn.read (turn : UserTurn) (block : Value) : UserTurn :=
  if strField block "type" = some "text" then
    match strField block "text" with
    | some t => turn.addText markers t block
    | none => turn
  else
    match documentSourceText block with
    | some t => turn.addText markers t block
    | none =>
      if strField block "type" = some "image" ∨ strField block "type" = some "document" then
        match openaiMediaPart block with
        | some part =>
          { turn with parts := turn.parts ++ [withMarkerOf markers part block], nonText := true }
        | none => turn
      else if strField block "type" = some "tool_result" then
        { turn with toolMessages := turn.toolMessages ++ [toolMessageFromToolResult markers block] }
      else turn

/-- The tool messages come before what the user says. -/
def UserTurn.messages (turn : UserTurn) : List ChatMessage :=
  turn.toolMessages ++
    if turn.parts ≠ [] then
      if turn.nonText then [{ ChatMessage.ofText .user
        turn.text with contentBlocks := some turn.parts }.dropDerivedContent]
      else [.ofText .user turn.text]
    else if turn.toolMessages = [] then [.ofText .user ""]
    else []

def translateUserBlocks (blocks : List Value) : List ChatMessage :=
  (blocks.foldl (UserTurn.read markers) ⟨[], [], "", false⟩).messages

/-- What has been read of an assistant's entry. -/
structure AssistantTurn where
  text : String
  textParts : List Value
  markedText : Bool
  toolCalls : List Value
  reasoning : List String

def AssistantTurn.read (F : FloatText) (purpose : InboundUse) (turn : AssistantTurn)
    (block : Value) : AssistantTurn :=
  if strField block "type" = some "text" then
    match strField block "text" with
    | some t =>
      { turn with
        text := turn.text ++ t
        textParts := turn.textParts ++ [withMarkerOf markers (textPart t) block]
        markedText := turn.markedText || markers == .keep && hasCacheControl block }
    | none => turn
  else if strField block "type" = some "tool_use" then
    { turn with toolCalls := turn.toolCalls ++ (toolCallFromToolUse markers F block).toList }
  else if strField block "type" = some "thinking" then
    match strField block "thinking", purpose with
    | some t, .scan => { turn with text := turn.text ++ t }
    | some t, .dispatch => if t = "" then turn else { turn with reasoning := turn.reasoning ++ [t] }
    | none, _ => turn
  else turn

def AssistantTurn.message (turn : AssistantTurn) : ChatMessage :=
  let msg := ChatMessage.ofText .assistant turn.text
  let msg :=
    if turn.markedText then { msg with contentBlocks := some turn.textParts
      }.dropDerivedContent else msg
  let msg :=
    if turn.toolCalls ≠ [] then
      { msg with
        content := if msg.content = some "" then none else msg.content
        extra := [("tool_calls", .array turn.toolCalls)] }
    else msg
  if turn.reasoning ≠ [] then
    { msg with extra := msg.extra ++
      [("reasoning_content", .string (joinWith "\n" turn.reasoning))] }
  else msg

def translateAssistantBlocks (F : FloatText) (purpose : InboundUse) (blocks : List Value) :
    ChatMessage :=
  (blocks.foldl (AssistantTurn.read markers F purpose) ⟨"", [], false, [], []⟩).message

end Markers

/-! ### The request -/

section Parse

-- `asF64` is `Number::as_f64`
variable (F : FloatText) (asF64 : Number → UInt64) (purpose : InboundUse) (markers : CacheMarkers)

def systemText : Value → Except AnthropicInboundError String
  | .string s => .ok s
  | .array blocks => .ok (joinWith "\n" (blocks.filterMap fun b => strField b "text"))
  | .null => .ok ""
  | _ => .error .unsupportedSystem

def systemMessages (system : Option Value) : Except AnthropicInboundError (List ChatMessage) :=
  match system with
  | none => .ok []
  | some system =>
    match markedSystemMessage markers system with
    | some msg => .ok [msg]
    | none => (systemText system).map fun t => if t = "" then [] else [.ofText .system t]

def systemEntry (blocks : List Value) : ChatMessage :=
  (markedSystemMessage markers (.array blocks)).getD (.ofText .system (concatTextBlocks blocks))

/-- The messages of one entry. -/
def entryMessages (idx : Nat) (m : Value) : Except AnthropicInboundError (List ChatMessage) :=
  match strField m "role" with
  | none => .error (.messageMissingRole idx)
  | some role =>
    if role = "user" then
      match m.get "content" with
      | some (.string s) => .ok [.ofText .user s]
      | some (.array blocks) => .ok (translateUserBlocks markers blocks)
      | _ => .error (.unsupportedContent idx)
    else if role = "assistant" then
      match m.get "content" with
      | some (.string s) => .ok [.ofText .assistant s]
      | some (.array blocks) => .ok [translateAssistantBlocks markers F purpose blocks]
      | _ => .error (.unsupportedContent idx)
    else if role = "system" then
      match m.get "content" with
      | some (.string s) => .ok [.ofText .system s]
      | some (.array blocks) => .ok [systemEntry markers blocks]
      | _ => .error (.unsupportedContent idx)
    else .error (.unsupportedRole idx role)

/-- The messages of the entries from `idx` on. -/
def entriesMessages : Nat → List Value → Except AnthropicInboundError (List ChatMessage)
  | _, [] => .ok []
  | idx, m :: ms =>
    (entryMessages F purpose markers idx m).bind fun out =>
      (entriesMessages (idx + 1) ms).map (out ++ ·)

def asNumber? : Value → Option Number
  | .number n => some n
  | _ => none

def asBool? : Value → Option Bool
  | .bool b => some b
  | _ => none

def asU32? (v : Value) : Option UInt32 := (v.asU64?.filter (· < 2 ^ 32)).map UInt32.ofNat

/-- A member that may be left out or null; read wrongly it is reported as `field`. -/
def presentField {α : Type} (v : Value) (key field expected : String) (read : Value → Option α) :
    Except AnthropicInboundError (Option α) :=
  match v.get key with
  | none | some .null => .ok none
  | some w =>
    match read w with
    | some a => .ok (some a)
    | none => .error (.invalidField field expected)

/-- The sampling parameters. -/
structure Sampling where
  temperature : Option UInt64
  topP : Option UInt64
  maxTokens : Option UInt32
  stream : Option Bool
  topK : Option Nat
  thinkingBudgetTokens : Option Nat
  thoughtsRequested : Bool

def thoughtsRequested (body : Value) : Bool :=
  match body.get "thinking" with
  | some thinking =>
    (strField thinking "type" == some "enabled" || strField thinking "type" == some "adaptive") &&
      strField thinking "display" != some "omitted" &&
      (thinking.get "budget_tokens").bind Value.asU64? != some 0
  | none => false

def thinkingBudgetTokens (body : Value) : Except AnthropicInboundError (Option Nat) :=
  match body.get "thinking" with
  | some thinking =>
    if strField thinking "type" = some "enabled" then
      presentField thinking "budget_tokens" "thinking.budget_tokens" "a non-negative integer"
        Value.asU64?
    else .ok none
  | none => .ok none

/-- A request that is sent on is refused for a parameter of the wrong type. -/
def dispatchSampling (body : Value) : Except AnthropicInboundError Sampling := do
  let temperature ← presentField body "temperature" "temperature" "a number" asNumber?
  let topP ← presentField body "top_p" "top_p" "a number" asNumber?
  let maxTokens ← presentField body "max_tokens" "max_tokens"
    "a non-negative integer no larger than 4294967295" asU32?
  let stream ← presentField body "stream" "stream" "a boolean" asBool?
  let topK ← presentField body "top_k" "top_k" "a non-negative integer" Value.asU64?
  let budget ← thinkingBudgetTokens body
  return ⟨temperature.map asF64, topP.map asF64, maxTokens, stream, topK, budget,
    thoughtsRequested body⟩

def scanSampling (body : Value) : Sampling where
  temperature := ((body.get "temperature").bind asNumber?).map asF64
  topP := ((body.get "top_p").bind asNumber?).map asF64
  maxTokens := (body.get "max_tokens").bind asU32?
  stream := (body.get "stream").bind asBool?
  topK := none
  thinkingBudgetTokens := none
  thoughtsRequested := false

def READ_FIELDS : List String :=
  ["model", "messages", "system", "temperature", "top_p", "max_tokens", "stream"]

def parseInbound (body : Value) : Except AnthropicInboundError ChatFormat :=
  match body with
  | .object fields =>
    match strField body "model" with
    | none => .error .missingModel
    | some model =>
      match body.get "messages" with
      | some (.array rawMessages) => do
        let system ← systemMessages markers (body.get "system")
        let messages ← entriesMessages F purpose markers 0 rawMessages
        let sampling ←
          if purpose = .dispatch then dispatchSampling asF64 body
          else pure (scanSampling asF64 body)
        return ⟨model, system ++ messages, sampling.temperature, sampling.topP, sampling.maxTokens,
          sampling.stream, (fields.filter fun e => !READ_FIELDS.contains e.1), sampling.topK,
          sampling.thinkingBudgetTokens, sampling.thoughtsRequested⟩
      | _ => .error .missingMessages
  | _ => .error .notAnObject

def parseInboundRequest (body : Value) : Except AnthropicInboundError ChatFormat :=
  parseInbound F asF64 .dispatch .drop body

def parseInboundRequestForScan (body : Value) : Except AnthropicInboundError ChatFormat :=
  parseInbound F asF64 .scan .drop body

end Parse

/-! ### What an entry becomes -/

theorem contentStr_dropDerivedContent (m : ChatMessage) :
    m.dropDerivedContent.contentStr = m.contentStr := by
  unfold ChatMessage.dropDerivedContent
  split
  · next h =>
    obtain ⟨hcontent, htext⟩ := h
    unfold ChatMessage.contentStr ChatMessage.text
    rw [Option.none_or, ← htext]
    cases hm : m.content with
    | none => rw [hm] at hcontent; cases hcontent
    | some t => rfl
  · rfl

theorem role_dropDerivedContent (m : ChatMessage) : m.dropDerivedContent.role = m.role := by
  unfold ChatMessage.dropDerivedContent
  split <;> rfl

section Blocks

variable (markers : CacheMarkers)

/-- The text a block adds to what the user says. -/
def userText (block : Value) : Option String :=
  if strField block "type" = some "text" then strField block "text" else documentSourceText block

/-- The results a block brings. -/
def toolResults (block : Value) : List ChatMessage :=
  if strField block "type" =
    some "tool_result" then [toolMessageFromToolResult markers block] else []

theorem documentSourceText_of_ne {block : Value} (h : strField block "type" ≠ some "document") :
    documentSourceText block = none := by
  unfold documentSourceText
  rw [if_neg h]

theorem text_read (turn : UserTurn) (block : Value) :
    (turn.read markers block).text = turn.text ++ (userText block).getD "" := by
  unfold UserTurn.read userText
  split
  · split
    · next t ht => rw [ht]; rfl
    · next ht => rw [ht]; exact String.append_empty.symm
  · split
    · next t ht => rw [ht]; rfl
    · next ht =>
      rw [ht, Option.getD_none, String.append_empty]
      split
      · split <;> rfl
      · split <;> rfl

theorem parts_read (turn : UserTurn) (block : Value) :
    ∃ more, (turn.read markers block).parts = turn.parts ++ more ∧
      ((userText block).isSome → more ≠ []) := by
  unfold UserTurn.read userText
  split
  · split
    · exact ⟨_, rfl, fun _ => nofun⟩
    · next ht => exact ⟨[], (List.append_nil _).symm, fun h => by rw [ht] at h; cases h⟩
  · split
    · exact ⟨_, rfl, fun _ => nofun⟩
    · next ht =>
      have hnone : ∀ {more : List Value}, ((documentSourceText block).isSome → more ≠ []) :=
        fun h => by
        rw [ht] at h; cases h
      split
      · split
        · exact ⟨_, rfl, hnone⟩
        · exact ⟨[], (List.append_nil _).symm, hnone⟩
      · split <;> exact ⟨[], (List.append_nil _).symm, hnone⟩

theorem toolMessages_read (turn : UserTurn) (block : Value) :
    (turn.read markers block).toolMessages = turn.toolMessages ++ toolResults markers block := by
  unfold UserTurn.read toolResults
  by_cases htext : strField block "type" = some "text"
  · rw [if_pos htext, htext, if_neg (by decide), List.append_nil]
    split <;> rfl
  · rw [if_neg htext]
    by_cases hdocument : strField block "type" = some "document"
    · rw [if_pos (.inr hdocument), hdocument, if_neg (by decide), List.append_nil]
      split
      · rfl
      · split <;> rfl
    · rw [documentSourceText_of_ne hdocument]
      dsimp only
      split
      · next hmedia =>
        rw [hmedia.resolve_right hdocument, if_neg (by decide), List.append_nil]
        split <;> rfl
      · split
        · rfl
        · exact (List.append_nil _).symm

/-- The blocks of a user's entry, read one after another. -/
structure UserRead (blocks : List Value) (turn turn' : UserTurn) : Prop where
  text : turn'.text = turn.text ++ String.join (blocks.filterMap userText)
  toolMessages : turn'.toolMessages = turn.toolMessages ++ blocks.flatMap (toolResults markers)
  parts : turn.parts ≠ [] ∨ (∃ b ∈ blocks, (userText b).isSome) → turn'.parts ≠ []

theorem userRead_foldl (blocks : List Value) (turn : UserTurn) :
    UserRead markers blocks turn (blocks.foldl (UserTurn.read markers) turn) := by
  induction blocks generalizing turn with
  | nil =>
    exact ⟨by
      simp, (List.append_nil _).symm, fun h => h.resolve_right fun ⟨b, hb, _⟩ => by cases hb⟩
  | cons block blocks ih =>
    have hrest := ih (turn.read markers block)
    rw [List.foldl_cons]
    refine ⟨?_, ?_, fun h => hrest.parts ?_⟩
    · rw [hrest.text, text_read, List.filterMap_cons]
      cases userText block with
      | none => simp
      | some t => simp [String.append_assoc]
    · rw [hrest.toolMessages, toolMessages_read, List.flatMap_cons, List.append_assoc]
    · obtain ⟨more, hmore, hsome⟩ := parts_read markers turn block
      rcases h with hparts | ⟨b, hb, hb'⟩
      · exact .inl (by rw [hmore]; exact List.append_ne_nil_of_left_ne_nil hparts _)
      · rcases List.mem_cons.mp hb with rfl | hb
        · exact .inl (by rw [hmore]; exact List.append_ne_nil_of_right_ne_nil _ (hsome hb'))
        · exact .inr ⟨b, hb, hb'⟩

/-- The messages of a user's blocks: the results, and what is said when anything is. -/
theorem translateUserBlocks_eq (blocks : List Value) :
    ∃ said : List ChatMessage,
      translateUserBlocks markers blocks = blocks.flatMap (toolResults markers) ++
      said ∧ (∀ m ∈ said, m.role = .user ∧ m.contentStr = String.join (blocks.filterMap userText)) ∧
      ((∃ b ∈ blocks, (userText b).isSome) → said ≠ []) ∧
      (blocks.flatMap (toolResults markers) = [] → said ≠ []) := by
  have hread := userRead_foldl markers blocks ⟨[], [], "", false⟩
  unfold translateUserBlocks UserTurn.messages
  generalize blocks.foldl (UserTurn.read markers) ⟨[], [], "", false⟩ = turn at hread
  have htools : turn.toolMessages = blocks.flatMap (toolResults markers) := hread.toolMessages
  have htext : turn.text = String.join (blocks.filterMap userText) := by
    rw [hread.text, String.empty_append]
  rw [htools, htext]
  refine ⟨_, rfl, fun m hm => ?_, fun hsome => ?_, fun hnil => ?_⟩
  · split at hm
    · split at hm
      · rw [List.mem_singleton.mp hm]
        exact ⟨role_dropDerivedContent _, contentStr_dropDerivedContent _⟩
      · rw [List.mem_singleton.mp hm]
        exact ⟨rfl, rfl⟩
    · next hparts =>
      -- nothing is said: the texts of the blocks are none
      have hnone : blocks.filterMap userText = [] := by
        refine List.filterMap_eq_nil_iff.mpr fun b hb => ?_
        cases hb' : userText b with
        | none => rfl
        | some t => exact absurd (hread.parts (.inr ⟨b, hb, by rw [hb']; rfl⟩)) hparts
      split at hm
      · rw [List.mem_singleton.mp hm, hnone]
        exact ⟨rfl, rfl⟩
      · cases hm
  · rw [if_pos (hread.parts (.inr hsome))]
    split <;> nofun
  · split
    · split <;> nofun
    · nofun

theorem role_toolResults {blocks : List Value} {m : ChatMessage}
    (h : m ∈ blocks.flatMap (toolResults markers)) : m.role = .tool := by
  obtain ⟨b, -, hm⟩ := List.mem_flatMap.mp h
  unfold toolResults at hm
  split at hm
  · rw [List.mem_singleton.mp hm]
    rfl
  · cases hm

end Blocks

section Assistant

variable (F : FloatText) (purpose : InboundUse)

/-- The text a block adds to what the assistant said. -/
def assistantText (block : Value) : Option String :=
  if strField block "type" = some "text" then strField block "text"
  else if strField block "type" = some "thinking" ∧ purpose = .scan then strField block "thinking"
  else none

/-- The call a block makes. -/
def assistantCalls (block : Value) : List Value :=
  if strField block "type" = some "tool_use" then (toolCallFromToolUse .drop F block).toList else []

/-- The blocks of an assistant's entry, read one after another, with the markers dropped. -/
structure AssistantRead (blocks : List Value) (turn turn' : AssistantTurn) : Prop where
  text : turn'.text = turn.text ++ String.join (blocks.filterMap (assistantText purpose))
  toolCalls : turn'.toolCalls = turn.toolCalls ++ blocks.flatMap (assistantCalls F)
  markedText : turn'.markedText = turn.markedText

theorem assistantRead_read (turn : AssistantTurn) (block : Value) :
    AssistantRead F purpose [block] turn (turn.read .drop F purpose block) := by
  unfold AssistantTurn.read
  by_cases htext : strField block "type" = some "text"
  · rw [if_pos htext]
    have hcalls : assistantCalls F block = [] := by
      unfold assistantCalls
      rw [htext, if_neg (by decide)]
    have hown : assistantText purpose block = strField block "text" := by
      unfold assistantText
      rw [if_pos htext]
    cases ht : strField block "text" with
    | none => exact ⟨by simp [hown, ht], by simp [hcalls], rfl⟩
    | some t =>
      refine ⟨by simp [hown, ht], by simp [hcalls], ?_⟩
      dsimp only
      rw [show (CacheMarkers.drop == CacheMarkers.keep) = false from rfl,
        Bool.false_and, Bool.or_false]
  · rw [if_neg htext]
    by_cases huse : strField block "type" = some "tool_use"
    · rw [if_pos huse]
      have hown : assistantText purpose block = none := by
        unfold assistantText
        rw [huse, if_neg (by decide), if_neg fun h => absurd h.1 (by decide)]
      refine ⟨by simp [hown], ?_, rfl⟩
      rw [List.flatMap_singleton, assistantCalls, if_pos huse]
    · rw [if_neg huse]
      have hcalls : assistantCalls F block = [] := by
        unfold assistantCalls
        rw [if_neg huse]
      by_cases hthinking : strField block "type" = some "thinking"
      · rw [if_pos hthinking]
        have hown :
            assistantText purpose block =
              if purpose = .scan then strField block "thinking" else none := by
          unfold assistantText
          rw [if_neg htext]
          simp only [hthinking, true_and]
        cases ht : strField block "thinking" with
        | none => exact ⟨by simp [hown, ht], by simp [hcalls], rfl⟩
        | some t =>
          cases purpose with
          | scan => exact ⟨by simp [hown, ht], by simp [hcalls], rfl⟩
          | dispatch =>
            dsimp only
            split
            · exact ⟨by simp [hown], by simp [hcalls], rfl⟩
            · exact ⟨by simp [hown], by simp [hcalls], rfl⟩
      · rw [if_neg hthinking]
        have hown : assistantText purpose block = none := by
          unfold assistantText
          rw [if_neg htext, if_neg fun h => hthinking h.1]
        exact ⟨by simp [hown], by simp [hcalls], rfl⟩

theorem assistantRead_foldl (blocks : List Value) (turn : AssistantTurn) :
    AssistantRead F purpose blocks turn
      (blocks.foldl (AssistantTurn.read .drop F purpose) turn) := by
  induction blocks generalizing turn with
  | nil => exact ⟨by simp, (List.append_nil _).symm, rfl⟩
  | cons block blocks ih =>
    have hone := assistantRead_read F purpose turn block
    have hrest := ih (turn.read .drop F purpose block)
    refine ⟨?_, ?_, hrest.markedText.trans hone.markedText⟩
    · rw [List.foldl_cons, hrest.text, hone.text, List.filterMap_cons, List.filterMap_cons,
        List.filterMap_nil]
      cases assistantText purpose block with
      | none => simp
      | some t => simp [String.append_assoc]
    · rw [List.foldl_cons, hrest.toolCalls, hone.toolCalls, List.flatMap_singleton,
        List.flatMap_cons, List.append_assoc]

/-- The calls a message holds. -/
def messageCalls (m : ChatMessage) : List Value :=
  match m.extra.lookup "tool_calls" with
  | some (.array calls) => calls
  | _ => []

theorem message_eq (turn : AssistantTurn) (h : turn.markedText = false) :
    turn.message.role = .assistant ∧ turn.message.contentStr = turn.text ∧
      messageCalls turn.message = turn.toolCalls := by
  obtain ⟨said, textParts, markedText, toolCalls, reasoning⟩ := turn
  obtain rfl : markedText = false := h
  have htext : (if some said = some "" then none else some said).getD "" = said := by
    split
    · next hempty => exact (Option.some.inj hempty).symm
    · rfl
  cases toolCalls with
  | nil => cases reasoning <;> exact ⟨rfl, rfl, rfl⟩
  | cons call calls =>
    have hcontent : ((if some said = some "" then none else some said).or none).getD "" = said := by
      rw [Option.or_none, htext]
    cases reasoning <;> exact ⟨rfl, hcontent, rfl⟩

theorem translateAssistantBlocks_eq (blocks : List Value) :
    (translateAssistantBlocks .drop F purpose blocks).role = .assistant ∧
      (translateAssistantBlocks .drop F purpose blocks).contentStr =
        String.join (blocks.filterMap (assistantText purpose)) ∧
      messageCalls (translateAssistantBlocks .drop F purpose blocks) =
        blocks.flatMap (assistantCalls F) := by
  have hread := assistantRead_foldl F purpose blocks ⟨"", [], false, [], []⟩
  have hmessage := message_eq _ hread.markedText
  rw [hread.text, hread.toolCalls, String.empty_append, List.nil_append] at hmessage
  exact hmessage

end Assistant

/-! ### The messages of a request -/

section Entries

variable (F : FloatText) (purpose : InboundUse) (markers : CacheMarkers)

/-- What an entry that is accepted becomes. -/
def messagesOf (m : Value) : List ChatMessage :=
  (entryMessages F purpose markers 0 m).toOption.getD []

/-- An entry that is not refused. -/
def Accepted (m : Value) : Prop := ∃ out, entryMessages F purpose markers 0 m = .ok out

/-- The ways an entry is accepted. -/
inductive EntryReads (m : Value) : List ChatMessage → Prop where
  | userText (s : String) : strField m "role" = some "user" → m.get "content" = some (.string s) →
      EntryReads m [.ofText .user s]
  | userBlocks (blocks : List Value) : strField m "role" = some "user" →
      m.get "content" = some (.array blocks) → EntryReads m (translateUserBlocks markers blocks)
  | assistantText (s : String) : strField m "role" = some "assistant" →
      m.get "content" = some (.string s) → EntryReads m [.ofText .assistant s]
  | assistantBlocks (blocks : List Value) : strField m "role" = some "assistant" →
      m.get "content" = some (.array blocks) →
      EntryReads m [translateAssistantBlocks markers F purpose blocks]
  | systemText (s : String) : strField m "role" = some "system" →
      m.get "content" = some (.string s) → EntryReads m [.ofText .system s]
  | systemBlocks (blocks : List Value) : strField m "role" = some "system" →
      m.get "content" = some (.array blocks) → EntryReads m [systemEntry markers blocks]

theorem entryMessages_eq_ok_iff {idx : Nat} {m : Value} {out : List ChatMessage} :
    entryMessages F purpose markers idx m = .ok out ↔ EntryReads F purpose markers m out := by
  constructor
  · intro h
    unfold entryMessages at h
    cases hrole : strField m "role" with
    | none => rw [hrole] at h; cases h
    | some role =>
      rw [hrole] at h
      dsimp only at h
      split at h
      · next huser =>
        subst huser
        split at h
        · next s hs => exact Except.ok.inj h ▸ .userText s hrole hs
        · next blocks hblocks => exact Except.ok.inj h ▸ .userBlocks blocks hrole hblocks
        · cases h
      · split at h
        · next hassistant =>
          subst hassistant
          split at h
          · next s hs => exact Except.ok.inj h ▸ .assistantText s hrole hs
          · next blocks hblocks => exact Except.ok.inj h ▸ .assistantBlocks blocks hrole hblocks
          · cases h
        · split at h
          · next hsystem =>
            subst hsystem
            split at h
            · next s hs => exact Except.ok.inj h ▸ .systemText s hrole hs
            · next blocks hblocks => exact Except.ok.inj h ▸ .systemBlocks blocks hrole hblocks
            · cases h
          · cases h
  · intro h
    unfold entryMessages
    cases h with
    | userText s hrole hs => rw [hrole, hs]; rfl
    | userBlocks blocks hrole hblocks => rw [hrole, hblocks]; rfl
    | assistantText s hrole hs => rw [hrole, hs]; rfl
    | assistantBlocks blocks hrole hblocks => rw [hrole, hblocks]; rfl
    | systemText s hrole hs => rw [hrole, hs]; rfl
    | systemBlocks blocks hrole hblocks => rw [hrole, hblocks]; rfl

theorem entryMessages_ok (idx' : Nat) {idx : Nat} {m : Value} {out : List ChatMessage}
    (h : entryMessages F purpose markers idx m = .ok out) :
    entryMessages F purpose markers idx' m = .ok out :=
  (entryMessages_eq_ok_iff F purpose markers).mpr ((entryMessages_eq_ok_iff F purpose markers).mp h)

theorem Accepted.reads {m : Value} (h : Accepted F purpose markers m) :
    EntryReads F purpose markers m (messagesOf F purpose markers m) := by
  obtain ⟨out, hout⟩ := h
  rw [messagesOf, hout]
  exact (entryMessages_eq_ok_iff F purpose markers).mp hout

theorem EntryReads.messagesOf_eq {m : Value} {out : List ChatMessage}
    (h : EntryReads F purpose markers m out) : messagesOf F purpose markers m = out := by
  rw [messagesOf, (entryMessages_eq_ok_iff F purpose markers).mpr h]
  rfl

theorem entriesMessages_ok {idx : Nat} {ms : List Value} {out : List ChatMessage}
    (h : entriesMessages F purpose markers idx ms = .ok out) :
    out = ms.flatMap (messagesOf F purpose markers) ∧ ∀ m ∈ ms, Accepted F purpose markers m := by
  induction ms generalizing idx out with
  | nil => exact ⟨(Except.ok.inj h).symm, fun m hm => by cases hm⟩
  | cons m ms ih =>
    rw [entriesMessages] at h
    cases hm : entryMessages F purpose markers idx m with
    | error e => rw [hm] at h; cases h
    | ok first =>
      cases hrest : entriesMessages F purpose markers (idx + 1) ms with
      | error e => rw [hm, hrest] at h; cases h
      | ok rest =>
        rw [hm, hrest] at h
        obtain ⟨htail, haccepted⟩ := ih hrest
        have hfirst := entryMessages_ok F purpose markers 0 hm
        refine ⟨?_, fun m' hm' => ?_⟩
        · rw [List.flatMap_cons, messagesOf, hfirst, ← htail]
          exact (Except.ok.inj h).symm
        · rcases List.mem_cons.mp hm' with rfl | hm'
          · exact ⟨first, hfirst⟩
          · exact haccepted m' hm'

theorem entriesMessages_of_accepted (idx : Nat) {ms : List Value}
    (h : ∀ m ∈ ms, Accepted F purpose markers m) :
    entriesMessages F purpose markers idx ms = .ok (ms.flatMap (messagesOf F purpose markers)) := by
  induction ms generalizing idx with
  | nil => rfl
  | cons m ms ih =>
    obtain ⟨out, hout⟩ := h m List.mem_cons_self
    rw [entriesMessages, entryMessages_ok F purpose markers idx hout,
      ih (idx + 1) fun m' hm' => h m' (.tail m hm'), List.flatMap_cons, messagesOf, hout]
    rfl

theorem systemMessages_role {system : Option Value} {out : List ChatMessage}
    (h : systemMessages markers system = .ok out) : ∀ m ∈ out, m.role = .system := by
  unfold systemMessages at h
  split at h
  · obtain rfl := Except.ok.inj h
    intro m hm
    cases hm
  · split at h
    · next msg hmsg =>
      obtain rfl := Except.ok.inj h
      intro m hm
      rw [List.mem_singleton.mp hm]
      unfold markedSystemMessage at hmsg
      split at hmsg
      · split at hmsg
        · obtain rfl := Option.some.inj hmsg
          rfl
        · cases hmsg
      · cases hmsg
    · next system _ _ =>
      cases htext : systemText system with
      | error e => rw [htext] at h; cases h
      | ok t =>
        rw [htext] at h
        obtain rfl := Except.ok.inj h
        intro m hm
        dsimp only at hm
        split at hm
        · cases hm
        · rw [List.mem_singleton.mp hm]
          rfl

end Entries

end Anthropic
end Aisix
