import Aisix.ChatMerge
import Aisix.ChatReasoning
import Aisix.Responses.ToolNames

/-!
# Aisix.Responses.History

The input of a Responses request as chat messages: each item is appended, calls to the assistant's
last message, and reasoning is then moved onto the turn that follows it.
-/

namespace Aisix

open Json

namespace Responses
namespace History

open ChatMerge

/-! ### The content of an item -/

/-- A content slot: the text of its text parts, and the parts when a chat message can only have them
as blocks. -/
structure ChatContent where
  text : String
  blocks : Option (List Value)

namespace ChatContent

def intoMessage (c : ChatContent) (role : Role) : ChatMessage :=
  ChatMessage.dropDerivedContent ⟨role, some c.text, c.blocks, none, none, []⟩

def isEmpty (c : ChatContent) : Bool := c.text == "" && c.blocks.isNone

end ChatContent

def textBlock (t : String) : Value := .object [("type", .string "text"), ("text", .string t)]

def inputImageBlock (part : Value) : Option Value :=
  ((strField part "image_url").filter (· ≠ "")).map fun url =>
    .object [("type", .string "image_url"),
      ("image_url",
        .object (("url", .string url) :: optional "detail" ((strField part "detail").map .string)))]

def notNull (v : Option Value) : Option Value :=
  v.filter fun v => match v with | .null => false | _ => true

/-- The members of these names that are not null. -/
def givenMembers (keys : List String) (v : Value) : List (String × Value) :=
  keys.flatMap fun key => optional key (notNull (v.get key))

def inputFileBlock (part : Value) : Option Value :=
  let file := givenMembers ["file_data", "filename", "file_id"] part
  if file.isEmpty then none else some (.object [("type", .string "file"), ("file", .object file)])

def inputAudioBlock (part : Value) : Option Value :=
  let audio := givenMembers ["data", "format"] ((part.get "input_audio").getD part)
  if audio.isEmpty then none
  else some (.object [("type", .string "input_audio"), ("input_audio", .object audio)])

/-- What a part is: its text, or a block that is no text. -/
inductive PartContent where
  | text (t : String)
  | media (block : Value)

def partContent (part : Value) : Option PartContent :=
  match part with
  | .string s => some (.text s)
  | part =>
    match strField part "type" with
    | some "input_image" => (inputImageBlock part).map .media
    | some "input_file" => (inputFileBlock part).map .media
    | some "input_audio" => (inputAudioBlock part).map .media
    | _ => (strField part "text").map .text

namespace PartContent

def text? : PartContent → Option String
  | text t => some t
  | media _ => none

def block : PartContent → Value
  | text t => textBlock t
  | media block => block

def isMedia : PartContent → Bool
  | text _ => false
  | media _ => true

end PartContent

def responsesContentToChat (v : Value) : ChatContent :=
  match v with
  | .string s => ⟨s, none⟩
  | .array parts =>
    let contents := parts.filterMap partContent
    ⟨String.join (contents.filterMap PartContent.text?),
      if contents.any PartContent.isMedia then some (contents.map PartContent.block) else none⟩
  | _ => ⟨"", none⟩

def isContentPart (item : Value) : Bool :=
  item.asStr?.isSome || (strField item "text").isSome ||
    match strField item "type" with
    | some "input_text" | some "output_text" | some "text" | some "input_image" | some
        "input_file" | some "input_audio" => true
    | _ => false

section Items

variable (F : FloatText)

def jsonText (v : Value) : String := String.ofList (text F v)

def outputText (item : Value) : String :=
  if isContentPart item then (item.asStr?.or (strField item "text")).getD "" else jsonText F item

/-- A tool's output as chat text: `serde_json`'s text of what is no part. -/
def functionCallOutputToChat (output : Value) : ChatContent :=
  match output with
  | .object fields => ⟨jsonText F (.object fields), none⟩
  | .number n => ⟨jsonText F (.number n), none⟩
  | .bool b => ⟨jsonText F (.bool b), none⟩
  | .array items =>
    if !items.isEmpty && !items.any isContentPart then ⟨jsonText F (.array items), none⟩
    else ⟨String.join (items.map (outputText F)), none⟩
  | output => { responsesContentToChat output with blocks := none }

def REASONING_CONTENT : String := "reasoning_content"

def isOpaque (part : Value) : Bool :=
  match strField part "type" with
  | some "encrypted_content" | some "redacted_thinking" => true
  | _ => false

/-- The texts of parts, trimmed; none when they are all blank. -/
def partsText (skipOpaque : Bool) (parts : Value) : Option String :=
  match parts with
  | .array parts =>
    let texts := ((parts.filter fun p => !skipOpaque || !isOpaque p).filterMap fun p =>
      (strField p "text").map fun t => String.ofList (Sse.trim t.toList)).filter (· ≠ "")
    if texts.isEmpty then none else some ("\n".intercalate texts)
  | _ => none

def replayedReasoningText (item : Value) : Option String :=
  ((item.get "content").bind (partsText true)).or ((item.get "summary").bind (partsText false))

/-- An assistant message that holds reasoning only. -/
def reasoningMessage (content : Option String) (text : String) : ChatMessage :=
  ⟨.assistant, content, none, none, none, [(REASONING_CONTENT, .string text)]⟩

def toolMessage (callId : String) (output : ChatContent) : ChatMessage :=
  ⟨.tool, some output.text, output.blocks, none, some callId, []⟩

def messageRole (item : Value) : Role :=
  match (strField item "role").getD "user" with
  | "assistant" => .assistant
  | "system" => .system
  | "developer" => .developer
  | _ => .user

/-- What an item that is no call is. -/
inductive ItemType where
  | output
  | reasoning
  | message
  deriving DecidableEq

def itemType (item : Value) : ItemType :=
  match strField item "type" with
  | some "function_call_output" | some "custom_tool_call_output" => .output
  | some "reasoning" => .reasoning
  | _ => .message

/-- One item of the input. -/
def appendInputItem (messages : List ChatMessage) (item : Value) : List ChatMessage :=
  match item with
  | .string text => if text = "" then messages else messages ++ [.ofText .user text]
  | item =>
    match replayedCall F item with
    | some tc => pushToolCall messages tc
    | none =>
      match itemType item with
      | .output =>
        messages ++ [toolMessage ((strField item "call_id").getD "")
          (((item.get "output").map (functionCallOutputToChat F)).getD ⟨"", none⟩)]
      | .reasoning =>
        match replayedReasoningText item with
        | some text => messages ++ [reasoningMessage none text]
        | none => messages
      | .message =>
        let content := ((item.get "content").map responsesContentToChat).getD ⟨"", none⟩
        if content.isEmpty then messages else messages ++ [content.intoMessage (messageRole item)]

end Items

/-! ### Reasoning is moved -/

def flushStandalone (pending : List String) : List ChatMessage :=
  pending.map (reasoningMessage (some ""))

def takeReasoning (pending : List String) (m : ChatMessage) : ChatMessage :=
  let existing := ((m.extra.lookup REASONING_CONTENT).bind Value.asStr?).filter (· ≠ "")
  { m with extra := setMember REASONING_CONTENT (.string
    ("\n".intercalate (pending ++ existing.toList))) m.extra }

def attachFrom (pending : List String) : List ChatMessage → List ChatMessage
  | [] => flushStandalone pending
  | m :: ms =>
    if m.isReasoningOnly then
      match m.extra.lookup REASONING_CONTENT with
      | some (.string text) => attachFrom (pending ++ [text]) ms
      | _ => attachFrom pending ms
    else if pending.isEmpty then m :: attachFrom [] ms
    else if m.role = .assistant then takeReasoning pending m :: attachFrom [] ms
    else flushStandalone pending ++ m :: attachFrom [] ms

def attachReplayedReasoning (messages : List ChatMessage) : List ChatMessage :=
  attachFrom [] messages

/-- The chat messages of an input. -/
def chatMessages (F : FloatText) (items : List Value) : List ChatMessage :=
  attachReplayedReasoning (items.foldl (appendInputItem F) [])

end History
end Responses
end Aisix
