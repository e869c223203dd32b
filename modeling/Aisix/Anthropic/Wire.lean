import Aisix.Anthropic.Inbound
import Aisix.Anthropic.SseEncoder
import Aisix.ChatReasoning
import Aisix.ContentPart
import Aisix.Runs

/-!
# Aisix.Anthropic.Wire

A chat request as the system prompt and the messages of a Messages request. No media of the request
is downloaded before.
-/

namespace Aisix
namespace Anthropic

open Json ContentPart

inductive TranslateError where
  | missingToolCallId
  | invalidContent (message : String)
  deriving DecidableEq

inductive WireRole where
  | user
  | assistant
  deriving DecidableEq

def WireRole.asStr : WireRole → String
  | user => "user"
  | assistant => "assistant"

structure AnthropicMessage where
  role : WireRole
  content : List Value

inductive AnthropicSystem where
  | text (s : String)
  | blocks (blocks : List Value)

/-! ### Blocks -/

/-- `trim().is_empty()`. -/
def isBlank (t : String) : Bool := trim t == ""

/-- What a text block may carry. -/
def KEEP : List String := ["type", "text", "cache_control", "citations"]

/-- The members a text block may carry; none for a block without text. -/
def anthropicTextBlock (block : Value) : Option Value :=
  match block with
  | .object fields =>
    ((strField (.object fields) "text").filter fun t => !isBlank t).map fun _ =>
      .object (fields.filter fun e => KEEP.contains e.1)
  | _ => none

def anthropicTextBlocks (blocks : List Value) : List Value :=
  (blocks.filter fun b => strField b "type" = some "text").filterMap anthropicTextBlock

def isEmptyTextBlock (block : Value) : Bool :=
  strField block "type" == some "text" && (strField block "text").all isBlank

def messageCacheControl (m : ChatMessage) : Option Value := m.extra.lookup "cache_control"

def toolMessageCacheControl (m : ChatMessage) : Option Value :=
  (messageCacheControl m).or ((m.contentBlocks.getD []).findSome? (·.get "cache_control"))

/-- The marker on the last block, unless that has its own or is a blank text. -/
def markLastBlock (blocks : List Value) (marker : Option Value) : List Value :=
  match marker, blocks.getLast? with
  | some marker, some last =>
    if !isEmptyTextBlock last && !hasCacheControl last then blocks.dropLast ++
      [withMember "cache_control" marker last] else blocks
  | _, _ => blocks

def markBlock (marker : Option Value) (block : Value) : Value :=
  match marker with
  | some marker => withMember "cache_control" marker block
  | none => block

section Media

inductive MediaUrls where
  | accepted
  /-- Carries the upstream's name. -/
  | refused (upstream : String)

def ANTHROPIC_IMAGE_MEDIA_TYPES : List String :=
  ["image/jpeg", "image/png", "image/gif", "image/webp"]

/-- The media type that a payload's first bytes tell. -/
def mediaTypeFromBase64Prefix (data : String) : Option String :=
  [("iVBO", "image/png"), ("/9j/", "image/jpeg"), ("R0lG", "image/gif"),
    ("JVBE", "application/pdf")].lookup (String.ofList (data.toList.take 4))

def startsWith (start : String) (s : String) : Bool := start.toList.isPrefixOf s.toList

-- how `format!` writes a text under `:?`
variable (debug : String → String)

def claudeMediaKind (mimeType : String) : Except String String :=
  if startsWith "image/" mimeType then .ok "image"
  else if mimeType = "application/pdf" then .ok "document"
  else if startsWith "audio/" mimeType then .error "Claude models do not accept audio input"
  else .error ("Claude models accept images and PDF documents, not " ++ debug mimeType)

def mediaBlock (kind : String) (source : List (String × Value)) : Value :=
  .object [("type", .string kind), ("source", .object source)]

/-- The kind of block a URL is sent as. -/
def uriKind (mimeType : Option String) (kind : MediaKind) : Except String String :=
  match mimeType, kind with
  | some m, _ =>
    if m = "application/pdf" then .ok "document"
    else if startsWith "image/" m then .ok "image"
    else .error ("Claude models accept images and PDF documents, not " ++ debug m)
  | none, .file => .ok "document"
  | none, .image => .ok "image"
  | none, .audio => .error "Claude models do not accept audio input"

def anthropicMediaBlock (urls : MediaUrls) (media : Media) : Except String Value :=
  match media.source with
  | .inline mimeType data =>
    let mediaType := (mediaTypeFromBase64Prefix data).getD mimeType
    (claudeMediaKind debug mediaType).bind fun kind =>
      if kind = "image" ∧ mediaType ∉ ANTHROPIC_IMAGE_MEDIA_TYPES then
        .error ("Claude models accept images as JPEG, PNG, GIF or WebP, not " ++ debug mediaType)
      else .ok (mediaBlock kind
        [("type", .string "base64"), ("media_type", .string mediaType), ("data", .string data)])
  | .uri uri mimeType _ =>
    match urls with
    | .refused upstream =>
      .error (upstream ++ " does not read media from a URL, and the gateway did not download " ++
        displayUri debug uri ++ "; send the content inline as a base64 data: URL")
    | .accepted =>
      if media.source.scheme ≠ some "https" then
        .error ("Claude models read only https:// URLs, and the gateway did not download " ++
          displayUri debug uri ++ "; send the content inline as a base64 data: URL")
      else (uriKind debug mimeType media.kind).map fun kind => mediaBlock kind
        [("type", .string "url"), ("url", .string uri)]

/-- The blocks of one part: none for a blank text. -/
def anthropicUserBlock (urls : MediaUrls) (messageIndex partIndex : Nat) (block : Value) :
    Except TranslateError (List Value) :=
  let invalid (reason : String) : Except TranslateError (List Value) :=
    .error (.invalidContent (partError messageIndex partIndex reason))
  match parsePart debug block with
  | .error reason => invalid reason
  | .ok (.text _) => .ok (anthropicTextBlock block).toList
  | .ok (.media media) =>
    match anthropicMediaBlock debug urls media with
    | .error reason => invalid reason
    | .ok translated => .ok [markBlock (block.get "cache_control") translated]
  | .ok (.unsupported ty) =>
    invalid ("content part type " ++ debug ty ++ " is not supported for Claude models")

/-- The blocks of the parts from the `partIndex`-th on. -/
def anthropicUserBlocksFrom (urls : MediaUrls) (messageIndex : Nat) :
    Nat → List Value → Except TranslateError (List Value)
  | _, [] => .ok []
  | partIndex, block :: blocks =>
    (anthropicUserBlock debug urls messageIndex partIndex block).bind fun out =>
      (anthropicUserBlocksFrom urls messageIndex (partIndex + 1) blocks).map (out ++ ·)

def anthropicUserBlocks (urls : MediaUrls) (blocks : List Value) (messageIndex : Nat) :
    Except TranslateError (List Value) :=
  anthropicUserBlocksFrom debug urls messageIndex 0 blocks

end Media

/-! ### Messages -/

namespace AnthropicMessage

def text (role : WireRole) (t : String) : AnthropicMessage := ⟨role, [textPart t]⟩

def toolResult (toolUseId content : String) (cacheControl : Option Value) : AnthropicMessage :=
  ⟨.user,
    [markBlock cacheControl
      (.object [("type", .string "tool_result"), ("tool_use_id", .string toolUseId),
      ("content", .string content)])]⟩

/-- A message without blocks gets an empty text. -/
def fromBlocks (role : WireRole) (content : List Value) : AnthropicMessage :=
  ⟨role, if content = [] then [textPart ""] else content⟩

end AnthropicMessage

section Calls

-- `fromStr` is `serde_json::from_str`
variable (fromStr : String → Option Value)

/-- What a call's arguments read as: an empty object, where they are no object. -/
def toolInput (tc : Value) : Value :=
  match ((((tc.get "function").bind (·.get "arguments")).bind Value.asStr?).bind fromStr) with
  | some (.object fields) => .object fields
  | _ => .object []

def toolUseBlock (tc : Value) : Option Value :=
  if callId tc = "" ∨ callName tc = "" then none
  else
    some (markBlock (tc.get "cache_control")
      (.object [("type", .string "tool_use"), ("id", .string (callId tc)),
        ("name", .string (callName tc)), ("input", toolInput fromStr tc)]))

def toolUseBlocksFromOpenai (toolCalls : List Value) : List Value :=
  toolCalls.filterMap (toolUseBlock fromStr)

namespace AnthropicMessage

/-- The text of an assistant's turn and its calls. -/
def assistant (t : String) (blocks : Option (List Value)) (toolCalls : List Value) :
    AnthropicMessage :=
  let own := anthropicTextBlocks (blocks.getD [])
  let said := if own = [] ∧ t ≠ "" then [textPart t] else own
  fromBlocks .assistant (said ++ toolUseBlocksFromOpenai fromStr toolCalls)

end AnthropicMessage

/-- A call that is replayed has its id and its name. -/
def checkHistoryToolCallsFrom (index : Nat) : Nat → List Value → Except TranslateError Unit
  | _, [] => .ok ()
  | i, call :: calls =>
    if callId call = "" then
      .error
        (.invalidContent ("messages[" ++ toString index ++ "].tool_calls[" ++ toString i ++
          "].id is required"))
    else if callName call = "" then
      .error
        (.invalidContent ("messages[" ++ toString index ++ "].tool_calls[" ++ toString i ++
          "].function.name is required"))
    else checkHistoryToolCallsFrom index (i + 1) calls

def checkHistoryToolCalls (calls : List Value) (index : Nat) : Except TranslateError Unit :=
  checkHistoryToolCallsFrom index 0 calls

section Split

variable (debug : String → String) (urls : MediaUrls)

def markedTurn (turn : AnthropicMessage) (m : ChatMessage) : AnthropicMessage :=
  { turn with content := markLastBlock turn.content (messageCacheControl m) }

def userTurn (m : ChatMessage) (index : Nat) : Except TranslateError AnthropicMessage :=
  match m.contentBlocks with
  | some blocks => (anthropicUserBlocks debug urls blocks index).map (.fromBlocks .user)
  | none => .ok (.text .user (m.content.getD ""))

/-- The message of one turn. -/
def turnOf (index : Nat) (m : ChatMessage) : Except TranslateError AnthropicMessage :=
  match m.role with
  | .system | .developer | .user => (userTurn debug urls m index).map (markedTurn · m)
  | .assistant => do
    checkHistoryToolCalls (messageCalls m) index
    return markedTurn (.assistant fromStr m.contentStr m.contentBlocks (messageCalls m)) m
  | .tool | .function =>
    match m.toolCallId with
    | none => .error .missingToolCallId
    | some toolUseId =>
      match checkToolResultParts debug m index with
      | .error message => .error (.invalidContent message)
      | .ok () => .ok (.toolResult toolUseId m.contentStr (toolMessageCacheControl m))

/-- What has been read of the chat. -/
structure Split where
  systemMsgs : List ChatMessage
  messages : List AnthropicMessage
  seenNonSystem : Bool

def Split.turn (s : Split) (index : Nat) (m : ChatMessage) : Except TranslateError Split :=
  (turnOf fromStr debug urls index m).map fun turn => { s with messages := s.messages ++ [turn] }

def Split.read (s : Split) (index : Nat) (m : ChatMessage) : Except TranslateError Split :=
  -- nothing on this wire carries replayed reasoning
  if m.isReasoningOnly then .ok s
  else
    match m.role with
    | .system =>
      if s.seenNonSystem then s.turn fromStr debug urls index m
      else .ok { s with systemMsgs := s.systemMsgs ++ [m] }
    | .developer => .ok { s with systemMsgs := s.systemMsgs ++ [m] }
    | _ => { s with seenNonSystem := true }.turn fromStr debug urls index m

/-- The messages from the `index`-th on. -/
def Split.readFrom (s : Split) : Nat → List ChatMessage → Except TranslateError Split
  | _, [] => .ok s
  | index, m :: ms => (s.read fromStr debug urls index m).bind fun s =>
    Split.readFrom s (index + 1) ms

def mergeConsecutiveRoles (messages : List AnthropicMessage) : List AnthropicMessage :=
  mergeRuns AnthropicMessage.role
    (fun last msg => { last with content := last.content ++ msg.content }) messages

/-- The blocks of one system message. -/
def systemBlocks (m : ChatMessage) : List Value :=
  markLastBlock ((m.contentBlocks.map anthropicTextBlocks).getD [textPart m.contentStr])
    (messageCacheControl m)

def buildSystem (systemMsgs : List ChatMessage) : Option AnthropicSystem :=
  if systemMsgs = [] then none
  else
    let joined := joinWith "\n\n" (systemMsgs.map ChatMessage.contentStr)
    if systemMsgs.all fun m => m.contentBlocks.isNone &&
      (messageCacheControl m).isNone then some (.text joined)
    else
      let blocks := systemMsgs.flatMap systemBlocks
      if blocks = [] then some (.text joined) else some (.blocks blocks)

def splitSystemWith (req : ChatFormat) :
    Except TranslateError (Option AnthropicSystem × List AnthropicMessage) :=
  ((⟨[], [], false⟩ : Split).readFrom fromStr debug urls 0 req.messages).map fun s =>
    (buildSystem s.systemMsgs, mergeConsecutiveRoles s.messages)

def splitSystem (req : ChatFormat) :
    Except TranslateError (Option AnthropicSystem × List AnthropicMessage) :=
  splitSystemWith fromStr debug .accepted req

end Split
end Calls
end Anthropic
end Aisix
