import Aisix.Anthropic.SseEncoder
import Aisix.OpaqueId.Sealer

/-!
# Aisix.Responses.Encoder

The encoder that writes a chat stream as a Responses stream: one response of numbered output items,
which reasoning, text, refusals and tool calls share.
-/

namespace Aisix
namespace Responses

open Json OpaqueId Anthropic

/-- What the items that stream a text are of. -/
inductive Channel where
  | reasoning
  | text
  | refusal
  deriving DecidableEq, Repr

/-- The texts an item streams. -/
inductive Streamed where
  | channel (c : Channel)
  | functionCallArguments
  | customToolCallInput
  deriving DecidableEq, Repr

inductive ContentPart where
  | outputText (text : String)
  | refusal (refusal : String)
  deriving DecidableEq, Repr

inductive OutputItem where
  | reasoning (id status : String) (summary : Option String)
  | message (id status : String) (content : Option ContentPart)
  | functionCall (id callId name : String) («namespace» : Option String) (arguments status : String)
  | customToolCall (id callId name input status : String)
  deriving DecidableEq, Repr

namespace OutputItem

def type : OutputItem → String
  | reasoning .. => "reasoning"
  | message .. => "message"
  | functionCall .. => "function_call"
  | customToolCall .. => "custom_tool_call"

def id : OutputItem → String
  | reasoning id .. => id
  | message id .. => id
  | functionCall id .. => id
  | customToolCall id .. => id

def name : OutputItem → Option String
  | functionCall _ _ name .. => some name
  | customToolCall _ _ name .. => some name
  | _ => none

/-- The text, the arguments or the input of an item. -/
def body : OutputItem → String
  | reasoning _ _ summary => summary.getD ""
  | message _ _ none => ""
  | message _ _ (some (.outputText text)) => text
  | message _ _ (some (.refusal refusal)) => refusal
  | functionCall _ _ _ _ arguments _ => arguments
  | customToolCall _ _ _ input _ => input

end OutputItem

def reasoningItemJson (itemId text : String) : OutputItem :=
  .reasoning itemId "completed" (some text)

def messageItemJson (itemId text : String) : OutputItem :=
  .message itemId "completed" (some (.outputText text))

def refusalItemJson (itemId refusal : String) : OutputItem :=
  .message itemId "completed" (some (.refusal refusal))

/-- The Response object; `output` and `usage` are filled in a terminal event only. -/
structure Response where
  id : String
  createdAt : Int
  model : String
  status : String
  output : List OutputItem
  usage : Option UsageStats
  incompleteReason : Option String
  serviceTier : Option String
  echo : List (String × Value)

inductive EventData where
  | created (response : Response)
  | inProgress (response : Response)
  | outputItemAdded (outputIndex : Nat) (item : OutputItem)
  | partAdded (channel : Channel) (itemId : String) (outputIndex : Nat)
  | delta (streamed : Streamed) (itemId : String) (outputIndex : Nat) (delta : String)
  | done (streamed : Streamed) (itemId : String) (outputIndex : Nat) (text : String)
  | partDone (channel : Channel) (itemId : String) (outputIndex : Nat) (text : String)
  | outputItemDone (outputIndex : Nat) (item : OutputItem)
  | completed (response : Response)
  | incomplete (response : Response)

def Streamed.eventType : Streamed → String
  | .channel .reasoning => "response.reasoning_summary_text"
  | .channel .text => "response.output_text"
  | .channel .refusal => "response.refusal"
  | .functionCallArguments => "response.function_call_arguments"
  | .customToolCallInput => "response.custom_tool_call_input"

def Channel.partType : Channel → String
  | .reasoning => "response.reasoning_summary_part"
  | .text | .refusal => "response.content_part"

namespace EventData

def eventType : EventData → String
  | created _ => "response.created"
  | inProgress _ => "response.in_progress"
  | outputItemAdded .. => "response.output_item.added"
  | partAdded c .. => c.partType ++ ".added"
  | delta streamed .. => streamed.eventType ++ ".delta"
  | done streamed .. => streamed.eventType ++ ".done"
  | partDone c .. => c.partType ++ ".done"
  | outputItemDone .. => "response.output_item.done"
  | completed _ => "response.completed"
  | incomplete _ => "response.incomplete"

end EventData

/-- How ids are sealed on their way out, when they are. -/
abbrev Seal := Option (IdKind → String → String)

def sealId (sealer : Seal) (kind : IdKind) (id : String) : String :=
  match sealer with
  | some f => if id = "" then id else f kind id
  | none => id

def sealItem (sealer : Seal) : OutputItem → OutputItem
  | .reasoning id status summary => .reasoning (sealId sealer .item id) status summary
  | .message id status content => .message (sealId sealer .item id) status content
  | .functionCall id callId name ns arguments status =>
    .functionCall (sealId sealer .item id) (sealId sealer .call callId) name ns arguments status
  | .customToolCall id callId name input status =>
    .customToolCall (sealId sealer .item id) (sealId sealer .call callId) name input status

def sealResponsesBody (sealer : Seal) (response : Response) : Response :=
  { response with output := response.output.map (sealItem sealer) }

def sealResponsesEvent (sealer : Seal) : EventData → EventData
  | .created response => .created (sealResponsesBody sealer response)
  | .inProgress response => .inProgress (sealResponsesBody sealer response)
  | .outputItemAdded outputIndex item => .outputItemAdded outputIndex (sealItem sealer item)
  | .partAdded c itemId outputIndex => .partAdded c (sealId sealer .item itemId) outputIndex
  | .delta streamed itemId outputIndex delta =>
    .delta streamed (sealId sealer .item itemId) outputIndex delta
  | .done streamed itemId outputIndex text =>
    .done streamed (sealId sealer .item itemId) outputIndex text
  | .partDone c itemId outputIndex text => .partDone c (sealId sealer .item itemId) outputIndex text
  | .outputItemDone outputIndex item => .outputItemDone outputIndex (sealItem sealer item)
  | .completed response => .completed (sealResponsesBody sealer response)
  | .incomplete response => .incomplete (sealResponsesBody sealer response)

/-- One event as it leaves, its number stamped on it. -/
structure ResponsesSseEvent where
  eventType : String
  sequenceNumber : Nat
  data : EventData

/-- What the request declared. -/
structure ResponsesReplyContext where
  customTools : List String
  /-- Chat function name to namespace and sub-tool name. -/
  namespaceTools : List (String × String × String)
  echo : List (String × Value)

inductive ReplyToolCall where
  | custom
  | function (name : String) («namespace» : Option String)
  deriving DecidableEq, Repr

def ReplyToolCall.isCustom : ReplyToolCall → Bool
  | custom => true
  | function .. => false

def ReplyToolCall.subTool : ReplyToolCall → Option (String × String)
  | function subName (some ns) => some (ns, subName)
  | _ => none

def ResponsesReplyContext.toolCall (reply : ResponsesReplyContext) (chatName : String) :
    ReplyToolCall :=
  if chatName ∈ reply.customTools then .custom
  else
    match reply.namespaceTools.lookup chatName with
    | some (ns, name) => .function name (some ns)
    | none => .function chatName none

/-- The freeform input of a custom tool call: the one member of the wrapper it came in, or all of
it. `parse` is `serde_json::from_str`. -/
def unwrapCustomToolInput (parse : String → Option Value) (arguments : String) : String :=
  (((((parse arguments).bind Value.asObject?).filter fun o => o.length = 1).bind
    (·.lookup "content")).bind Value.asStr?).getD arguments

structure ToolCallState where
  itemUuid : String
  callId : String
  name : String
  custom : Bool
  /-- Namespace and sub-tool name, when the call names a sub-tool. -/
  «namespace» : Option (String × String)
  outputIndex : Nat
  arguments : String
  itemAdded : Bool

namespace ToolCallState

def new (itemUuid : String) (outputIndex : Nat) : ToolCallState :=
  ⟨itemUuid, "", "", false, none, outputIndex, "", false⟩

def itemId (t : ToolCallState) : String := (if t.custom then "ctc" else "fc") ++ "_" ++ t.itemUuid

def functionCallItem (t : ToolCallState) (arguments status : String) : OutputItem :=
  match t.namespace with
  | some (ns, name) => .functionCall t.itemId t.callId name (some ns) arguments status
  | none => .functionCall t.itemId t.callId t.name none arguments status

def addedItem (t : ToolCallState) : OutputItem :=
  if t.custom then .customToolCall t.itemId t.callId t.name "" "in_progress"
  else t.functionCallItem "" "in_progress"

def doneItem (parse : String → Option Value) (t : ToolCallState) : OutputItem :=
  if t.custom then
    .customToolCall t.itemId t.callId t.name (unwrapCustomToolInput parse t.arguments) "completed"
  else t.functionCallItem t.arguments "completed"

/-- The id and the name of a fragment. The kind of the call is fixed once it is announced. -/
def note (reply : ResponsesReplyContext) (t : ToolCallState) (id name : String) : ToolCallState :=
  let kind := reply.toolCall name
  { t with
    callId := if id = "" then t.callId else id
    name := if name = "" then t.name else name
    custom := if name = "" ∨ t.itemAdded then t.custom else kind.isCustom
    «namespace» := if name = "" ∨ t.itemAdded then t.namespace else kind.subTool }

/-- The item is announced once the id and the name are known. -/
def announce (t : ToolCallState) : List EventData × ToolCallState :=
  if t.itemAdded = false ∧ t.callId ≠ "" ∧ t.name ≠ "" then
    ([.outputItemAdded t.outputIndex t.addedItem], { t with itemAdded := true })
  else ([], t)

/-- The arguments of a fragment. A custom tool's are kept until the close. -/
def argue (t : ToolCallState) (arguments : String) : List EventData × ToolCallState :=
  if arguments = "" then ([], t)
  else
    (if t.itemAdded ∧
      t.custom = false then [.delta .functionCallArguments t.itemId t.outputIndex arguments]
      else [], { t with arguments := t.arguments ++ arguments })

def read (reply : ResponsesReplyContext) (t : ToolCallState) (tc : Value) :
    List EventData × ToolCallState :=
  let (announced, t) := (t.note reply (Anthropic.callId tc) (callName tc)).announce
  let (told, t) := t.argue (callArguments tc)
  (announced ++ told, t)

/-- The arguments or the input of an announced call, at its close. -/
def closingTexts (parse : String → Option Value) (t : ToolCallState) : List EventData :=
  if t.custom then
    let input := unwrapCustomToolInput parse t.arguments
    [.delta .customToolCallInput t.itemId t.outputIndex input,
      .done .customToolCallInput t.itemId t.outputIndex input]
  else [.done .functionCallArguments t.itemId t.outputIndex t.arguments]

def closing (parse : String → Option Value) (t : ToolCallState) : List EventData :=
  t.closingTexts parse ++ [.outputItemDone t.outputIndex (t.doneItem parse)]

end ToolCallState

/-- An item that streams one text. -/
structure OpenItem where
  itemId : String
  outputIndex : Nat
  text : String
  deriving DecidableEq, Repr

/-- The item of a channel that is streaming, and those before it. -/
structure ChannelState where
  opened : Option OpenItem
  closed : List OpenItem

/-- The items in the order they were opened. -/
def ChannelState.items (st : ChannelState) : List OpenItem := st.closed ++ st.opened.toList

namespace Channel

def idPrefix : Channel → String
  | reasoning => "rs"
  | text | refusal => "msg"

def addedItem (itemId : String) : Channel → OutputItem
  | reasoning => .reasoning itemId "in_progress" none
  | text | refusal => .message itemId "in_progress" none

def doneItem (o : OpenItem) : Channel → OutputItem
  | reasoning => reasoningItemJson o.itemId o.text
  | text => messageItemJson o.itemId o.text
  | refusal => refusalItemJson o.itemId o.text

/-- What an item is announced with. -/
def opening (c : Channel) (itemId : String) (outputIndex : Nat) : List EventData :=
  [.outputItemAdded outputIndex (c.addedItem itemId), .partAdded c itemId outputIndex]

/-- What an item is closed with: the text, then its part, then the item. -/
def closing (c : Channel) (o : OpenItem) : List EventData :=
  [.done (.channel c) o.itemId o.outputIndex o.text, .partDone c o.itemId o.outputIndex o.text,
    .outputItemDone o.outputIndex (c.doneItem o)]

end Channel

def MAX_STREAM_ASSEMBLY_BYTES : Nat := 32 * 1024 * 1024

def responsesStatus : FinishReason → String × Option String
  | .length => ("incomplete", some "max_output_tokens")
  | .contentFilter => ("incomplete", some "content_filter")
  | _ => ("completed", none)

def ServiceTier.openaiValue : ServiceTier → Option String
  | .openAi tier => some tier
  | .native _ => none

structure ResponsesSseEncoder where
  responseId : String
  modelDisplayName : String
  createdAt : Int
  sequenceNumber : Nat
  sentCreated : Bool
  finished : Bool
  nextOutputIndex : Nat
  /-- How many uuids were drawn. -/
  minted : Nat
  accumulatedBytes : Nat
  overflowed : Bool
  channels : Channel → ChannelState
  itemsClosed : Bool
  toolCalls : SortedMap Nat ToolCallState
  reply : ResponsesReplyContext
  pendingStatus : Option String
  pendingReason : Option String
  usageSeen : Bool
  usage : UsageStats
  serviceTier : Option String
  «seal» : Seal

namespace ResponsesSseEncoder

def new (responseId modelDisplayName : String) (createdAt : Int) (reply : ResponsesReplyContext) :
    ResponsesSseEncoder where
  responseId := responseId
  modelDisplayName := modelDisplayName
  createdAt := createdAt
  sequenceNumber := 0
  sentCreated := false
  finished := false
  nextOutputIndex := 0
  minted := 0
  accumulatedBytes := 0
  overflowed := false
  channels := fun _ => ⟨none, []⟩
  itemsClosed := false
  toolCalls := .empty
  reply := reply
  pendingStatus := none
  pendingReason := none
  usageSeen := false
  usage := .default
  serviceTier := none
  «seal» := none

def sealingIds (s : ResponsesSseEncoder) (sealer : Seal) : ResponsesSseEncoder :=
  { s with «seal» := sealer }

def setChannel (s : ResponsesSseEncoder) (c : Channel) (st : ChannelState) : ResponsesSseEncoder :=
  { s with channels := Function.update s.channels c st }

/-- Best-known usage: the highest count seen of each kind. -/
def accumulateUsage (s : ResponsesSseEncoder) (usage : Option UsageStats) : ResponsesSseEncoder :=
  match usage with
  | none => s
  | some u =>
    { s with
      usageSeen := true
      usage :=
        { s.usage with
          promptTokens := max s.usage.promptTokens u.promptTokens
          completionTokens := max s.usage.completionTokens u.completionTokens
          totalTokens := max s.usage.totalTokens u.totalTokens
          reasoningTokens := max s.usage.reasoningTokens u.reasoningTokens
          cachedPromptTokens := max s.usage.cachedPromptTokens u.cachedPromptTokens
          cacheWriteTokens := maxOption s.usage.cacheWriteTokens u.cacheWriteTokens
          modality := s.usage.modality.maxFieldwise u.modality
          cacheCreationTokens := max s.usage.cacheCreationTokens u.cacheCreationTokens
          cacheReadTokens := max s.usage.cacheReadTokens u.cacheReadTokens
          cacheCreationTtl := s.usage.cacheCreationTtl.maxFieldwise u.cacheCreationTtl } }

def noteServiceTier (s : ResponsesSseEncoder) (tier : Option ServiceTier) : ResponsesSseEncoder :=
  match tier.bind ServiceTier.openaiValue with
  | some tier => { s with serviceTier := some tier }
  | none => s

/-- What a chunk adds to the assembled answer, with room for each new call. -/
def assemblyBytes (s : ResponsesSseEncoder) (delta : ChatDelta) : Nat :=
  (delta.content.getD "").utf8ByteSize + (reasoningOf delta).utf8ByteSize +
    (refusalOf delta).utf8ByteSize + ((delta.toolCalls.getD []).map fun tc =>
      (if (s.toolCalls.get? (callIndex tc)).isSome then 0 else 128) + (callId tc).utf8ByteSize +
        (callName tc).utf8ByteSize + (callArguments tc).utf8ByteSize).sum

def reserveAssembly (s : ResponsesSseEncoder) (additional : Nat) : Bool × ResponsesSseEncoder :=
  if MAX_STREAM_ASSEMBLY_BYTES < s.accumulatedBytes +
    additional then (false, { s with overflowed := true })
  else (true, { s with accumulatedBytes := s.accumulatedBytes + additional })

/-- The items so far with their indices, each as it is closed. -/
def outputItems (parse : String → Option Value) (s : ResponsesSseEncoder) :
    List (Nat × OutputItem) :=
  let items (c : Channel) : List (Nat × OutputItem) :=
    (s.channels c).items.map fun o => (o.outputIndex, c.doneItem o)
  items .reasoning ++ items .text ++ items .refusal ++
    s.toolCalls.values.map fun t => (t.outputIndex, t.doneItem parse)

def finalOutputItems (parse : String → Option Value) (s : ResponsesSseEncoder) : List OutputItem :=
  ((s.outputItems parse).insertionSort (·.1 ≤ ·.1)).map (·.2)

def responseObject (parse : String → Option Value) (s : ResponsesSseEncoder) (status : String)
    (withOutputAndUsage : Bool) (incompleteReason : Option String) : Response where
  id := s.responseId
  createdAt := s.createdAt
  model := s.modelDisplayName
  status := status
  output := if withOutputAndUsage then s.finalOutputItems parse else []
  usage := if withOutputAndUsage then some s.usage else none
  incompleteReason := incompleteReason
  serviceTier := s.serviceTier
  echo := s.reply.echo

def openingEvents (parse : String → Option Value) (s : ResponsesSseEncoder) : List EventData :=
  let response := s.responseObject parse "in_progress" false none
  [.created response, .inProgress response]

/-- Opens an item of the channel at the next index. -/
def openItem (uuid : Nat → String) (c : Channel) (s : ResponsesSseEncoder) :
    List EventData × ResponsesSseEncoder :=
  let o : OpenItem := ⟨c.idPrefix ++ "_" ++ uuid s.minted, s.nextOutputIndex, ""⟩
  (c.opening o.itemId o.outputIndex,
    { s.setChannel c ⟨some o, (s.channels c).closed⟩ with
      minted := s.minted + 1, nextOutputIndex := s.nextOutputIndex + 1 })

def appendText (c : Channel) (text : String) (s : ResponsesSseEncoder) :
    List EventData × ResponsesSseEncoder :=
  match (s.channels c).opened with
  | none => ([], s)
  | some o =>
    ([.delta (.channel c) o.itemId o.outputIndex text],
      s.setChannel c ⟨some { o with text := o.text ++ text }, (s.channels c).closed⟩)

/-- Closes the open item of the channel, if any. -/
def closeChannel (c : Channel) (s : ResponsesSseEncoder) : List EventData × ResponsesSseEncoder :=
  match (s.channels c).opened with
  | none => ([], s)
  | some o => (c.closing o, s.setChannel c ⟨none, (s.channels c).closed ++ [o]⟩)

def closeReasoning (s : ResponsesSseEncoder) : List EventData × ResponsesSseEncoder :=
  s.closeChannel .reasoning

def closeText (s : ResponsesSseEncoder) : List EventData × ResponsesSseEncoder :=
  s.closeChannel .text

def closeRefusal (s : ResponsesSseEncoder) : List EventData × ResponsesSseEncoder :=
  s.closeChannel .refusal

/-- The channel's text goes on, in a new item if none is open. -/
def writeText (uuid : Nat → String) (c : Channel) (text : String) (s : ResponsesSseEncoder) :
    List EventData × ResponsesSseEncoder :=
  let (opened, s) := if (s.channels c).opened.isNone then s.openItem uuid c else ([], s)
  let (told, s) := s.appendText c text
  (opened ++ told, s)

/-- Reasoning that follows text ends its message item. -/
def readReasoning (uuid : Nat → String) (reasoning : String) (s : ResponsesSseEncoder) :
    List EventData × ResponsesSseEncoder :=
  if reasoning = "" then ([], s)
  else
    let (closed, s) := if (s.channels .reasoning).opened.isNone then s.closeText else ([], s)
    let (told, s) := s.writeText uuid .reasoning reasoning
    (closed ++ told, s)

def readContent (uuid : Nat → String) (content : String) (s : ResponsesSseEncoder) :
    List EventData × ResponsesSseEncoder :=
  if content = "" then ([], s)
  else
    let (closed, s) := s.closeRefusal
    let (told, s) := s.writeText uuid .text content
    (closed ++ told, s)

def readRefusal (uuid : Nat → String) (refusal : String) (s : ResponsesSseEncoder) :
    List EventData × ResponsesSseEncoder :=
  if refusal = "" then ([], s)
  else
    let (closed, s) := s.closeText
    let (told, s) := s.writeText uuid .refusal refusal
    (closed ++ told, s)

/-- A call takes its index with its first fragment. -/
def openCall (uuid : Nat → String) (index : Nat) (s : ResponsesSseEncoder) : ResponsesSseEncoder :=
  match s.toolCalls.get? index with
  | some _ => s
  | none =>
    { s with
      toolCalls := s.toolCalls.insert index (.new (uuid s.minted) s.nextOutputIndex)
      minted := s.minted + 1
      nextOutputIndex := s.nextOutputIndex + 1 }

def readFragment (tc : Value) (s : ResponsesSseEncoder) : List EventData × ResponsesSseEncoder :=
  match s.toolCalls.get? (callIndex tc) with
  | none => ([], s)
  | some t =>
    let (events, t) := t.read s.reply tc
    (events, { s with toolCalls := s.toolCalls.insert (callIndex tc) t })

def readToolCalls (uuid : Nat → String) (s : ResponsesSseEncoder) :
    List Value → List EventData × ResponsesSseEncoder
  | [] => ([], s)
  | tc :: rest =>
    let (first, s) := (s.openCall uuid (callIndex tc)).readFragment tc
    let (others, s) := s.readToolCalls uuid rest
    (first ++ others, s)

/-- The items of one chunk, before its finish. -/
def readDelta (uuid : Nat → String) (s : ResponsesSseEncoder) (delta : ChatDelta) :
    List EventData × ResponsesSseEncoder :=
  let calls := delta.toolCalls.getD []
  let (thought, s) := s.readReasoning uuid (reasoningOf delta)
  let (closed, s) :=
    if delta.content.getD "" ≠ "" ∨ calls ≠ [] ∨
      refusalOf delta ≠ "" then s.closeReasoning else ([], s)
  let (told, s) := s.readContent uuid (delta.content.getD "")
  let (refused, s) := s.readRefusal uuid (refusalOf delta)
  let (called, s) := s.readToolCalls uuid calls
  (thought ++ closed ++ told ++ refused ++ called, s)

/-- Closes what is open, once: the texts, then the announced calls. -/
def closeItems (parse : String → Option Value) (s : ResponsesSseEncoder) :
    List EventData × ResponsesSseEncoder :=
  if s.itemsClosed then ([], s)
  else
    let s := { s with itemsClosed := true }
    let (thought, s) := s.closeReasoning
    let (told, s) := s.closeText
    let (refused, s) := s.closeRefusal
    (thought ++ told ++ refused ++
      (s.toolCalls.values.filter (·.itemAdded)).flatMap (ToolCallState.closing parse), s)

def completedEvent (parse : String → Option Value) (status : String) (reason : Option String)
    (s : ResponsesSseEncoder) : EventData × ResponsesSseEncoder :=
  let s := { s with finished := true }
  let response := s.responseObject parse status true reason
  (if status = "completed" then .completed response else .incomplete response, s)

/-- The chunk is the first that says something. -/
def Opens (s : ResponsesSseEncoder) (chunk : ChatChunk) : Prop :=
  s.sentCreated = false ∧ (chunk.delta.content.getD "" ≠ "" ∨ chunk.delta.toolCalls.getD [] ≠ [] ∨
    reasoningOf chunk.delta ≠ "" ∨ chunk.finishReason.isSome ∨ refusalOf chunk.delta ≠ "")

instance (s : ResponsesSseEncoder) (chunk : ChatChunk) : Decidable (s.Opens chunk) :=
  inferInstanceAs (Decidable (_ ∧ _))

/-- A chunk of the answer, while it is not over. -/
def readChunk (parse : String → Option Value) (uuid : Nat → String) (s : ResponsesSseEncoder)
    (chunk : ChatChunk) : List EventData × ResponsesSseEncoder :=
  let (opening, s) :=
    if s.Opens chunk then (s.openingEvents parse, { s with sentCreated := true }) else ([], s)
  let (events, s) := s.readDelta uuid chunk.delta
  match chunk.finishReason with
  | none => (opening ++ events, s)
  | some reason =>
    let (closed, s) := s.closeItems parse
    let (status, why) := responsesStatus reason
    if s.usageSeen then
      let (last, s) := s.completedEvent parse status why
      (opening ++ events ++ closed ++ [last], s)
    else (opening ++ events ++ closed,
      { s with pendingStatus := some status, pendingReason := why })

def nextData (parse : String → Option Value) (uuid : Nat → String) (s : ResponsesSseEncoder)
    (chunk : ChatChunk) : List EventData × ResponsesSseEncoder :=
  if s.finished then ([], s)
  else
    let chunk := chunk.firstChoiceOnly
    let s := (s.accumulateUsage chunk.usage).noteServiceTier chunk.serviceTier
    match s.pendingStatus with
    | some status =>
      -- the terminal event waits for the usage frame
      if s.usageSeen then
        let (last, s) :=
          { s with pendingStatus := none, pendingReason := none }.completedEvent parse
            status s.pendingReason
        ([last], s)
      else ([], s)
    | none =>
      match s.reserveAssembly (s.assemblyBytes chunk.delta) with
      | (false, s) => ([], s)
      | (true, s) => s.readChunk parse uuid chunk

def forceData (parse : String → Option Value) (s : ResponsesSseEncoder) :
    List EventData × ResponsesSseEncoder :=
  if s.finished then ([], s)
  else
    let status := s.pendingStatus.getD "completed"
    let reason := s.pendingReason
    let (closed, s) := { s with pendingStatus := none, pendingReason := none }.closeItems parse
    let (last, s) := s.completedEvent parse status reason
    (closed ++ [last], s)

/-- The events as they leave: each takes the next sequence number, and its ids are sealed. -/
def events (sealer : Seal) : Nat → List EventData → List ResponsesSseEvent
  | _, [] => []
  | number, data :: rest =>
    ⟨data.eventType, number, sealResponsesEvent sealer data⟩ :: events sealer (number + 1) rest

def emit (s : ResponsesSseEncoder) (out : List EventData × ResponsesSseEncoder) :
    List ResponsesSseEvent × ResponsesSseEncoder :=
  (events s.seal s.sequenceNumber out.1,
    { out.2 with sequenceNumber := s.sequenceNumber + out.1.length })

def nextEvents (parse : String → Option Value) (uuid : Nat → String) (s : ResponsesSseEncoder)
    (chunk : ChatChunk) : List ResponsesSseEvent × ResponsesSseEncoder :=
  s.emit (s.nextData parse uuid chunk)

def forceFinish (parse : String → Option Value) (s : ResponsesSseEncoder) :
    List ResponsesSseEvent × ResponsesSseEncoder :=
  s.emit (s.forceData parse)

def hasOutput (s : ResponsesSseEncoder) : Bool := s.sentCreated

/-- Every chunk of a stream. -/
def encode (parse : String → Option Value) (uuid : Nat → String) (s : ResponsesSseEncoder) :
    List ChatChunk → List ResponsesSseEvent × ResponsesSseEncoder
  | [] => ([], s)
  | chunk :: rest =>
    let (first, s) := s.nextEvents parse uuid chunk
    let (others, s) := s.encode parse uuid rest
    (first ++ others, s)

end ResponsesSseEncoder

end Responses
end Aisix
