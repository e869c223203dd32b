import Mathlib.Data.List.Sort
import Aisix.BlockStream
import Aisix.Chat
import Aisix.SortedMap

/-!
# Aisix.Anthropic.SseEncoder

The encoder that writes a chat stream as a Messages stream: one message of numbered content blocks,
which thinking, text and tool calls share.
-/

namespace Aisix
namespace Anthropic

open Json

/-- What a `content_block_start` says of its block. -/
inductive ContentBlock where
  | thinking
  | text
  | toolUse (id name : String)
  deriving DecidableEq, Repr

inductive BlockDelta where
  | thinkingDelta (thinking : String)
  | textDelta (text : String)
  | inputJsonDelta (partialJson : String)
  deriving DecidableEq, Repr

abbrev BlockEvent := BlockStream.Event ContentBlock BlockDelta

/-- The counts of a `message_delta`; a count that is left out is not written. -/
structure ClosingUsage where
  inputTokens : Option Nat
  outputTokens : Nat
  cacheCreationInputTokens : Option Nat
  cacheReadInputTokens : Option Nat
  deriving DecidableEq, Repr

inductive AnthropicSseEvent where
  | messageStart (id model : String) (inputTokens : Nat)
  | contentBlock (event : BlockEvent)
  | messageDelta (stopReason : String) (usage : ClosingUsage)
  | messageStop
  deriving DecidableEq, Repr

structure ToolCallState where
  id : String
  name : String
  contentBlockIndex : Nat
  started : Bool
  pendingArguments : String
  deriving DecidableEq, Repr

namespace ToolCallState

def new : ToolCallState := ⟨"", "", 0, false, ""⟩

/-- The call's block opens at the next index. -/
def start (t : ToolCallState) (next : Nat) : ToolCallState × Nat × List BlockEvent :=
  ({ t with started := true, contentBlockIndex := next }, next + 1,
    [.start next (.toolUse t.id t.name)])

def flushArguments (t : ToolCallState) : ToolCallState × List BlockEvent :=
  if t.pendingArguments = "" then (t, [])
  else
    ({ t with pendingArguments := "" },
      [.delta t.contentBlockIndex (.inputJsonDelta t.pendingArguments)])

end ToolCallState

structure AnthropicSseEncoder where
  messageId : String
  modelDisplayName : String
  initialInputTokens : Nat
  sentMessageStart : Bool
  thinkingBlockIndex : Option Nat
  textBlockIndex : Option Nat
  finished : Bool
  nextBlockIndex : Nat
  toolCalls : SortedMap Nat ToolCallState
  heldReasoning : String
  refused : Bool
  pendingStopReason : Option String
  seenInputTokens : Nat
  seenOutputTokens : Nat
  seenCachedPromptTokens : Nat
  seenCacheCreationTokens : Nat
  seenCacheReadTokens : Nat
  usageSeen : Bool

def anthropicStopReason (reason : FinishReason) (refused : Bool) : String :=
  match reason with
  | .length => "max_tokens"
  | .contentFilter => "refusal"
  | .toolCalls => if refused then "refusal" else "tool_use"
  | .stop | .other _ => if refused then "refusal" else "end_turn"

/-- What a chunk has for the encoder. -/
def reasoningOf (delta : ChatDelta) : String := delta.reasoningContent.getD ""

def refusalOf (delta : ChatDelta) : String :=
  ((delta.extra.lookup "refusal").bind Value.asStr?).getD ""

/-- A refusal is written as text, behind the content. -/
def textOf (delta : ChatDelta) : String := delta.content.getD "" ++ refusalOf delta

/-- The fields of one fragment of a tool call. -/
def callId (tc : Value) : String := ((tc.get "id").bind Value.asStr?).getD ""

def callName (tc : Value) : String :=
  (((tc.get "function").bind (·.get "name")).bind Value.asStr?).getD ""

def callArguments (tc : Value) : String :=
  (((tc.get "function").bind (·.get "arguments")).bind Value.asStr?).getD ""

/-- A fragment of tool call `0`. -/
def fragment (id name arguments : String) : Value :=
  .object [("index", .number (.posInt 0)), ("id", .string id),
    ("function", .object [("name", .string name), ("arguments", .string arguments)])]

/-- A chunk of the first choice. -/
def saying (delta : ChatDelta) (finishReason : Option FinishReason) : ChatChunk :=
  ⟨"chatcmpl", "model", 0, delta, finishReason, none, none, none, none⟩

namespace AnthropicSseEncoder

def new (messageId modelDisplayName : String) (initialInputTokens : Nat) : AnthropicSseEncoder where
  messageId := messageId
  modelDisplayName := modelDisplayName
  initialInputTokens := initialInputTokens
  sentMessageStart := false
  thinkingBlockIndex := none
  textBlockIndex := none
  finished := false
  nextBlockIndex := 0
  toolCalls := .empty
  heldReasoning := ""
  refused := false
  pendingStopReason := none
  seenInputTokens := 0
  seenOutputTokens := 0
  seenCachedPromptTokens := 0
  seenCacheCreationTokens := 0
  seenCacheReadTokens := 0
  usageSeen := false

def messageStartEvent (s : AnthropicSseEncoder) : AnthropicSseEvent :=
  .messageStart s.messageId s.modelDisplayName s.initialInputTokens

def toolBlockOpen (s : AnthropicSseEncoder) : Bool := s.toolCalls.values.any (·.started)

/-- Best-known usage: the highest count seen of each kind. -/
def noteUsage (s : AnthropicSseEncoder) (usage : Option UsageStats) : AnthropicSseEncoder :=
  match usage with
  | none => s
  | some u =>
    { s with
      usageSeen := true
      seenInputTokens := max s.seenInputTokens u.promptTokens
      seenOutputTokens := max s.seenOutputTokens u.completionTokens
      seenCachedPromptTokens := max s.seenCachedPromptTokens u.cachedPromptTokens
      seenCacheCreationTokens := max s.seenCacheCreationTokens u.cacheCreationTokens
      seenCacheReadTokens := max s.seenCacheReadTokens u.cacheReadTokens }

def closingPair (s : AnthropicSseEncoder) (stopReason : String) :
    List AnthropicSseEvent × AnthropicSseEncoder :=
  let input : UsageStats :=
    { UsageStats.default with
      promptTokens := s.seenInputTokens
      cachedPromptTokens := s.seenCachedPromptTokens
      cacheCreationTokens := s.seenCacheCreationTokens
      cacheReadTokens := s.seenCacheReadTokens }
  let nonZero (n : Nat) : Option Nat := if 0 < n then some n else none
  let usage : ClosingUsage :=
    { inputTokens := if 0 < s.seenInputTokens then some input.anthropicInputTokens else none
      outputTokens := s.seenOutputTokens
      cacheCreationInputTokens := nonZero input.anthropicCacheCreationInputTokens
      cacheReadInputTokens := nonZero input.anthropicCacheReadInputTokens }
  ([.messageDelta stopReason usage, .messageStop], { s with finished := true })

def closeThinkingBlock (s : AnthropicSseEncoder) : List BlockEvent × AnthropicSseEncoder :=
  match s.thinkingBlockIndex with
  | some idx => ([.stop idx], { s with thinkingBlockIndex := none })
  | none => ([], s)

/-- A call whose upstream never sent an id is opened under one made up for it. -/
def openNamed (s : AnthropicSseEncoder) (index : Nat) : List BlockEvent × AnthropicSseEncoder :=
  match s.toolCalls.get? index with
  | none => ([], s)
  | some t =>
    if t.started = false ∧ t.name ≠ "" then
      let t := { t with id := "toolu_" ++ s.messageId ++ "_" ++ toString index }
      let (t, next, started) := t.start s.nextBlockIndex
      let (t, flushed) := t.flushArguments
      (started ++ flushed,
        { s with toolCalls := s.toolCalls.insert index t, nextBlockIndex := next })
    else ([], s)

def openAllNamed (s : AnthropicSseEncoder) : List Nat → List BlockEvent × AnthropicSseEncoder
  | [] => ([], s)
  | index :: rest =>
    let (opened, s) := s.openNamed index
    let (others, s) := s.openAllNamed rest
    (opened ++ others, s)

def openIndices (s : AnthropicSseEncoder) : List Nat :=
  s.thinkingBlockIndex.toList ++ s.textBlockIndex.toList ++
    (s.toolCalls.values.filter (·.started)).map (·.contentBlockIndex)

/-- Reasoning held while a tool block was open, as a block of its own. -/
def writeHeld (s : AnthropicSseEncoder) : List BlockEvent × AnthropicSseEncoder :=
  if s.heldReasoning = "" then ([], s)
  else
    let idx := s.nextBlockIndex
    ([.start idx .thinking, .delta idx (.thinkingDelta s.heldReasoning), .stop idx],
      { s with nextBlockIndex := idx + 1, heldReasoning := "" })

/-- Every open block is stopped, in the order of the indices. -/
def closeOpenBlocks (s : AnthropicSseEncoder) : List BlockEvent × AnthropicSseEncoder :=
  let (opened, s) := s.openAllNamed s.toolCalls.keys
  let stopped := (s.openIndices.insertionSort (· ≤ ·)).map BlockStream.Event.stop
  let s := { s with thinkingBlockIndex := none, textBlockIndex := none }
  let (held, s) := s.writeHeld
  (opened ++ stopped ++ held, s)

/-- Reasoning is held while a tool block is open, and opens a thinking block otherwise. -/
def readReasoning (s : AnthropicSseEncoder) (reasoning : String) :
    List BlockEvent × AnthropicSseEncoder :=
  if reasoning = "" then ([], s)
  else if s.toolBlockOpen then ([], { s with heldReasoning := s.heldReasoning ++ reasoning })
  else
    match s.thinkingBlockIndex with
    | some idx => ([.delta idx (.thinkingDelta reasoning)], s)
    | none =>
      let (closed, s) := s.closeOpenBlocks
      let idx := s.nextBlockIndex
      (closed ++ [.start idx .thinking, .delta idx (.thinkingDelta reasoning)],
        { s with nextBlockIndex := idx + 1, thinkingBlockIndex := some idx })

def readText (s : AnthropicSseEncoder) (text : String) : List BlockEvent × AnthropicSseEncoder :=
  if text = "" then ([], s)
  else
    match s.textBlockIndex with
    | some idx => ([.delta idx (.textDelta text)], s)
    | none =>
      let idx := s.nextBlockIndex
      ([.start idx .text, .delta idx (.textDelta text)],
        { s with nextBlockIndex := idx + 1, textBlockIndex := some idx })

/-- One fragment of a tool call. The block starts once the id and the name are known. -/
def readToolCall (s : AnthropicSseEncoder) (tc : Value) : List BlockEvent × AnthropicSseEncoder :=
  let index := callIndex tc
  let t := (s.toolCalls.get? index).getD .new
  let t := if callId tc ≠ "" then { t with id := callId tc } else t
  let t := if callName tc ≠ "" then { t with name := callName tc } else t
  let t := { t with pendingArguments := t.pendingArguments ++ callArguments tc }
  let (t, next, started) :=
    if t.started = false ∧ t.id ≠ "" ∧ t.name ≠ "" then t.start s.nextBlockIndex
    else (t, s.nextBlockIndex, [])
  let (t, flushed) := if t.started then t.flushArguments else (t, [])
  (started ++ flushed, { s with toolCalls := s.toolCalls.insert index t, nextBlockIndex := next })

def readToolCalls (s : AnthropicSseEncoder) : List Value → List BlockEvent × AnthropicSseEncoder
  | [] => ([], s)
  | tc :: rest =>
    let (first, s) := s.readToolCall tc
    let (others, s) := s.readToolCalls rest
    (first ++ others, s)

/-- The blocks of one chunk, before its finish. -/
def readDelta (s : AnthropicSseEncoder) (delta : ChatDelta) :
    List BlockEvent × AnthropicSseEncoder :=
  let calls := delta.toolCalls.getD []
  let (thought, s) := s.readReasoning (reasoningOf delta)
  let (closed, s) := if textOf delta ≠ "" ∨ calls ≠ [] then s.closeThinkingBlock else ([], s)
  let (told, s) := s.readText (textOf delta)
  let (called, s) := s.readToolCalls calls
  (thought ++ closed ++ told ++ called, s)

def noteRefusal (s : AnthropicSseEncoder) (delta : ChatDelta) : AnthropicSseEncoder :=
  if refusalOf delta ≠ "" then { s with refused := true } else s

/-- The chunk is the first that says something. -/
def Opens (s : AnthropicSseEncoder) (chunk : ChatChunk) : Prop :=
  s.sentMessageStart = false ∧ (reasoningOf chunk.delta ≠ "" ∨ textOf chunk.delta ≠ "" ∨
    chunk.delta.toolCalls.getD [] ≠ [] ∨ chunk.finishReason.isSome)

instance (s : AnthropicSseEncoder) (chunk : ChatChunk) : Decidable (s.Opens chunk) :=
  inferInstanceAs (Decidable (_ ∧ _))

def startMessage (s : AnthropicSseEncoder) (chunk : ChatChunk) :
    List AnthropicSseEvent × AnthropicSseEncoder :=
  if s.Opens chunk then ([s.messageStartEvent], { s with sentMessageStart := true }) else ([], s)

/-- A chunk of the answer, while it is not over. -/
def readChunk (s : AnthropicSseEncoder) (chunk : ChatChunk) :
    List AnthropicSseEvent × AnthropicSseEncoder :=
  let (start, s) := (s.noteRefusal chunk.delta).startMessage chunk
  let (blocks, s) := s.readDelta chunk.delta
  match chunk.finishReason with
  | none => (start ++ blocks.map .contentBlock, s)
  | some reason =>
    let (closed, s) := s.closeOpenBlocks
    let stopReason := anthropicStopReason reason s.refused
    let events := start ++ (blocks ++ closed).map .contentBlock
    if s.usageSeen then
      let (pair, s) := s.closingPair stopReason
      (events ++ pair, s)
    else (events, { s with pendingStopReason := some stopReason })

def nextEvents (s : AnthropicSseEncoder) (chunk : ChatChunk) :
    List AnthropicSseEvent × AnthropicSseEncoder :=
  if s.finished then ([], s)
  else
    let chunk := chunk.firstChoiceOnly
    let s := s.noteUsage chunk.usage
    match s.pendingStopReason with
    | some reason =>
      -- the closing pair waits for the usage frame
      if s.usageSeen then { s with pendingStopReason := none }.closingPair reason else ([], s)
    | none => s.readChunk chunk

def forceFinish (s : AnthropicSseEncoder) : List AnthropicSseEvent × AnthropicSseEncoder :=
  if s.finished then ([], s)
  else
    match s.pendingStopReason with
    | some reason => { s with pendingStopReason := none }.closingPair reason
    | none =>
      let start := if s.sentMessageStart then [] else [s.messageStartEvent]
      let s := { s with sentMessageStart := true }
      let (closed, s) := s.closeOpenBlocks
      let (pair, s) := s.closingPair "end_turn"
      (start ++ closed.map .contentBlock ++ pair, s)

/-- Every chunk, then the end of the upstream. -/
def encode (s : AnthropicSseEncoder) : List ChatChunk → List AnthropicSseEvent
  | [] => s.forceFinish.1
  | chunk :: rest => (s.nextEvents chunk).1 ++ (s.nextEvents chunk).2.encode rest

end AnthropicSseEncoder

end Anthropic
end Aisix
