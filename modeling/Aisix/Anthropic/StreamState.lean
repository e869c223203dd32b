import Aisix.Anthropic.Response

/-!
# Aisix.Anthropic.StreamState

A streamed Messages answer, read event by event as a stream of chat chunks.
-/

namespace Aisix
namespace Anthropic

open Json

inductive AnthropicStreamDelta where
  | textDelta (text : String)
  | thinkingDelta (thinking : String)
  | inputJsonDelta (partialJson : String)
  /-- A signature, a citation and whatever else. -/
  | other
  deriving DecidableEq, Repr

/-- Counts a frame leaves out are `none`. -/
structure AnthropicStreamStartUsage where
  inputTokens : Option Nat
  cacheCreationInputTokens : Option Nat
  cacheReadInputTokens : Option Nat
  cacheCreation : Option Value
  speed : Option Value
  serviceTier : Option Value

structure AnthropicStreamStartMessage where
  id : String
  model : String
  usage : Option AnthropicStreamStartUsage

structure AnthropicStreamUsage where
  outputTokens : Option Nat
  outputTokensDetails : Option AnthropicOutputDetails
  serverToolUse : Option AnthropicServerToolUse
  inputTokens : Option Nat
  cacheCreationInputTokens : Option Nat
  cacheReadInputTokens : Option Nat
  cacheCreation : Option Value
  speed : Option Value
  serviceTier : Option Value

inductive AnthropicStreamEvent where
  | messageStart (message : AnthropicStreamStartMessage)
  | contentBlockStart (index : Option Nat) (contentBlock : Value)
  | contentBlockStop (index : Option Nat)
  | contentBlockDelta (index : Option Nat) (delta : AnthropicStreamDelta)
  | messageDelta (stopReason : Option String) (usage : Option AnthropicStreamUsage)
  | messageStop
  | error (kind message : Option String)
  /-- A ping, or an event of a type unknown. -/
  | other

/-- Id, name and the input a `tool_use` block opens with, if that is not empty. -/
def streamToolUse (J : Json.Text) (block : Value) : Option (String × String × Option String) :=
  match (block.get "type").bind Value.asStr? with
  | none => none
  | some type =>
    if type ≠ "tool_use" then none
    else
      let field (key : String) : String := ((block.get key).bind Value.asStr?).getD ""
      let input :=
        (((block.get "input").bind Value.asObject?).filter (! ·.isEmpty)).map (J.print ∘ .object)
      some (field "id", field "name", input)

/-- `Iterator::rposition`. -/
def rposition {α : Type} (p : α → Bool) : List α → Option Nat
  | [] => none
  | a :: as =>
    match rposition p as with
    | some i => some (i + 1)
    | none => if p a then some 0 else none

structure StreamState where
  id : String
  model : String
  inputTokens : Nat
  cacheCreationTokens : Nat
  cacheReadTokens : Nat
  cacheCreationTtl : CacheCreationTtl
  serviceTier : Option ServiceTier
  lastThinkingBlock : Option Nat
  thinkingBlockChanged : Bool
  /-- One entry a `tool_use` block: its index, and the input it opened with until a fragment comes.
  -/
  toolBlocks : List (Option Nat × Option String)
  openTool : Option Nat
  eventTool : Option Nat
  closingArguments : Option String
  startUsage : Option UsageStats
  roleSent : Bool

namespace StreamState

def default : StreamState :=
  ⟨"", "", 0, 0, 0, .NONE, none, none, false, [], none, none, none, none, false⟩

def toolPosition (s : StreamState) (index : Option Nat) : Option Nat :=
  match index with
  | some _ => rposition (fun b => decide (b.1 = index)) s.toolBlocks
  | none => s.openTool

/-- The tool block at `pos` no longer closes with its opening input. -/
def dropInput (s : StreamState) (pos : Nat) : StreamState :=
  { s with toolBlocks := s.toolBlocks.modify pos fun b => (b.1, none) }

def update (J : Json.Text) (s : StreamState) (event : AnthropicStreamEvent) : StreamState :=
  let s := { s with eventTool := none }
  match event with
  | .messageStart message =>
    let count (field : AnthropicStreamStartUsage → Option Nat) : Nat :=
      (message.usage.bind field).getD 0
    let input := count (·.inputTokens)
    let cacheCreation := count (·.cacheCreationInputTokens)
    let cacheRead := count (·.cacheReadInputTokens)
    let ttl := CacheCreationTtl.fromAnthropic (message.usage.bind (·.cacheCreation))
    let tier := message.usage.bind fun u => usageServiceTier u.speed u.serviceTier
    { s with
      toolBlocks := []
      openTool := none
      id := message.id
      model := message.model
      inputTokens := input
      cacheCreationTokens := cacheCreation
      cacheReadTokens := cacheRead
      cacheCreationTtl := ttl
      serviceTier := tier.or s.serviceTier
      startUsage := message.usage.map fun _ =>
        { UsageStats.withCache input 0 cacheCreation cacheRead with cacheCreationTtl := ttl } }
  | .contentBlockDelta index (.thinkingDelta thinking) =>
    if thinking = "" then s
    else
      { s with
        thinkingBlockChanged := s.lastThinkingBlock.isSome && decide (s.lastThinkingBlock ≠ index)
        lastThinkingBlock := index }
  | .contentBlockStart index contentBlock =>
    match streamToolUse J contentBlock with
    | some (_, _, input) =>
      { s with
        toolBlocks := s.toolBlocks ++ [(index, some (input.getD "\x7b\x7d"))]
        openTool := some s.toolBlocks.length
        eventTool := some s.toolBlocks.length }
    | none => { s with openTool := none }
  | .contentBlockDelta index (.inputJsonDelta partialJson) =>
    if partialJson = "" then s
    else
      match s.toolPosition index with
      | some pos => { s.dropInput pos with eventTool := some pos }
      | none => s
  | .contentBlockStop index =>
    let s :=
      match s.toolPosition index with
      | some pos =>
        let closing := (s.toolBlocks[pos]?).bind (·.2)
        { s.dropInput pos with
          closingArguments := closing
          eventTool := if closing.isSome then some pos else none }
      | none => s
    { s with openTool := none }
  | .messageDelta _ (some usage) =>
    { s with
      inputTokens := max s.inputTokens (usage.inputTokens.getD 0)
      cacheCreationTokens := max s.cacheCreationTokens (usage.cacheCreationInputTokens.getD 0)
      cacheReadTokens := max s.cacheReadTokens (usage.cacheReadInputTokens.getD 0)
      cacheCreationTtl := s.cacheCreationTtl.maxFieldwise (.fromAnthropic usage.cacheCreation)
      serviceTier := (usageServiceTier usage.speed usage.serviceTier).or s.serviceTier }
  | _ => s

/-- A chunk with nothing but the message's own fields. -/
def bareChunk (s : StreamState) : ChatChunk :=
  ⟨s.id, s.model, 0, .default, none, none, none, s.serviceTier, none⟩

def toolCallChunk (s : StreamState) (call : Value) : ChatChunk :=
  { s.bareChunk with delta := { ChatDelta.default with toolCalls := some [call] } }

def usizeValue (n : Nat) : Value := .number (.posInt (UInt64.ofNat n))

/-- The later fragments of a call: its index and more of its arguments. -/
def argumentsFragment (pos : Nat) (arguments : String) : Value :=
  .object [("index", usizeValue pos), ("function", .object [("arguments", .string arguments)])]

def openingFragment (pos : Nat) (id name : String) : Value :=
  .object [("index", usizeValue pos), ("id", .string id), ("type", .string "function"),
    ("function", .object [("name", .string name), ("arguments", .string "")])]

def translate (J : Json.Text) (s : StreamState) (event : AnthropicStreamEvent) : Option ChatChunk :=
  match event with
  | .contentBlockStart _ contentBlock =>
    match streamToolUse J contentBlock, s.eventTool with
    | some (id, name, _), some pos => some (s.toolCallChunk (openingFragment pos id name))
    | _, _ => none
  | .contentBlockDelta _ (.inputJsonDelta partialJson) =>
    s.eventTool.map fun pos => s.toolCallChunk (argumentsFragment pos partialJson)
  | .contentBlockStop _ =>
    match s.eventTool, s.closingArguments with
    | some pos, some arguments => some (s.toolCallChunk (argumentsFragment pos arguments))
    | _, _ => none
  | .contentBlockDelta _ (.textDelta text) =>
    some { s.bareChunk with delta := { ChatDelta.default with content := some text } }
  | .contentBlockDelta _ (.thinkingDelta thinking) =>
    if thinking = "" then none
    else
      let reasoning := if s.thinkingBlockChanged then "\n" ++ thinking else thinking
      some
        { s.bareChunk with delta := { ChatDelta.default with reasoningContent := some reasoning } }
  | .messageDelta stopReason usage =>
    let finish := stopReason.map fun r => mapStopReason (some r)
    let usage := usage.bind fun u => u.outputTokens.map fun n =>
      usageStats s.inputTokens n s.cacheCreationTokens s.cacheReadTokens
        s.cacheCreationTtl u.serverToolUse u.outputTokensDetails
    if finish.isNone ∧ usage.isNone then none
    else some { s.bareChunk with finishReason := finish, usage := usage }
  | _ => none

def toChunk (J : Json.Text) (s : StreamState) (event : AnthropicStreamEvent) :
    Option ChatChunk × StreamState :=
  match s.translate J event with
  | none => (none, s)
  | some chunk =>
    if s.roleSent then (some chunk, s)
    else
      (some { chunk with delta := { chunk.delta with role := some .assistant } },
        { s with roleSent := true })

def nextChunk (J : Json.Text) (s : StreamState) (event : AnthropicStreamEvent) :
    Option ChatChunk × StreamState :=
  match (s.update J event).toChunk J event with
  | (none, s) => (none, s)
  | (some chunk, s) =>
    match s.startUsage with
    | none => (some chunk, s)
    | some start =>
      let chunk :=
        if chunk.usage.isNone then { chunk with accountingUsage := some start } else chunk
      (some chunk, { s with startUsage := none })

/-- The chunks of a stream of events. -/
def chunks (J : Json.Text) (s : StreamState) : List AnthropicStreamEvent → List ChatChunk
  | [] => []
  | event :: rest => (s.nextChunk J event).1.toList ++ (s.nextChunk J event).2.chunks J rest

end StreamState

end Anthropic
end Aisix
