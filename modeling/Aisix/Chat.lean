import Aisix.Json
import Mathlib.Algebra.Order.Ring.Nat

/-!
# Aisix.Chat

The gateway's own shape of a streamed chat answer, as the protocol translations read and write it,
and of a chat request, with the JSON it is written as.
-/

namespace Aisix

open Json

/-- `u32::saturating_add`. -/
def satAddU32 (a b : Nat) : Nat := min (a + b) (2 ^ 32 - 1)

inductive FinishReason where
  | stop
  | length
  | contentFilter
  | toolCalls
  | other (raw : String)
  deriving DecidableEq, Repr

/-- `Option::max`: a count is more than none. -/
def maxOption : Option Nat → Option Nat → Option Nat
  | none, b => b
  | a, none => a
  | some a, some b => some (max a b)

structure CacheCreationTtl where
  cacheCreation5mTokens : Option Nat
  cacheCreation1hTokens : Option Nat
  deriving DecidableEq, Repr

namespace CacheCreationTtl

def NONE : CacheCreationTtl := ⟨none, none⟩

def fromAnthropic (cacheCreation : Option Value) : CacheCreationTtl :=
  match cacheCreation with
  | some (.object fields) =>
    let count (key : String) : Option Nat :=
      some (((((Value.object fields).get key).bind Value.asU64?).map (min · (2 ^ 32 - 1))).getD 0)
    ⟨count "ephemeral_5m_input_tokens", count "ephemeral_1h_input_tokens"⟩
  | _ => NONE

def maxFieldwise (a b : CacheCreationTtl) : CacheCreationTtl :=
  ⟨maxOption a.cacheCreation5mTokens b.cacheCreation5mTokens,
    maxOption a.cacheCreation1hTokens b.cacheCreation1hTokens⟩

@[simp] theorem fromAnthropic_none : fromAnthropic none = NONE := rfl

@[simp] theorem maxFieldwise_NONE (a : CacheCreationTtl) : a.maxFieldwise NONE = a := by
  obtain ⟨a₁, a₂⟩ := a
  cases a₁ <;> cases a₂ <;> rfl

@[simp] theorem NONE_maxFieldwise (a : CacheCreationTtl) : NONE.maxFieldwise a = a := rfl

@[simp] theorem maxFieldwise_self (a : CacheCreationTtl) : a.maxFieldwise a = a := by
  obtain ⟨a₁, a₂⟩ := a
  cases a₁ <;> cases a₂ <;> simp [maxFieldwise, maxOption]

end CacheCreationTtl

/-- The parts of the two sides that were audio or images. -/
structure ModalityTokens where
  promptAudioTokens : Option Nat
  promptImageTokens : Option Nat
  completionAudioTokens : Option Nat
  completionImageTokens : Option Nat
  deriving DecidableEq, Repr

namespace ModalityTokens

def NONE : ModalityTokens := ⟨none, none, none, none⟩

def maxFieldwise (a b : ModalityTokens) : ModalityTokens :=
  ⟨maxOption a.promptAudioTokens b.promptAudioTokens,
    maxOption a.promptImageTokens b.promptImageTokens,
    maxOption a.completionAudioTokens b.completionAudioTokens,
    maxOption a.completionImageTokens b.completionImageTokens⟩

end ModalityTokens

/-- Token counts, each a `u32`. -/
structure UsageStats where
  promptTokens : Nat
  completionTokens : Nat
  totalTokens : Nat
  cachedPromptTokens : Nat
  cacheWriteTokens : Option Nat
  reasoningTokens : Nat
  cacheCreationTokens : Nat
  cacheReadTokens : Nat
  webSearchRequests : Nat
  webFetchRequests : Nat
  /-- The total that the upstream itself reported, or zero. -/
  upstreamTotalTokens : Nat
  modality : ModalityTokens
  cacheCreationTtl : CacheCreationTtl
  deriving DecidableEq, Repr

namespace UsageStats

def default : UsageStats := ⟨0, 0, 0, 0, none, 0, 0, 0, 0, 0, 0, .NONE, .NONE⟩

def withCache (prompt completion cacheCreation cacheRead : Nat) : UsageStats :=
  { default with
    promptTokens := prompt
    completionTokens := completion
    totalTokens := satAddU32 (satAddU32 (satAddU32 prompt completion) cacheCreation) cacheRead
    cacheCreationTokens := cacheCreation
    cacheReadTokens := cacheRead }

def anthropicInputTokens (u : UsageStats) : Nat := u.promptTokens - u.cachedPromptTokens

def anthropicCacheReadInputTokens (u : UsageStats) : Nat :=
  satAddU32 u.cacheReadTokens u.cachedPromptTokens

def anthropicCacheCreationInputTokens (u : UsageStats) : Nat := u.cacheCreationTokens

end UsageStats

inductive ServiceTier where
  | openAi (tier : String)
  | native (tier : String)
  deriving DecidableEq, Repr

def ServiceTier.native? (value : Option String) : Option ServiceTier :=
  (value.filter (· ≠ "")).map .native

def anthropicServiceTier (speed serviceTier : Option String) : Option String :=
  (speed.filter fun v => v ≠ "" ∧ v ≠ "standard").or (serviceTier.filter (· ≠ ""))

inductive Role where
  | system
  | developer
  | user
  | assistant
  | tool
  | function
  deriving DecidableEq, Repr

structure ChatDelta where
  role : Option Role
  content : Option String
  toolCalls : Option (List Value)
  functionCall : Option Value
  reasoningContent : Option String
  audio : Option Value
  /-- Every other field of the delta. -/
  extra : List (String × Value)

def ChatDelta.default : ChatDelta := ⟨none, none, none, none, none, none, []⟩

/-- The index of a fragment of a tool call. -/
def callIndex (tc : Value) : Nat := ((tc.get "index").bind Value.asU64?).getD 0

structure ChatChunk where
  id : String
  model : String
  choiceIndex : Nat
  delta : ChatDelta
  finishReason : Option FinishReason
  logprobs : Option Value
  usage : Option UsageStats
  serviceTier : Option ServiceTier
  accountingUsage : Option UsageStats

structure ChatMessage where
  role : Role
  content : Option String
  contentBlocks : Option (List Value)
  name : Option String
  toolCallId : Option String
  /-- Every other field of the message. -/
  extra : List (String × Value)

/-- A choice of an answer, past the first. -/
structure ChatChoice where
  index : Nat
  message : ChatMessage
  finishReason : FinishReason
  logprobs : Option Value

/-- A whole answer. -/
structure ChatResponse where
  id : String
  model : String
  /-- The first choice's message. -/
  message : ChatMessage
  finishReason : FinishReason
  logprobs : Option Value
  moreChoices : List ChatChoice
  usage : UsageStats
  serviceTier : Option ServiceTier

/-- The chunk as a renderer with one answer per response reads it. -/
def ChatChunk.firstChoiceOnly (c : ChatChunk) : ChatChunk :=
  if c.choiceIndex = 0 then c
  else { c with choiceIndex := 0, delta := .default, finishReason := none, logprobs := none }

/-! ## A chat request -/

/-- A request; floats by their bits. -/
structure ChatFormat where
  model : String
  messages : List ChatMessage
  temperature : Option UInt64
  topP : Option UInt64
  maxTokens : Option UInt32
  stream : Option Bool
  /-- Every other field of the request. -/
  extra : List (String × Value)
  -- these three are not written
  topK : Option Nat
  thinkingBudgetTokens : Option Nat
  thoughtsRequested : Bool

def ChatFormat.new (model : String) (messages : List ChatMessage) : ChatFormat where
  model := model
  messages := messages
  temperature := none
  topP := none
  maxTokens := none
  stream := none
  extra := []
  topK := none
  thinkingBudgetTokens := none
  thoughtsRequested := false

def Role.asStr : Role → String
  | .system => "system"
  | .developer => "developer"
  | .user => "user"
  | .assistant => "assistant"
  | .tool => "tool"
  | .function => "function"

/-- The text of the text blocks. -/
def blocksText (blocks : List Value) : String :=
  String.join
    ((blocks.filter fun b => (b.get "type").bind Value.asStr? = some "text").filterMap fun b =>
      (b.get "text").bind Value.asStr?)

def ChatMessage.text (m : ChatMessage) : Option String :=
  m.content.or (m.contentBlocks.map blocksText)

/-- The text, where no text is an empty one. -/
def ChatMessage.contentStr (m : ChatMessage) : String := m.text.getD ""

/-- A message of one text. -/
def ChatMessage.ofText (role : Role) (content : String) : ChatMessage :=
  ⟨role, some content, none, none, none, []⟩

def ChatMessage.dropDerivedContent (m : ChatMessage) : ChatMessage :=
  if m.content.isSome ∧
    m.content = m.contentBlocks.map blocksText then { m with content := none } else m

/-- A member that is left out where there is no value. -/
def optional (name : String) (v : Option Value) : List (String × Value) :=
  (v.map fun v => (name, v)).toList

def ChatMessage.toValue (m : ChatMessage) : Value :=
  .object (("role", .string m.role.asStr) :: optional "content" (m.text.map .string) ++
    optional "content_blocks" (m.contentBlocks.map .array) ++
      optional "name" (m.name.map .string) ++
    optional "tool_call_id" (m.toolCallId.map .string) ++ m.extra)

def ChatFormat.toValue (req : ChatFormat) : Value :=
  .object
    (("model", .string req.model) :: ("messages", .array (req.messages.map ChatMessage.toValue)) ::
      optional "temperature" (req.temperature.map fun bits => .number (.float bits)) ++
      optional "top_p" (req.topP.map fun bits => .number (.float bits)) ++
      optional "max_tokens" (req.maxTokens.map fun n => .number (.posInt n.toUInt64)) ++
      optional "stream" (req.stream.map .bool) ++ req.extra)

end Aisix
