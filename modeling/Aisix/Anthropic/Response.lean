import Aisix.Chat

/-!
# Aisix.Anthropic.Response

A whole Messages answer, read as a chat answer.
-/

namespace Aisix
namespace Anthropic

open Json

structure AnthropicOutputDetails where
  thinkingTokens : Option Nat
  deriving DecidableEq, Repr

structure AnthropicServerToolUse where
  webSearchRequests : Nat
  webFetchRequests : Nat
  deriving DecidableEq, Repr

/-- Each count is a `u32`, and 0 where the answer leaves it out. -/
structure AnthropicUsage where
  inputTokens : Nat
  outputTokens : Nat
  outputTokensDetails : Option AnthropicOutputDetails
  serverToolUse : Option AnthropicServerToolUse
  cacheCreationInputTokens : Nat
  cacheReadInputTokens : Nat
  cacheCreation : Option Value
  speed : Option Value
  serviceTier : Option Value

inductive AnthropicResponseBlock where
  | text (text : String)
  /-- An `input` left out is `null`. -/
  | toolUse (id name : String) (input : Value)
  | thinking (thinking : String)
  | other

structure AnthropicResponse where
  id : String
  model : String
  content : List AnthropicResponseBlock
  stopReason : Option String
  usage : Option AnthropicUsage
  /-- A `Vec` counts its elements with a `usize`. -/
  content_lt : content.length < 2 ^ 64

def usageServiceTier (speed serviceTier : Option Value) : Option ServiceTier :=
  ServiceTier.native?
    (anthropicServiceTier (speed.bind Value.asStr?) (serviceTier.bind Value.asStr?))

/-- The counts of an answer, with what is kept out of the total. -/
def usageStats (input output cacheCreation cacheRead : Nat) (ttl : CacheCreationTtl)
    (serverToolUse : Option AnthropicServerToolUse) (details : Option AnthropicOutputDetails) :
    UsageStats :=
  let usage :=
    { UsageStats.withCache input output cacheCreation cacheRead with cacheCreationTtl := ttl }
  let usage :=
    match serverToolUse with
    | some stu =>
      { usage with
        webSearchRequests := stu.webSearchRequests, webFetchRequests := stu.webFetchRequests }
    | none => usage
  match details.bind (·.thinkingTokens) with
  | some thinking => { usage with reasoningTokens := thinking }
  | none => usage

def toolArguments (J : Json.Text) (input : Value) : String :=
  match input with
  | .null => "\x7b\x7d"
  | other => J.print other

def mapStopReason : Option String → FinishReason
  | none => .stop
  | some raw =>
    if raw = "end_turn" ∨ raw = "stop_sequence" ∨ raw = "pause_turn" then .stop
    else if raw = "max_tokens" ∨ raw = "model_context_window_exceeded" then .length
    else if raw = "tool_use" then .toolCalls
    else if raw = "refusal" then .contentFilter
    else .other raw

def text? : AnthropicResponseBlock → Option String
  | .text text => some text
  | _ => none

/-- An empty thinking block is not reasoning. -/
def thinking? : AnthropicResponseBlock → Option String
  | .thinking thinking => if thinking = "" then none else some thinking
  | _ => none

def toolCall? (J : Json.Text) : AnthropicResponseBlock → Option Value
  | .toolUse id name input =>
    some (.object [("id", .string id), ("type", .string "function"),
      ("function",
        .object [("name", .string name), ("arguments", .string (toolArguments J input))])])
  | _ => none

/-- `join` with a separator. -/
def joinWith (separator : String) : List String → String
  | [] => ""
  | [t] => t
  | t :: rest => t ++ separator ++ joinWith separator rest

def responseIntoChatResponse (J : Json.Text) (raw : AnthropicResponse) : ChatResponse :=
  let texts := raw.content.filterMap text?
  let content := if texts ≠ [] then some (joinWith "" texts) else none
  let toolCalls := raw.content.filterMap (toolCall? J)
  let extra := if toolCalls ≠ [] then [("tool_calls", Value.array toolCalls)] else []
  let reasoning := joinWith "\n" (raw.content.filterMap thinking?)
  let extra := if reasoning ≠ "" then extra ++ [("reasoning_content", .string reasoning)] else extra
  { id := raw.id
    model := raw.model
    message := ⟨.assistant, content, none, none, none, extra⟩
    finishReason := mapStopReason raw.stopReason
    logprobs := none
    moreChoices := []
    usage :=
      match raw.usage with
      | some u =>
        usageStats u.inputTokens u.outputTokens u.cacheCreationInputTokens u.cacheReadInputTokens
          (.fromAnthropic u.cacheCreation) u.serverToolUse u.outputTokensDetails
      | none => .default
    serviceTier := raw.usage.bind fun u => usageServiceTier u.speed u.serviceTier }

end Anthropic
end Aisix
