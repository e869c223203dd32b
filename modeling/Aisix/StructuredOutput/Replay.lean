import Aisix.ChatMerge

/-!
# Aisix.StructuredOutput.Replay

The tool route's answer: the synthetic call turned back into content, and a whole answer replayed as
a stream (`replay_spec`: what a client merges it back to).
-/

namespace Aisix
namespace StructuredOutput

open Json ChatMerge

def JSON_TOOL_NAME : String := "json_tool_call"

/-- The model's call of the tool that stands for the schema. -/
def isSynthetic (call : Value) : Bool :=
  ((call.get "function").bind fun f => strField f "name").getD "" == JSON_TOOL_NAME

def argumentsOf (call : Value) : Option String :=
  (call.get "function").bind fun f => strField f "arguments"

/-- The calls of an answer, none where it has no array of them. -/
def toolCalls (message : ChatMessage) : Option (List Value) :=
  match message.extra.lookup "tool_calls" with
  | some (.array calls) => some calls
  | _ => none

def withToolCalls (message : ChatMessage) (calls : List Value) : ChatMessage :=
  { message with extra := Value.modifyField "tool_calls" (fun _ => .array calls) message.extra }

def unwrapJsonToolCall (resp : ChatResponse) : ChatResponse :=
  match toolCalls resp.message with
  | none => resp
  | some calls =>
    let kept := calls.filter fun call => !isSynthetic call
    let message := withToolCalls resp.message kept
    let jsonParts := (calls.filter isSynthetic).filterMap argumentsOf
    if jsonParts.isEmpty then { resp with message := message }
    else
      let json := "\n".intercalate jsonParts
      if kept.isEmpty then
        { resp with
          message := { message with
            extra := remove "tool_calls" message.extra
            content := some json }
          finishReason := .stop }
      else
        let content := match message.content.filter (· ≠ "") with
          | some text => text ++ "\n" ++ json
          | none => json
        { resp with message := { message with content := some content } }

/-- The position of a call as its index, unless it has one. -/
def fillIndex (i : Nat) : Value → Value
  | .object fields =>
    .object (if (fields.lookup "index").isSome then fields else fields ++
      [("index", .number (.posInt (UInt64.ofNat i)))])
  | call => call

def responseIntoFakeStreamChunks (resp : ChatResponse) : List ChatChunk :=
  let chunk (delta : ChatDelta) (finishReason : Option FinishReason) (usage : Option UsageStats) :
      ChatChunk :=
    ⟨resp.id, resp.model, 0, delta, finishReason, none, usage, resp.serviceTier, none⟩
  let reasoning :=
    ((resp.message.extra.lookup "reasoning_content").bind Value.asStr?).filter (· ≠ "")
  let content := { chunk { ChatDelta.default with
    content := some (resp.message.content.getD "")
    toolCalls :=
      (toolCalls resp.message).map fun calls => calls.mapIdx fillIndex } none
        none with logprobs := resp.logprobs }
  chunk { ChatDelta.default with role := some .assistant } none none ::
    (reasoning.map fun r => chunk { ChatDelta.default with reasoningContent := some r }
      none none).toList ++
    [content, chunk .default (some resp.finishReason) none, chunk .default none (some resp.usage)]

def reasoningText (message : ChatMessage) : String :=
  ((message.extra.lookup "reasoning_content").bind Value.asStr?).getD ""

def callsOf (resp : ChatResponse) : List Value := (toolCalls resp.message).getD []

/-- The calls as they are streamed. -/
def streamedCalls (resp : ChatResponse) : List Value := (callsOf resp).mapIdx fillIndex

theorem merge_fakeStream (resp : ChatResponse) : merge (responseIntoFakeStreamChunks resp) =
    { content := resp.message.content.getD ""
      reasoning := reasoningText resp.message
      refusal := ""
      functionCall := none
      toolCalls := (streamedCalls resp).foldl addCall []
      logprobs := resp.logprobs
      finishReason := some resp.finishReason
      usage := some resp.usage
      serviceTier := resp.serviceTier } := by
  unfold responseIntoFakeStreamChunks reasoningText streamedCalls callsOf merge
  cases hreasoning : (resp.message.extra.lookup "reasoning_content").bind Value.asStr? with
  | none =>
    cases toolCalls resp.message <;> simp [Merged.add, Merged.empty, Merged.functionFragment,
      ChatDelta.default, grow]
  | some r =>
    by_cases hr : r = ""
    · subst hr
      cases toolCalls resp.message <;>
        simp [Merged.add, Merged.empty, Merged.functionFragment, ChatDelta.default,
          grow, Option.filter]
    · cases toolCalls resp.message <;>
        simp [Merged.add, Merged.empty, Merged.functionFragment, ChatDelta.default, grow,
          Option.filter, hr]

/-! ### The calls of a replayed answer -/

theorem get_fillIndex {key : String} (hkey : key ≠ "index") (i : Nat) (call : Value) :
    (fillIndex i call).get key = call.get key := by
  cases call with
  | object fields =>
    have hne : (key == "index") = false := beq_eq_false_iff_ne.2 hkey
    rw [fillIndex, Value.get, Value.get]
    split
    · rfl
    · rw [List.lookup_append, List.lookup_cons, hne, List.lookup_nil, Option.or_none]
  | _ => rfl

theorem fillIndex_of_indexed {i : Nat} {call : Value} (h : (call.get "index").isSome) :
    fillIndex i call = call := by
  cases call with
  | object fields =>
    rw [Value.get] at h
    rw [fillIndex, if_pos h]
  | _ => rfl

theorem get_index_fillIndex (i : Nat) {fields : List (String × Value)}
    (h : fields.lookup "index" = none) : (fillIndex i (.object fields)).get "index" =
      some (.number (.posInt (UInt64.ofNat i))) := by
  rw [fillIndex, h, Option.isSome_none, if_neg Bool.false_ne_true, Value.get,
    lookup_append_of_none h, List.lookup_cons_self]

theorem callIndex_fillIndex {i : Nat} (hi : i < 2 ^ 64) {fields : List (String × Value)}
    (h : fields.lookup "index" = none) : callIndex (fillIndex i (.object fields)) = i := by
  rw [callIndex, get_index_fillIndex i h, Option.bind_some, Value.asU64?, Option.getD_some,
    UInt64.toNat_ofNat_of_lt' hi]

theorem nodup_streamed {calls : List Value} (hlength : calls.length < 2 ^ 64)
    (hplain : ∀ call ∈ calls, ∃ fields, call = .object fields ∧ fields.lookup "index" = none) :
    ((calls.mapIdx fillIndex).map callIndex).Nodup := by
  have hindex : (calls.mapIdx fillIndex).map callIndex = List.range calls.length := by
    refine List.ext_getElem (by simp) fun i hi hi' => ?_
    simp only [List.length_map, List.length_mapIdx] at hi
    obtain ⟨fields, hcall, hnone⟩ := hplain calls[i] (List.getElem_mem hi)
    rw [List.getElem_map, List.getElem_mapIdx, List.getElem_range, hcall,
      callIndex_fillIndex (by omega) hnone]
  rw [hindex]
  exact List.nodup_range

/-! ### The synthetic call -/

def realCalls (resp : ChatResponse) : List Value :=
  (callsOf resp).filter fun call => !isSynthetic call

theorem toolCalls_withToolCalls {message : ChatMessage} (h : (toolCalls message).isSome)
    (calls : List Value) : toolCalls (withToolCalls message calls) = some calls := by
  unfold toolCalls withToolCalls at *
  dsimp only
  cases hlookup : message.extra.lookup "tool_calls" with
  | none =>
    rw [hlookup] at h
    cases h
  | some v => rw [Value.lookup_modifyField, hlookup, Option.map_some]

theorem withToolCalls_self {message : ChatMessage} {calls : List Value}
    (h : toolCalls message = some calls) : withToolCalls message calls = message := by
  have hfixed : Value.modifyField "tool_calls" (fun _ => .array calls) message.extra =
      message.extra := by
    refine Value.modifyField_of_fixed fun v hv => ?_
    unfold toolCalls at h
    rw [hv] at h
    cases v with
    | array items => rw [Option.some.inj h]
    | _ => cases h
  rw [withToolCalls, hfixed]

theorem toolCalls_removed (message : ChatMessage) (content : Option String) :
    toolCalls { message with extra := remove "tool_calls" message.extra, content := content } =
      none := by
  rw [toolCalls, lookup_remove_self]

/-- The real calls stay, in order, and nothing else is called; beside them the finish reason stays
too. -/
theorem unwrap_realCalls (resp : ChatResponse) :
    callsOf (unwrapJsonToolCall resp) = realCalls resp ∧
      (realCalls resp ≠ [] → (unwrapJsonToolCall resp).finishReason = resp.finishReason) := by
  unfold realCalls callsOf unwrapJsonToolCall
  cases hcalls : toolCalls resp.message with
  | none => simp [hcalls]
  | some calls =>
    have hsome : (toolCalls resp.message).isSome := by rw [hcalls]; rfl
    dsimp only [Option.getD_some]
    split
    · exact ⟨by rw [toolCalls_withToolCalls hsome, Option.getD_some], fun _ => rfl⟩
    · split
      · next hkept =>
        have hnil := List.isEmpty_iff.1 hkept
        refine ⟨?_, fun hne => absurd hnil hne⟩
        rw [hnil, toolCalls_removed, Option.getD_none]
      · refine ⟨?_, fun _ => rfl⟩
        have hkeep := toolCalls_withToolCalls hsome (calls.filter fun call => !isSynthetic call)
        exact congrArg (Option.getD · []) hkeep

theorem unwrap_of_no_synthetic {resp : ChatResponse}
    (h : ∀ call ∈ callsOf resp, isSynthetic call = false) : unwrapJsonToolCall resp = resp := by
  unfold callsOf at h
  unfold unwrapJsonToolCall
  cases hcalls : toolCalls resp.message with
  | none => rfl
  | some calls =>
    rw [hcalls, Option.getD_some] at h
    have hnone : calls.filter isSynthetic = [] := List.filter_eq_nil_iff.2 fun call hcall => by
      simp [h call hcall]
    have hall : (calls.filter fun call => !isSynthetic call) = calls :=
      List.filter_eq_self.2 fun call hcall => by simp [h call hcall]
    simp only [hnone, hall, List.filterMap_nil, List.isEmpty_nil, if_true,
      withToolCalls_self hcalls]

/-- A whole answer replayed: a client gets back its content, reasoning, log probabilities, finish
reason, usage and tier, and its calls, each alone under its index, just when their indices,
positions filled in, are apart. -/
theorem replay_spec (resp : ChatResponse) :
    ((merge (responseIntoFakeStreamChunks resp)).content = resp.message.content.getD "" ∧
        (merge (responseIntoFakeStreamChunks resp)).reasoning = reasoningText resp.message ∧
        (merge (responseIntoFakeStreamChunks resp)).logprobs = resp.logprobs ∧
        (merge (responseIntoFakeStreamChunks resp)).finishReason = some resp.finishReason ∧
        (merge (responseIntoFakeStreamChunks resp)).usage = some resp.usage ∧
        (merge (responseIntoFakeStreamChunks resp)).serviceTier = resp.serviceTier) ∧
      ((merge (responseIntoFakeStreamChunks resp)).toolCalls =
          ((streamedCalls resp).map fun c => (callIndex c, c)) ↔
        ((streamedCalls resp).map callIndex).Nodup) ∧
      ((callsOf resp).length < 2 ^ 64 →
        (∀ call ∈ callsOf resp, ∃ fields, call = .object fields ∧ fields.lookup "index" = none) →
        ((streamedCalls resp).map callIndex).Nodup) ∧
      ((streamedCalls resp).length = (callsOf resp).length ∧
        ∀ (i : Nat) (call streamed : Value), (callsOf resp)[i]? = some call →
          (streamedCalls resp)[i]? = some streamed →
          (∀ key, key ≠ "index" → streamed.get key = call.get key) ∧
            ((call.get "index").isSome → streamed = call) ∧
            ∀ fields, call = .object fields → fields.lookup "index" = none →
              streamed.get "index" = some (.number (.posInt (UInt64.ofNat i)))) ∧
      (callsOf (unwrapJsonToolCall resp) = realCalls resp ∧
        (realCalls resp ≠ [] → (unwrapJsonToolCall resp).finishReason = resp.finishReason) ∧
        ((∀ call ∈ callsOf resp, isSynthetic call = false) → unwrapJsonToolCall resp = resp)) := by
  have hunwrap := unwrap_realCalls resp
  rw [merge_fakeStream]
  refine ⟨⟨rfl, rfl, rfl, rfl, rfl, rfl⟩, foldl_addCall_iff _, nodup_streamed,
    ⟨List.length_mapIdx, fun i call streamed hcall hstreamed => ?_⟩, hunwrap.1, hunwrap.2,
    unwrap_of_no_synthetic⟩
  rw [streamedCalls, List.getElem?_mapIdx, hcall, Option.map_some] at hstreamed
  obtain rfl := Option.some.inj hstreamed
  exact ⟨fun key hkey => get_fillIndex hkey i call, fillIndex_of_indexed,
    fun fields hobject hnone => hobject ▸ get_index_fillIndex i hnone⟩

def callOf (name : String) (index : List (String × Value)) : Value :=
  .object (("function", .object [("name", .string name)]) :: index)

def answering (extra : List (String × Value)) : ChatResponse :=
  ⟨"r", "m", ⟨.assistant, some "hi", none, none, none, extra⟩, .stop, none, [], .default, none⟩

/-- A refusal is not streamed, and a position may be an index that another call has. -/
theorem replay_loses :
    (merge (responseIntoFakeStreamChunks (answering [("refusal", .string "no")]))).refusal = "" ∧
      (merge (responseIntoFakeStreamChunks (answering [("tool_calls",
        .array [callOf "f" [], callOf "g" [("index", .number (.posInt 0))]])]))).toolCalls.length =
          1 := by
  decide

end StructuredOutput
end Aisix
