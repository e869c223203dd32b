import Aisix.Anthropic.SplitSystem

/-!
# Aisix.Anthropic.RoundTrip

A chat that is sent as a Messages request: roles alternate, every turn is there in order, and read
back as a chat the request has the same calls and results (`splitSystem_translated`).
-/

namespace Aisix
namespace Anthropic

open Json ContentPart

/-- What an agent's loop says: a call, or the result of one. -/
inductive ToolEvent where
  | called (id name arguments : String)
  | answered (id text : String)
  deriving DecidableEq

def callEvent (tc : Value) : ToolEvent := .called (callId tc) (callName tc) (callArguments tc)

def answerEvent (m : ChatMessage) : ToolEvent := .answered (m.toolCallId.getD "") m.contentStr

def toolEvents (m : ChatMessage) : List ToolEvent :=
  match m.role with
  | .assistant => (messageCalls m).map callEvent
  | .tool | .function => [answerEvent m]
  | _ => []

section Sent

variable (F : FloatText) (fromStr : String → Option Value)

/-- A call with its arguments as they are read. -/
def sentCall (tc : Value) : ToolEvent :=
  .called (callId tc) (callName tc) (String.ofList (text F (toolInput fromStr tc)))

def sentEvents (m : ChatMessage) : List ToolEvent :=
  match m.role with
  | .assistant => (messageCalls m).map (sentCall F fromStr)
  | .tool | .function => [answerEvent m]
  | _ => []

end Sent

/-! ### The events of a message's blocks -/

section Blocks

variable (F : FloatText)

def calledBlock (block : Value) : Option ToolEvent :=
  if strField block "type" = some "tool_use" then
    (strField block "id").bind fun id => (strField block "name").map fun name =>
      .called id name (String.ofList (text F ((block.get "input").getD (.object []))))
  else none

def answeredBlock (block : Value) : Option ToolEvent :=
  if strField block "type" = some "tool_result" then
    some (.answered ((strField block "tool_use_id").getD "") (toolResultText block))
  else none

def wireEvents (msg : AnthropicMessage) : List ToolEvent :=
  match msg.role with
  | .user => msg.content.filterMap answeredBlock
  | .assistant => msg.content.filterMap (calledBlock F)

theorem calledBlock_withMember (marker block : Value) :
    calledBlock F (withMember "cache_control" marker block) = calledBlock F block := by
  unfold calledBlock
  rw [strField_withMember_of_ne (by decide), strField_withMember_of_ne (by decide),
    strField_withMember_of_ne (by decide), get_withMember_of_ne (by decide)]

theorem answeredBlock_withMember (marker block : Value) :
    answeredBlock (withMember "cache_control" marker block) = answeredBlock block := by
  unfold answeredBlock toolResultText
  rw [strField_withMember_of_ne (by decide), strField_withMember_of_ne (by decide),
    get_withMember_of_ne (by decide)]

theorem calledBlock_markBlock (marker : Option Value) (block : Value) :
    calledBlock F (markBlock marker block) = calledBlock F block := by
  cases marker with
  | none => rfl
  | some marker => exact calledBlock_withMember F marker block

theorem answeredBlock_markBlock (marker : Option Value) (block : Value) :
    answeredBlock (markBlock marker block) = answeredBlock block := by
  cases marker with
  | none => rfl
  | some marker => exact answeredBlock_withMember marker block

theorem wireEvents_markedTurn (turn : AnthropicMessage) (m : ChatMessage) :
    wireEvents F (markedTurn turn m) = wireEvents F turn := by
  obtain ⟨role, content⟩ := turn
  cases role with
  | user => exact filterMap_markLastBlock answeredBlock_withMember content _
  | assistant => exact filterMap_markLastBlock (calledBlock_withMember F) content _

theorem wireEvents_join (a b : AnthropicMessage) (h : a.role = b.role) :
    wireEvents F { a with content := a.content ++ b.content } = wireEvents F a ++
      wireEvents F b := by
  obtain ⟨role, content⟩ := a
  obtain ⟨role', content'⟩ := b
  obtain rfl : role = role' := h
  cases role with
  | user => exact List.filterMap_append
  | assistant => exact List.filterMap_append

/-! ### The events of a turn -/

variable {fromStr : String → Option Value} {debug : String → String} {urls : MediaUrls}

theorem type_anthropicTextBlock {block kept : Value} (h : anthropicTextBlock block = some kept) :
    strField kept "type" = strField block "type" := by
  rw [strField, (anthropicTextBlock_spec h).1, strField]

theorem parsePart_text {block : Value} {t : String} (h : parsePart debug block = .ok (.text t)) :
    strField block "type" = some "text" := by
  have hmedia : ∀ parsed : Except String Media, parsed.map Part.media ≠ .ok (.text t) := by
    intro parsed hparsed
    cases parsed <;> cases hparsed
  unfold parsePart at h
  split at h
  · next htype =>
    cases hfield : strField block "type" with
    | none => rw [hfield] at htype; exact absurd htype (by decide)
    | some ty => rw [hfield] at htype; exact congrArg some htype
  · exact absurd h (hmedia _)
  · exact absurd h (hmedia _)
  · exact absurd h (hmedia _)
  · cases h
  · cases h

theorem anthropicMediaBlock_ok {media : Media} {block : Value}
    (h : anthropicMediaBlock debug urls media = .ok block) :
    ∃ kind source, block = mediaBlock kind source ∧ (kind = "image" ∨ kind = "document") := by
  have hclaude : ∀ mimeType kind, claudeMediaKind debug mimeType = .ok kind → kind = "image" ∨
      kind = "document" := by
    intro mimeType kind h
    unfold claudeMediaKind at h
    split at h
    · exact .inl (Except.ok.inj h).symm
    · split at h
      · exact .inr (Except.ok.inj h).symm
      · split at h <;> cases h
  have huri : ∀ mimeType mediaKind kind, uriKind debug mimeType mediaKind = .ok kind →
      kind = "image" ∨ kind = "document" := by
    intro mimeType mediaKind kind h
    unfold uriKind at h
    split at h
    · split at h
      · exact .inr (Except.ok.inj h).symm
      · split at h
        · exact .inl (Except.ok.inj h).symm
        · cases h
    · exact .inr (Except.ok.inj h).symm
    · exact .inl (Except.ok.inj h).symm
    · cases h
  unfold anthropicMediaBlock at h
  cases hsource : media.source with
  | inline mimeType data =>
    rw [hsource] at h
    dsimp only at h
    cases hkind : claudeMediaKind debug ((mediaTypeFromBase64Prefix data).getD mimeType) with
    | error e => rw [hkind] at h; cases h
    | ok kind =>
      rw [hkind, Except.bind] at h
      split at h
      · cases h
      · exact ⟨kind, _, (Except.ok.inj h).symm, hclaude _ kind hkind⟩
  | uri uri mimeType explicit =>
    rw [hsource] at h
    cases urls with
    | refused upstream => cases h
    | accepted =>
      dsimp only at h
      split at h
      · cases h
      · cases hkind : uriKind debug mimeType media.kind with
        | error e => rw [hkind] at h; cases h
        | ok kind =>
          rw [hkind] at h
          exact ⟨kind, _, (Except.ok.inj h).symm, huri _ _ kind hkind⟩

theorem answeredBlock_of_ne {block : Value} (h : strField block "type" ≠ some "tool_result") :
    answeredBlock block = none :=
  if_neg h

theorem calledBlock_of_ne {block : Value} (h : strField block "type" ≠ some "tool_use") :
    calledBlock F block = none :=
  if_neg h

theorem answeredBlock_userBlock {messageIndex partIndex : Nat} {block : Value} {out : List Value}
    (h : anthropicUserBlock debug urls messageIndex partIndex block = .ok out) :
    out.filterMap answeredBlock = [] := by
  unfold anthropicUserBlock at h
  dsimp only at h
  cases hpart : parsePart debug block with
  | error reason => rw [hpart] at h; cases h
  | ok part =>
    rw [hpart] at h
    cases part with
    | text t =>
      obtain rfl := Except.ok.inj h
      cases hkept : anthropicTextBlock block with
      | none => rfl
      | some kept =>
        have htype : strField kept "type" = some "text" :=
          (type_anthropicTextBlock hkept).trans (parsePart_text hpart)
        rw [Option.toList_some, List.filterMap_cons, answeredBlock_of_ne (by rw [htype]; decide)]
        rfl
    | media media =>
      dsimp only at h
      cases htranslated : anthropicMediaBlock debug urls media with
      | error reason => rw [htranslated] at h; cases h
      | ok translated =>
        rw [htranslated] at h
        obtain rfl := Except.ok.inj h
        obtain ⟨kind, source, rfl, hkind⟩ := anthropicMediaBlock_ok htranslated
        have htype : strField (mediaBlock kind source) "type" = some kind := rfl
        rw [List.filterMap_cons, answeredBlock_markBlock, answeredBlock_of_ne]
        · rfl
        · rw [htype]
          rcases hkind with rfl | rfl <;> decide
    | unsupported ty => cases h

theorem answeredBlock_userBlocks {messageIndex partIndex : Nat} {blocks out : List Value}
    (h : anthropicUserBlocksFrom debug urls messageIndex partIndex blocks = .ok out) :
    out.filterMap answeredBlock = [] := by
  induction blocks generalizing partIndex out with
  | nil =>
    obtain rfl := Except.ok.inj h
    rfl
  | cons block blocks ih =>
    rw [anthropicUserBlocksFrom] at h
    cases hblock : anthropicUserBlock debug urls messageIndex partIndex block with
    | error e => rw [hblock] at h; cases h
    | ok first =>
      cases hrest : anthropicUserBlocksFrom debug urls messageIndex (partIndex + 1) blocks with
      | error e => rw [hblock, Except.bind, hrest] at h; cases h
      | ok rest =>
        rw [hblock, Except.bind, hrest] at h
        obtain rfl := Except.ok.inj h
        rw [List.filterMap_append, answeredBlock_userBlock hblock, ih hrest]
        rfl

theorem answeredBlock_textPart (t : String) : answeredBlock (textPart t) = none := by
  have htype : strField (textPart t) "type" = some "text" := rfl
  exact answeredBlock_of_ne (by rw [htype]; decide)

theorem calledBlock_textPart (t : String) : calledBlock F (textPart t) = none := by
  have htype : strField (textPart t) "type" = some "text" := rfl
  exact calledBlock_of_ne F (by rw [htype]; decide)

theorem filterMap_fromBlocks {β : Type} {f : Value → Option β} (hf : f (textPart "") = none)
    (role : WireRole) (content : List Value) :
    (AnthropicMessage.fromBlocks role content).content.filterMap f = content.filterMap f := by
  unfold AnthropicMessage.fromBlocks
  dsimp only
  split
  · next h =>
    rw [h, List.filterMap_cons, hf]
  · rfl

theorem wireEvents_userTurn {m : ChatMessage} {index : Nat} {turn : AnthropicMessage}
    (h : userTurn debug urls m index = .ok turn) : wireEvents F turn = [] := by
  unfold userTurn at h
  cases hblocks : m.contentBlocks with
  | none =>
    rw [hblocks] at h
    obtain rfl := Except.ok.inj h
    unfold wireEvents AnthropicMessage.text
    dsimp only
    rw [List.filterMap_cons, answeredBlock_textPart]
    rfl
  | some blocks =>
    rw [hblocks] at h
    dsimp only at h
    cases hout : anthropicUserBlocks debug urls blocks index with
    | error e => rw [hout] at h; cases h
    | ok out =>
      rw [hout] at h
      obtain rfl := Except.ok.inj h
      have hnone :
          (AnthropicMessage.fromBlocks .user out).content.filterMap answeredBlock = [] := by
        rw [filterMap_fromBlocks (answeredBlock_textPart ""), answeredBlock_userBlocks hout]
      exact hnone

theorem calledBlock_anthropicTextBlocks (blocks : List Value) :
    (anthropicTextBlocks blocks).filterMap (calledBlock F) = [] := by
  refine List.filterMap_eq_nil_iff.2 fun kept hkept => ?_
  obtain ⟨block, hblock, hkept⟩ := List.mem_filterMap.1 hkept
  have htype : strField block "type" = some "text" := of_decide_eq_true (List.mem_filter.1 hblock).2
  exact calledBlock_of_ne F (by rw [type_anthropicTextBlock hkept, htype]; decide)

theorem calledBlock_toolUseBlocks {index i : Nat} {calls : List Value}
    (h : checkHistoryToolCallsFrom index i calls = .ok ()) :
    (toolUseBlocksFromOpenai fromStr calls).filterMap (calledBlock F) =
    calls.map (sentCall F fromStr) := by
  induction calls generalizing i with
  | nil => rfl
  | cons call calls ih =>
    rw [checkHistoryToolCallsFrom] at h
    split at h
    · cases h
    · next hid =>
      split at h
      · cases h
      · next hname =>
        have hblock :
            toolUseBlock fromStr call = some (markBlock (call.get "cache_control") (.object
            [("type", .string "tool_use"), ("id", .string (callId call)),
              ("name", .string (callName call)), ("input", toolInput fromStr call)])) := if_neg
              (not_or.2 ⟨hid, hname⟩)
        have hrest := ih h
        unfold toolUseBlocksFromOpenai at hrest ⊢
        rw [List.filterMap_cons, hblock, List.filterMap_cons, calledBlock_markBlock, hrest]
        rfl

theorem Turned.events {index : Nat} {m : ChatMessage} {part : AnthropicMessage}
    (h : Turned fromStr debug urls index m part) : wireEvents F part = sentEvents F fromStr m := by
  cases h with
  | user turn hrole hturn =>
    rw [wireEvents_markedTurn, wireEvents_userTurn F hturn, sentEvents]
    rcases hrole with hrole | hrole | hrole <;> rw [hrole]
  | assistant hrole hcheck =>
    rw [wireEvents_markedTurn, sentEvents, hrole]
    have hsaid : ∀ (t : String) (blocks : List Value),
        (if anthropicTextBlocks blocks = [] ∧
          t ≠ "" then [textPart t] else anthropicTextBlocks blocks).filterMap (calledBlock F) =
          [] := by
      intro t blocks
      split
      · rw [List.filterMap_cons, calledBlock_textPart]
        rfl
      · exact calledBlock_anthropicTextBlocks F blocks
    have hevents :
        (AnthropicMessage.assistant fromStr m.contentStr m.contentBlocks
          (messageCalls m)).content.filterMap (calledBlock F) =
        (messageCalls m).map (sentCall F fromStr) := by
      unfold AnthropicMessage.assistant
      rw [filterMap_fromBlocks (calledBlock_textPart F ""), List.filterMap_append, hsaid,
        calledBlock_toolUseBlocks F hcheck]
      rfl
    exact hevents
  | result toolUseId hrole hid =>
    have hanswer : answerEvent m = .answered toolUseId m.contentStr := by rw [answerEvent, hid]; rfl
    have hblock : wireEvents F (.toolResult toolUseId m.contentStr (toolMessageCacheControl m)) =
        [.answered toolUseId m.contentStr] := by
      unfold wireEvents AnthropicMessage.toolResult
      dsimp only
      rw [List.filterMap_cons, answeredBlock_markBlock]
      rfl
    rw [hblock, sentEvents, hanswer]
    rcases hrole with hrole | hrole <;> rw [hrole]

theorem sentEvents_of_not {m : ChatMessage} (h : isSent m = false ∨ isTurn m = false) :
    sentEvents F fromStr m = [] := by
  have hreasoning : m.isReasoningOnly = true → sentEvents F fromStr m = [] := by
    intro hreasoning
    unfold ChatMessage.isReasoningOnly at hreasoning
    simp only [Bool.and_eq_true, beq_iff_eq, List.isEmpty_iff] at hreasoning
    rw [sentEvents, hreasoning.1.1.1.1, hreasoning.1.2]
    rfl
  have hlifted : m.role = .system ∨ m.role = .developer → sentEvents F fromStr m = [] := by
    rintro (hrole | hrole) <;> rw [sentEvents, hrole]
  unfold isSent isTurn at h
  by_cases hr : m.isReasoningOnly = true
  · exact hreasoning hr
  · simp only [hr, Bool.not_false, Bool.true_and, bne_eq_false_iff_eq, Bool.and_eq_false_iff] at h
    rcases h with hrole | hrole | hrole
    · exact hlifted (.inr hrole)
    · exact hlifted (.inl hrole)
    · exact hlifted (.inr hrole)

theorem flatMap_filter_of_nil {α β : Type} {p : α → Bool} {f : α → List β}
    (h : ∀ x, p x = false → f x = []) (l : List α) :
    (l.filter p).flatMap f = l.flatMap f := by
  induction l with
  | nil => rfl
  | cons x l ih =>
    rw [List.flatMap_cons]
    cases hp : p x with
    | true => rw [List.filter_cons_of_pos hp, List.flatMap_cons, ih]
    | false =>
      rw [List.filter_cons_of_neg (by rw [hp]; exact Bool.false_ne_true), ih, h x hp,
        List.nil_append]

theorem flatMap_dropWhile_of_nil {α β : Type} {p : α → Bool} {f : α → List β}
    (h : ∀ x, p x = true → f x = []) (l : List α) :
    (l.dropWhile p).flatMap f = l.flatMap f := by
  induction l with
  | nil => rfl
  | cons x l ih =>
    cases hp : p x with
    | true => rw [List.dropWhile_cons_of_pos hp, ih, List.flatMap_cons, h x hp, List.nil_append]
    | false => rw [List.dropWhile_cons_of_neg (by rw [hp]; exact Bool.false_ne_true)]

theorem sentEvents_sent (ms : List ChatMessage) :
    (sent ms.zipIdx).flatMap (fun e => sentEvents F fromStr e.1) =
    ms.flatMap (sentEvents F fromStr) := by
  unfold sent
  rw [flatMap_filter_of_nil fun e he => sentEvents_of_not F (.inl he),
    flatMap_dropWhile_of_nil fun e he => sentEvents_of_not F (.inr (by simpa using he))]
  have hfst : ms.zipIdx.map Prod.fst = ms := List.zipIdx_map_fst ..
  exact (List.flatMap_map ..).symm.trans (congrArg (List.flatMap (sentEvents F fromStr)) hfst)

theorem wireEvents_splitSystemWith {req : ChatFormat} {system : Option AnthropicSystem}
    {out : List AnthropicMessage} (h : splitSystemWith fromStr debug urls req = .ok (system, out)) :
    out.flatMap (wireEvents F) = req.messages.flatMap (sentEvents F fromStr) := by
  obtain ⟨-, parts, hparts, rfl⟩ := splitSystemWith_ok h
  rw [mergeConsecutiveRoles, flatMap_mergeRuns (wireEvents_join F), ← sentEvents_sent]
  generalize sent req.messages.zipIdx = es at hparts ⊢
  clear h
  induction hparts with
  | nil => rfl
  | cons hpart _ ih => rw [List.flatMap_cons, List.flatMap_cons, ih, (turnOf_turned hpart).events]

/-! ### The request is read back -/

def AnthropicMessage.toValue (msg : AnthropicMessage) : Value :=
  .object [("role", .string msg.role.asStr), ("content", .array msg.content)]

def AnthropicSystem.toValue : AnthropicSystem → Value
  | text s => .string s
  | blocks bs => .array bs

theorem toolEvents_translateUserBlocks (blocks : List Value) :
    (translateUserBlocks .drop blocks).flatMap toolEvents = blocks.filterMap answeredBlock := by
  obtain ⟨said, heq, hsaid, -⟩ := translateUserBlocks_eq .drop blocks
  have hquiet : said.flatMap toolEvents = [] :=
    List.flatMap_eq_nil_iff.2 fun m hm => by rw [toolEvents, (hsaid m hm).1]
  rw [heq, List.flatMap_append, hquiet, List.append_nil]
  clear heq hsaid hquiet
  induction blocks with
  | nil => rfl
  | cons block blocks ih =>
    rw [List.flatMap_cons, List.flatMap_append, ih, List.filterMap_cons]
    unfold toolResults answeredBlock
    split
    · have hid :
          ((strField block "tool_use_id").filter (· ≠ "")).getD "" =
          (strField block "tool_use_id").getD "" := by
        cases strField block "tool_use_id" with
        | none => rfl
        | some id =>
          by_cases hempty : id = ""
          · subst hempty
            rfl
          · rw [Option.filter_some, if_pos (by simpa using hempty)]
      have hevents : toolEvents (toolMessageFromToolResult .drop block) =
          [.answered ((strField block "tool_use_id").getD "") (toolResultText block)] := by
        rw [← hid]
        rfl
      rw [List.flatMap_singleton, hevents]
      rfl
    · rfl

theorem toolEvents_translateAssistantBlocks (purpose : InboundUse) (blocks : List Value) :
    toolEvents (translateAssistantBlocks .drop F purpose blocks) =
      blocks.filterMap (calledBlock F) := by
  obtain ⟨hrole, -, hcalls⟩ := translateAssistantBlocks_eq F purpose blocks
  rw [toolEvents, hrole, hcalls]
  dsimp only
  clear hrole hcalls
  induction blocks with
  | nil => rfl
  | cons block blocks ih =>
    rw [List.flatMap_cons, List.map_append, ih, List.filterMap_cons]
    unfold assistantCalls calledBlock toolCallFromToolUse
    split
    · cases strField block "id" with
      | none => rfl
      | some id =>
        cases strField block "name" with
        | none => rfl
        | some name => rfl
    · rfl

theorem entryReads_toValue (msg : AnthropicMessage) :
    ∃ back, EntryReads F .dispatch .drop msg.toValue back ∧
    back.flatMap toolEvents = wireEvents F msg := by
  obtain ⟨role, content⟩ := msg
  cases role with
  | user => exact ⟨_, .userBlocks content rfl rfl, toolEvents_translateUserBlocks content⟩
  | assistant =>
    refine ⟨_, .assistantBlocks content rfl rfl, ?_⟩
    rw [List.flatMap_singleton]
    exact toolEvents_translateAssistantBlocks F .dispatch content

/-- A request body with this system prompt and these messages, whose other fields are of their
types. -/
structure BodyCarries (asF64 : Number → UInt64) (body : Value) (system : Option AnthropicSystem)
    (out : List AnthropicMessage) : Prop where
  model : ∃ model, strField body "model" = some model
  messages : body.get "messages" = some (.array (out.map AnthropicMessage.toValue))
  system : body.get "system" = system.map AnthropicSystem.toValue
  sampling : ∃ sampling, dispatchSampling asF64 body = .ok sampling

theorem systemMessages_toValue (system : Option AnthropicSystem) :
    ∃ back, systemMessages .drop (system.map AnthropicSystem.toValue) = .ok back ∧
      back.flatMap toolEvents = [] := by
  have hok : ∃ back, systemMessages .drop (system.map AnthropicSystem.toValue) = .ok back := by
    cases system with
    | none => exact ⟨_, rfl⟩
    | some system =>
      cases system with
      | text s => exact ⟨_, rfl⟩
      | blocks bs =>
        have hdrop : markedSystemMessage .drop (.array bs) = none := by
          unfold markedSystemMessage
          exact if_neg fun h => absurd h.1 (by decide)
        rw [Option.map_some, AnthropicSystem.toValue, systemMessages, hdrop]
        exact ⟨_, rfl⟩
  obtain ⟨back, hback⟩ := hok
  refine ⟨back, hback, List.flatMap_eq_nil_iff.2 fun m hm => ?_⟩
  rw [toolEvents, systemMessages_role .drop hback m hm]

theorem parseInboundRequest_carries {asF64 : Number → UInt64} {body : Value}
    {system : Option AnthropicSystem} {out : List AnthropicMessage}
    (h : BodyCarries asF64 body system out) :
    ∃ back, parseInboundRequest F asF64 body = .ok back ∧
      back.messages.flatMap toolEvents = out.flatMap (wireEvents F) := by
  obtain ⟨model, hmodel⟩ := h.model
  obtain ⟨sampling, hsampling⟩ := h.sampling
  obtain ⟨systemBack, hsystem, hsystemEvents⟩ := systemMessages_toValue system
  have haccepted : ∀ m ∈ out.map AnthropicMessage.toValue, Accepted F .dispatch .drop m := by
    intro m hm
    obtain ⟨msg, -, rfl⟩ := List.mem_map.1 hm
    obtain ⟨back, hback, -⟩ := entryReads_toValue F msg
    exact ⟨back, (entryMessages_eq_ok_iff F .dispatch .drop).2 hback⟩
  have hentries := entriesMessages_of_accepted F .dispatch .drop 0 haccepted
  have hevents :
      ((out.map AnthropicMessage.toValue).flatMap (messagesOf F .dispatch .drop)).flatMap
      toolEvents = out.flatMap (wireEvents F) := by
    rw [List.flatMap_map, List.flatMap_assoc]
    refine List.flatMap_congr fun msg _ => ?_
    obtain ⟨back, hback, hwire⟩ := entryReads_toValue F msg
    rw [hback.messagesOf_eq, hwire]
  cases body with
  | object fields =>
    refine ⟨⟨model, systemBack ++ (out.map AnthropicMessage.toValue).flatMap
      (messagesOf F .dispatch .drop), sampling.temperature, sampling.topP, sampling.maxTokens,
      sampling.stream, (fields.filter fun e => !READ_FIELDS.contains e.1), sampling.topK,
      sampling.thinkingBudgetTokens, sampling.thoughtsRequested⟩, ?_, ?_⟩
    · unfold parseInboundRequest parseInbound
      dsimp only
      rw [hmodel, h.messages, h.system]
      dsimp only
      rw [hsystem, hentries, hsampling]
      rfl
    · rw [List.flatMap_append, hsystemEvents, hevents, List.nil_append]
  | _ => cases hmodel

end Blocks

/-! ### The translation -/

/-- What a chat is translated to. -/
structure Translated (fromStr : String → Option Value) (debug : String → String) (req : ChatFormat)
    (system : Option AnthropicSystem) (out : List AnthropicMessage) : Prop where
  alternate : out.IsChain fun a b => a.role ≠ b.role
  nonempty : ∀ msg ∈ out, msg.content ≠ []
  turns : ∃ parts, List.Forall₂ (fun e part => turnOf fromStr debug .accepted e.2 e.1 = .ok part)
    (sent req.messages.zipIdx) parts ∧
    out.flatMap AnthropicMessage.content = parts.flatMap AnthropicMessage.content
  prompt : SystemTells (lifted req.messages) system
  readBack : ∀ (F : FloatText) (asF64 : Number → UInt64) (body : Value),
    BodyCarries asF64 body system out → ∃ back, parseInboundRequest F asF64 body = .ok back ∧
      back.messages.flatMap toolEvents = req.messages.flatMap (sentEvents F fromStr)

/-- Every chat that is accepted is translated. -/
theorem splitSystem_translated (fromStr : String → Option Value) (debug : String → String)
    {req : ChatFormat} {system : Option AnthropicSystem} {out : List AnthropicMessage}
    (h : splitSystem fromStr debug req = .ok (system, out)) :
    Translated fromStr debug req system out := by
  obtain ⟨hsystem, parts, hparts, hout⟩ := splitSystemWith_ok h
  refine ⟨?_, ?_, ⟨parts, hparts, ?_⟩, ?_, fun F asF64 body hbody => ?_⟩
  · rw [hout, mergeConsecutiveRoles]
    apply isChain_mergeRuns
    exact fun _ _ => rfl
  · have hparts_ne : ∀ part ∈ parts, part.content ≠ [] := by
      intro part hpart
      obtain ⟨i, hi, rfl⟩ := List.mem_iff_getElem.1 hpart
      have hi' : i < (sent req.messages.zipIdx).length := hparts.length_eq ▸ hi
      exact (turnOf_turned (hparts.get hi' hi)).content_ne
    rw [hout, mergeConsecutiveRoles]
    exact forall_mergeRuns (fun a b _ ha _ => List.append_ne_nil_of_left_ne_nil ha _) hparts_ne
  · rw [hout, mergeConsecutiveRoles]
    exact flatMap_mergeRuns (fun _ _ _ => rfl) parts
  · rw [hsystem]
    exact systemTells_buildSystem (lifted req.messages)
  · obtain ⟨back, hback, hevents⟩ := parseInboundRequest_carries F hbody
    exact ⟨back, hback, hevents.trans (wireEvents_splitSystemWith F h)⟩

/-! An agent's loop with parallel calls, and a developer's message in it. -/

def chatOf (messages : List ChatMessage) : ChatFormat :=
  .new "claude" messages

def lookCall (id arguments : String) : Value :=
  .object [("id", .string id), ("type", .string "function"),
    ("function", .object [("name", .string "look"), ("arguments", .string arguments)])]

def callsTurn (tcs : List Value) : ChatMessage :=
  ⟨.assistant, none, none, none, none, [("tool_calls", .array tcs)]⟩

def resultTurn (id t : String) : ChatMessage := ⟨.tool, some t, none, none, some id, []⟩

def agentLoop : ChatFormat :=
  chatOf [.ofText .system "Be brief.", .ofText .user "Weather?",
    callsTurn [lookCall "a" "{}", lookCall "b" "{}"], resultTurn "b" "rain",
    .ofText .developer "No emoji.", resultTurn "a" "sun"]

def emptyObject (s : String) : Option Value := if s = "{}" then some (.object []) else none

theorem splitSystem_agentLoop :
    Translated emptyObject id agentLoop (some (.text "Be brief.\n\nNo emoji."))
    [.text .user "Weather?",
      ⟨.assistant, [lookCall "a" "{}", lookCall "b" "{}"].filterMap (toolUseBlock emptyObject)⟩,
        ⟨.user, (AnthropicMessage.toolResult "b" "rain" none).content ++
          (AnthropicMessage.toolResult "a" "sun" none).content⟩] :=
  splitSystem_translated emptyObject id rfl

def requestBody (out : List AnthropicMessage) : Value :=
  .object [("model", .string "claude"), ("messages", .array (out.map AnthropicMessage.toValue)),
    ("max_tokens", .number (.posInt 4096)), ("stream", .bool false)]

def oops : AnthropicMessage :=
  ⟨.assistant, [lookCall "a" "oops"].filterMap (toolUseBlock emptyObject)⟩

/-- A later system message is a turn of the user's, and a call whose arguments are no JSON comes
back without them. -/
theorem splitSystem_differs :
    (∃ out,
      splitSystem emptyObject id (chatOf [.ofText .user "Hi.", .ofText .system "In French."]) =
      .ok (none, out) ∧
        ∀ part, turnOf emptyObject id .accepted 0 (.ofText .user "Hi.") = .ok part →
          out.flatMap AnthropicMessage.content ≠ part.content) ∧
      ∃ out body back, splitSystem emptyObject id (chatOf [callsTurn [lookCall "a" "oops"]]) =
        .ok (none, out) ∧ BodyCarries (fun _ => 0) body none out ∧
        parseInboundRequest bitsText (fun _ => 0) body = .ok back ∧
        back.messages.flatMap toolEvents ≠
          (chatOf [callsTurn [lookCall "a" "oops"]]).messages.flatMap toolEvents := by
  constructor
  · refine ⟨_, rfl, fun part hpart => ?_⟩
    obtain rfl := Except.ok.inj hpart
    exact fun h => absurd (congrArg List.length h) (by decide)
  · have hcarries : BodyCarries (fun _ => 0) (requestBody [oops]) none [oops] :=
      ⟨⟨_, rfl⟩, rfl, rfl, ⟨_, rfl⟩⟩
    obtain ⟨back, hback, hevents⟩ := parseInboundRequest_carries bitsText hcarries
    refine ⟨[oops], requestBody [oops], back, rfl, hcarries, hback, ?_⟩
    rw [hevents]
    decide

end Anthropic
end Aisix
