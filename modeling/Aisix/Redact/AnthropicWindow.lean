import Aisix.Anthropic.Inbound
import Aisix.Anthropic.SseEncoder
import Aisix.LastTurn
import Aisix.Redact.AnthropicWalk

/-!
# Aisix.Redact.AnthropicWindow

The latest turn of a Messages request, told on the wire for the walk and on the parsed request for
the guardrails that check. Both are the same turn of the conversation (`latestTurn_agrees`).
-/

namespace Aisix
namespace Redact
namespace Messages

open Json Anthropic LastTurn

/-- What a guardrail that judges the latest turn reads. -/
def latestTurnView (req : ChatFormat) : ChatFormat :=
  let answered := (rposition (fun m => !m.role.isInstruction) req.messages).getD 0
  let start :=
    ((rposition (fun m => m.role == .assistant) (req.messages.take answered)).map (· + 1)).getD 0
  { req with messages := (req.messages.drop start).filter fun m => !m.role.isInstruction }

/-! ### The request as it is inspected -/

/-- The parts of a block that the adapter does not read. -/
def additionalOfBlock (fields : List (String × Value)) : Option Value :=
  let objectType := strField (.object fields) "type"
  if objectType = some "text" then fields.lookup "citations"
  else if objectType = some "tool_use" then fields.lookup "caller"
  else if objectType = some "image" then none
  else if objectType = some "tool_result" then
    let additional := (arrayField (.object fields) "content").filter fun item =>
      strField item "type" != some "text" && strField item "type" != some "image"
    if additional.isEmpty then none else some (.array additional)
  else some (.object fields)

mutual

def anthropicAdditionalContentForInspection : Value → Option Value
  | .array items =>
    let additional := additionalItems items
    if additional.isEmpty then none else some (.array additional)
  | .object fields => additionalOfBlock fields
  | .string _ => none
  | .null => none
  | .bool _ => none
  | .number _ => none

def additionalItems : List Value → List Value
  | [] => []
  | v :: vs => (anthropicAdditionalContentForInspection v).toList ++ additionalItems vs

end

section Inspection

variable (F : FloatText) (asF64 : Number → UInt64)

/-- The texts of a content that a remote pass would read, one a line. -/
def anthropicContentInspectionText (content : Value) : String :=
  joinWith "\n"
    ((((redactAnthropicValue F .input .protocol content).filter
      fun s => reachesRemotePass s.role).map (·.text)).filter (· ≠ ""))

def INSPECTED_FIELDS : List String :=
  ["tools", "tool_choice", "output_config", "output_format", "metadata"]

/-- What is shown ahead of the conversation. -/
def preamble (body : Value) : List ChatMessage :=
  let texts := (contents body).filterMap fun content =>
    ((anthropicAdditionalContentForInspection content).map
      (anthropicContentInspectionText F)).filter (· ≠ "")
  let fields := INSPECTED_FIELDS.filterMap fun field =>
    ((body.get field).map fun v => String.ofList (text F v)).filter fun t => t ≠ "null" ∧ t ≠ "[]"
  (texts ++ fields).map (ChatMessage.ofText .user)

/-- `anthropic_request_for_inspection`; `none` where the request is refused. -/
def anthropicRequestForInspection (body : Value) : Option ChatFormat :=
  match parseInboundRequestForScan F asF64 body with
  | .ok chat => some { chat with messages := preamble F body ++ chat.messages }
  | .error _ => none

end Inspection

/-! ### Windows by index -/

section Index

variable {α : Type} {p : α → Bool}

theorem rposition_of_all {l : List α} (h : ∀ a ∈ l, p a = false) : rposition p l = none := by
  unfold rposition
  rw [List.findIdx?_eq_none_iff.mpr fun a ha => h a (List.mem_reverse.mp ha)]
  rfl

theorem rposition_of_last {before after : List α} {z : α} (hz : p z = true)
    (hafter : ∀ a ∈ after, p a = false) :
    rposition p (before ++ z :: after) = some before.length := by
  unfold rposition
  have hreverse : (before ++ z :: after).reverse = after.reverse ++ z :: before.reverse := by simp
  have hfound : ((before ++ z :: after).reverse.findIdx? p) = some after.length := by
    rw [hreverse, List.findIdx?_append, List.findIdx?_eq_none_iff.mpr fun a ha => hafter a
      (List.mem_reverse.mp ha), List.findIdx?_cons, if_pos hz, List.length_reverse]
    simp
  rw [hfound, Option.map_some, List.length_append, List.length_cons]
  congr 1
  omega

/-- One past the last entry that closes a turn, before the last spoken one. -/
def windowStart (closes silent : α → Bool) (l : List α) : Nat :=
  let answered := (rposition (fun a => !silent a) l).getD 0
  ((rposition closes (l.take answered)).map (· + 1)).getD 0

theorem drop_windowStart (closes silent : α → Bool) (l : List α) :
    ((l.drop (windowStart closes silent l)).filter fun a => !silent a) =
    lastTurn closes silent l := by
  rcases silent_or_spoken silent l with hsilent | hspoken
  · rw [lastTurn_of_silent hsilent, List.filter_eq_nil_iff]
    intro a ha
    rw [hsilent a (List.mem_of_mem_drop ha)]
    decide
  · obtain ⟨before, within, z, after, hsplit⟩ := exists_split closes hspoken
    have hanswered : (rposition (fun a => !silent a) l).getD 0 = (before ++ within).length := by
      rw [hsplit.eq, ← List.append_assoc,
        rposition_of_last (by rw [hsplit.spoken]; rfl) fun a ha => by
        rw [hsplit.trailing a ha]; rfl]
      rfl
    have htake : l.take (before ++ within).length = before ++ within := by
      rw [hsplit.eq, ← List.append_assoc]
      exact List.take_left
    have hstart : windowStart closes silent l = before.length := by
      unfold windowStart
      dsimp only
      rw [hanswered, htake]
      cases hlast : before.getLast? with
      | none =>
        obtain rfl := List.getLast?_eq_none_iff.mp hlast
        rw [List.nil_append, rposition_of_all hsplit.pending]
        rfl
      | some b =>
        have hclosed := hsplit.closed b hlast
        obtain ⟨before, rfl⟩ := List.getLast?_eq_some_iff.mp hlast
        rw [List.append_assoc, List.singleton_append, rposition_of_last hclosed hsplit.pending,
          List.length_append]
        rfl
    have hfilter : (after.filter fun a => !silent a) = [] :=
      List.filter_eq_nil_iff.mpr fun a ha => by
      rw [hsplit.trailing a ha]; decide
    rw [hstart, hsplit.lastTurn_eq, hsplit.eq, List.drop_left, List.append_cons,
      List.filter_append, hfilter, List.append_nil]

end Index

/-! ### The same turn on both sides -/

/-- An assistant's entry closes a turn. -/
def isAnswer (m : Value) : Bool := strField m "role" == some "assistant"

def isSystem (m : Value) : Bool := strField m "role" == some "system"

/-- The entries whose content is walked as part of the latest turn. -/
def entriesInWindow (body : Value) : List Value :=
  ((messageDirections (arrayField body "messages")).filter fun e => e.2 == .input).map (·.1)

theorem filter_zipIdx {α : Type} (p : α → Bool) (n : Nat) : ∀ (l : List α) (k : Nat),
    ((l.zipIdx k).filter fun e => decide (n ≤ e.2) && p e.1).map (·.1) = (l.drop (n - k)).filter p
  | [], k => by simp
  | a :: l, k => by
    rw [List.zipIdx_cons, List.filter_cons]
    have hrest := filter_zipIdx p n l (k + 1)
    by_cases hn : n ≤ k
    · rw [Nat.sub_eq_zero_of_le (Nat.le_succ_of_le hn), List.drop_zero] at hrest
      rw [Nat.sub_eq_zero_of_le hn, List.drop_zero, List.filter_cons]
      rw [decide_eq_true hn, Bool.true_and]
      split
      · rw [List.map_cons, hrest]
      · exact hrest
    · obtain ⟨d, hd⟩ : ∃ d, n - k = d + 1 := ⟨n - k - 1, by omega⟩
      have hd' : n - (k + 1) = d := by omega
      rw [hd'] at hrest
      rw [hd, List.drop_succ_cons, decide_eq_false hn, Bool.false_and, if_neg (by decide)]
      exact hrest

theorem entriesInWindow_eq (body : Value) :
    entriesInWindow body = lastTurn isAnswer isSystem (arrayField body "messages") := by
  have hdirection : ∀ b : Bool, (inputWindow b == Direction.input) = b := by decide
  unfold entriesInWindow messageDirections
  rw [List.filter_map, List.map_map]
  have hfilter := filter_zipIdx (fun m => strField m "role" != some "system")
    (anthropicLatestTurnStart (arrayField body "messages")) (arrayField body "messages") 0
  rw [← drop_windowStart]
  refine Eq.trans ?_ hfilter
  refine congrArg₂ List.map rfl (List.filter_congr fun e _ => hdirection _)

section View

variable (F : FloatText) (asF64 : Number → UInt64)

theorem latestTurnView_messages (req : ChatFormat) :
    (latestTurnView req).messages = lastTurn (fun m => m.role == .assistant)
    (fun m => m.role.isInstruction) req.messages :=
  drop_windowStart (fun m : ChatMessage => m.role == .assistant)
    (fun m : ChatMessage => m.role.isInstruction) req.messages

/-- The messages of an entry close a turn, or are instructions, as the entry does and is. -/
theorem expands_messagesOf {entries : List Value} (h : ∀ m ∈ entries, Accepted F .scan .drop m) :
    Expands isAnswer isSystem (fun m : ChatMessage => m.role == .assistant)
      (fun m : ChatMessage => m.role.isInstruction)
      (messagesOf F .scan .drop) entries := by
  have hrole : ∀ m ∈ entries,
      (strField m "role" = some "user" ∧ messagesOf F .scan .drop m ≠ [] ∧
        ∀ msg ∈ messagesOf F .scan .drop m, msg.role = .user ∨ msg.role = .tool) ∨
      (strField m "role" = some "assistant" ∧ ∃ msg, messagesOf F .scan .drop m = [msg] ∧
        msg.role = .assistant) ∨
      (strField m "role" = some "system" ∧
        ∀ msg ∈ messagesOf F .scan .drop m, msg.role = .system) := by
    intro m hm
    have hreads := (h m hm).reads
    generalize messagesOf F .scan .drop m = out at hreads ⊢
    cases hreads with
    | userText s hrole hs =>
      exact .inl ⟨hrole, nofun, fun msg hmsg => by rw [List.mem_singleton.mp hmsg]; exact .inl rfl⟩
    | userBlocks blocks hrole hblocks =>
      obtain ⟨said, heq, hsaid, -, hnil⟩ := translateUserBlocks_eq .drop blocks
      rw [heq]
      refine .inl ⟨hrole, fun hempty => ?_, fun msg hmsg => ?_⟩
      · exact hnil (List.append_eq_nil_iff.mp hempty).1 (List.append_eq_nil_iff.mp hempty).2
      · exact (List.mem_append.mp hmsg).elim (fun hmsg => .inr (role_toolResults .drop hmsg))
          fun hmsg => .inl (hsaid msg hmsg).1
    | assistantText s hrole hs => exact .inr (.inl ⟨hrole, _, rfl, rfl⟩)
    | assistantBlocks blocks hrole hblocks =>
      exact .inr (.inl ⟨hrole, _, rfl, (translateAssistantBlocks_eq F .scan blocks).1⟩)
    | systemText s hrole hs =>
      exact .inr (.inr ⟨hrole, fun msg hmsg => by rw [List.mem_singleton.mp hmsg]; rfl⟩)
    | systemBlocks blocks hrole hblocks =>
      exact .inr (.inr ⟨hrole, fun msg hmsg => by rw [List.mem_singleton.mp hmsg]; rfl⟩)
  refine ⟨fun m hm hsystem msg hmsg => ?_, fun m hm hspoken msg hmsg => ?_, fun m hm hspoken => ?_,
    fun m hm hanswer => ?_, fun m hm hopen msg hmsg => ?_⟩
  · have hsystem : strField m "role" = some "system" := eq_of_beq hsystem
    rcases hrole m hm with ⟨hother, -⟩ | ⟨hother, -⟩ | ⟨-, hroles⟩
    · rw [hsystem] at hother; exact absurd hother (by decide)
    · rw [hsystem] at hother; exact absurd hother (by decide)
    · rw [hroles msg hmsg]; rfl
  · rcases hrole m hm with ⟨-, -, hroles⟩ | ⟨-, msg', heq, hassistant⟩ | ⟨hsystem, -⟩
    · rcases hroles msg hmsg with heq | heq <;> rw [heq] <;> rfl
    · rw [heq] at hmsg
      rw [List.mem_singleton.mp hmsg, hassistant]
      rfl
    · rw [isSystem, hsystem] at hspoken
      cases hspoken
  · rcases hrole m hm with ⟨-, hne, -⟩ | ⟨-, msg', heq, -⟩ | ⟨hsystem, -⟩
    · exact hne
    · rw [heq]
      nofun
    · rw [isSystem, hsystem] at hspoken
      cases hspoken
  · have hanswer : strField m "role" = some "assistant" := eq_of_beq hanswer
    rcases hrole m hm with ⟨hother, -⟩ | ⟨-, msg, heq, hassistant⟩ | ⟨hother, -⟩
    · rw [hanswer] at hother; exact absurd hother (by decide)
    · exact ⟨msg, heq, by rw [hassistant]; rfl⟩
    · rw [hanswer] at hother; exact absurd hother (by decide)
  · rcases hrole m hm with ⟨-, -, hroles⟩ | ⟨hanswer, -⟩ | ⟨-, hroles⟩
    · rcases hroles msg hmsg with heq | heq <;> rw [heq] <;> rfl
    · rw [isAnswer, hanswer] at hopen
      cases hopen
    · rw [hroles msg hmsg]; rfl

/-- What the request parses to: the messages of its system prompt, and of its entries. -/
theorem parseInboundRequestForScan_ok {body : Value} {chat : ChatFormat}
    (h : parseInboundRequestForScan F asF64 body = .ok chat) :
    ∃ system, (∀ m ∈ system, m.role = .system) ∧
      chat.messages = system ++ (arrayField body "messages").flatMap (messagesOf F .scan .drop) ∧
      ∀ m ∈ arrayField body "messages", Accepted F .scan .drop m := by
  unfold parseInboundRequestForScan parseInbound at h
  cases body with
  | object fields =>
    dsimp only at h
    split at h
    · cases h
    · split at h
      · next rawMessages hmessages =>
        have harray : arrayField (.object fields) "messages" = rawMessages := by
          rw [arrayField, hmessages]
        rw [harray]
        cases hsystem : systemMessages .drop ((Value.object fields).get "system") with
        | error e => rw [hsystem] at h; cases h
        | ok system =>
          cases hentries : entriesMessages F .scan .drop 0 rawMessages with
          | error e => rw [hsystem, hentries] at h; cases h
          | ok messages =>
            rw [hsystem, hentries] at h
            obtain rfl := Except.ok.inj h
            obtain ⟨rfl, haccepted⟩ := entriesMessages_ok F .scan .drop hentries
            exact ⟨system, systemMessages_role .drop hsystem, rfl, haccepted⟩
      · cases h
  | _ => cases h

theorem accepted_of_inspection {body : Value} {chat : ChatFormat}
    (h : anthropicRequestForInspection F asF64 body = some chat) :
    ∀ m ∈ arrayField body "messages", Accepted F .scan .drop m := by
  unfold anthropicRequestForInspection at h
  split at h
  · next parsed hparsed =>
    obtain ⟨_, -, -, haccepted⟩ := parseInboundRequestForScan_ok F asF64 hparsed
    exact haccepted
  · cases h

/-- The whole of the view: what is shown ahead as long as nothing has been answered, and the
messages of the latest turn. -/
theorem view_messages {body : Value} {chat : ChatFormat}
    (h : anthropicRequestForInspection F asF64 body = some chat) :
    (latestTurnView chat).messages =
      (if answered isAnswer isSystem (arrayField body "messages") then [] else preamble F body) ++
        (entriesInWindow body).flatMap (messagesOf F .scan .drop) := by
  unfold anthropicRequestForInspection at h
  split at h
  · next parsed hparsed =>
    obtain rfl := Option.some.inj h
    obtain ⟨system, hsystem, hmessages, haccepted⟩ := parseInboundRequestForScan_ok F asF64 hparsed
    have hexpands := expands_messagesOf F haccepted
    have huser : ∀ m ∈ preamble F body, m.role = .user := fun m hm => by
      obtain ⟨t, -, rfl⟩ := List.mem_map.mp hm
      rfl
    obtain ⟨hturn, hanswered⟩ :=
      @lastTurn_append_silent _ (fun m : ChatMessage => m.role == .assistant)
      (fun m => m.role.isInstruction) _ (fun m hm => by rw [hsystem m hm]; rfl)
      (fun m hm => by rw [hsystem m hm]; rfl)
        ((arrayField body "messages").flatMap (messagesOf F .scan .drop))
    rw [latestTurnView_messages]
    dsimp only
    rw [hmessages, lastTurn_append (fun m hm => by rw [huser m hm]; rfl)
      (fun m hm => by rw [huser m hm]; rfl), hturn, hanswered, lastTurn_flatMap hexpands,
      answered_flatMap hexpands, entriesInWindow_eq]
  · cases h

end View

/-! ### The texts of an entry -/

/-- The texts of a document's own source. -/
def documentTexts (block : Value) : List String :=
  if strField block "type" = some "document" then
    ((block.get "source").map fun source =>
      if strField source "type" = some "text" then (strField source "data").toList
      else if strField source "type" = some "content" then
        match source.get "content" with
        | some (.string t) => [t]
        | some (.array blocks) =>
          (blocks.filter fun b => !isThinking (strField b "type")).filterMap fun b =>
            strField b "text"
        | _ => []
      else []).getD []
  else []

/-- The texts of a tool result. -/
def resultTexts (block : Value) : List String :=
  match block.get "content" with
  | some (.string t) => [t]
  | some (.array items) =>
    (items.filter fun item => strField item "type" = some "text").filterMap fun item =>
      strField item "text"
  | _ => []

/-- The texts and keys of a tool call's input, and its name. -/
def useTexts (block : Value) : List String :=
  match strField block "id", strField block "name" with
  | some _, some name =>
    name :: ((block.get "input").map fun input => allTexts input ++ allKeys input).getD []
  | _, _ => []

/-- The texts of a block that the adapter reads where they stand. -/
def blockTexts (answer : Bool) (block : Value) : List String :=
  if strField block "type" = some "text" then (strField block "text").toList
  else if answer then if strField block "type" = some "tool_use" then useTexts block else []
  else if strField block "type" = some "tool_result" then resultTexts block
  else documentTexts block

/-- The texts of an entry that the adapter reads where they stand. -/
def readTexts (m : Value) : List String :=
  match m.get "content" with
  | some (.string t) => [t]
  | some (.array blocks) => blocks.flatMap (blockTexts (isAnswer m))
  | _ => []

section Said

variable (F : FloatText)

/-- A message holds the text: in what it says, or in a call. -/
def Says (m : ChatMessage) (t : String) : Prop :=
  t.toList <:+: m.contentStr.toList ∨
    ∃ call ∈ messageCalls m, callName call = t ∨
      ∃ input, callArguments call = String.ofList (text F input) ∧
        t ∈ allTexts input ++ allKeys input

theorem infix_join {t : String} {ts : List String} (h : t ∈ ts) :
    t.toList <:+: (String.join ts).toList := by
  induction ts with
  | nil => cases h
  | cons t' ts ih =>
    rw [String.join_cons, String.toList_append]
    rcases List.mem_cons.mp h with rfl | h
    · exact (List.prefix_append _ _).isInfix
    · exact (ih h).trans (List.suffix_append _ _).isInfix

theorem userText_of_documentTexts {block : Value} {t : String} (h : t ∈ documentTexts block) :
    strField block "type" = some "document" ∧ ∃ whole, documentSourceText block = some whole ∧
      t.toList <:+: whole.toList := by
  unfold documentTexts at h
  unfold documentSourceText
  split at h
  · next htype =>
    refine ⟨htype, ?_⟩
    rw [if_pos htype]
    cases hsource : block.get "source" with
    | none => rw [hsource] at h; cases h
    | some source =>
      rw [hsource, Option.map_some, Option.getD_some] at h
      rw [Option.bind_some]
      split at h
      · next hkind =>
        rw [if_pos hkind]
        exact ⟨t, Option.mem_toList.mp h, List.infix_rfl⟩
      · next hkind =>
        rw [if_neg hkind]
        split at h
        · next hkind' =>
          rw [if_pos hkind']
          cases hcontent : source.get "content" with
          | none => rw [hcontent] at h; cases h
          | some content =>
            rw [hcontent] at h
            cases content with
            | string t' =>
              rw [List.mem_singleton.mp h]
              exact ⟨t', rfl, List.infix_rfl⟩
            | array blocks =>
              obtain ⟨b, hb, hbt⟩ := List.mem_filterMap.mp h
              exact ⟨_, rfl,
                infix_join (List.mem_filterMap.mpr ⟨b, List.mem_of_mem_filter hb, hbt⟩)⟩
            | _ => cases h
        · cases h
  · cases h

theorem infix_toolResultText {block : Value} {t : String} (h : t ∈ resultTexts block) :
    t.toList <:+: (toolResultText block).toList := by
  unfold resultTexts at h
  unfold toolResultText
  cases hcontent : block.get "content" with
  | none => rw [hcontent] at h; cases h
  | some content =>
    rw [hcontent] at h
    cases content with
    | string t' => rw [List.mem_singleton.mp h]
    | array items => exact infix_join h
    | _ => cases h

theorem call_of_useTexts {block : Value} {t : String} (h : t ∈ useTexts block) :
    ∃ call, toolCallFromToolUse .drop F block = some call ∧
      (callName call = t ∨ ∃ input, callArguments call = String.ofList (text F input) ∧
      t ∈ allTexts input ++ allKeys input) := by
  unfold useTexts at h
  unfold toolCallFromToolUse
  split at h
  · next id name hid hname =>
    rw [hid, hname, Option.bind_some, Option.map_some]
    refine ⟨_, rfl, ?_⟩
    rcases List.mem_cons.mp h with rfl | h
    · exact .inl rfl
    · cases hinput : block.get "input" with
      | none => rw [hinput] at h; cases h
      | some input =>
        rw [hinput] at h
        exact .inr ⟨input, rfl, h⟩
  · cases h

theorem said_of_readTexts {m : Value} (h : Accepted F .scan .drop m) (hspoken : isSystem m = false)
    {t : String} (ht : t ∈ readTexts m) : ∃ msg ∈ messagesOf F .scan .drop m, Says F msg t := by
  have hreads := h.reads
  generalize messagesOf F .scan .drop m = out at hreads ⊢
  unfold readTexts at ht
  cases hreads with
  | userText s hrole hs =>
    rw [hs] at ht
    exact ⟨_, List.mem_singleton_self _,
      .inl (by rw [List.mem_singleton.mp ht]; exact List.infix_rfl)⟩
  | assistantText s hrole hs =>
    rw [hs] at ht
    exact ⟨_, List.mem_singleton_self _,
      .inl (by rw [List.mem_singleton.mp ht]; exact List.infix_rfl)⟩
  | userBlocks blocks hrole hblocks =>
    have hanswer : isAnswer m = false := by rw [isAnswer, hrole]; decide
    rw [hblocks, hanswer] at ht
    dsimp only at ht
    obtain ⟨b, hb, ht⟩ := List.mem_flatMap.mp ht
    obtain ⟨said, heq, hsaid, hsome, -⟩ := translateUserBlocks_eq .drop blocks
    rw [heq]
    have hspeaks : ∀ whole, userText b = some whole → t.toList <:+: whole.toList →
        ∃ msg ∈ blocks.flatMap (toolResults .drop) ++ said, Says F msg t := by
      intro whole hwhole hin
      obtain ⟨msg, hmsg⟩ := List.exists_mem_of_ne_nil said (hsome ⟨b, hb, by rw [hwhole]; rfl⟩)
      refine ⟨msg, List.mem_append_right _ hmsg, .inl ?_⟩
      rw [(hsaid msg hmsg).2]
      exact hin.trans (infix_join (List.mem_filterMap.mpr ⟨b, hb, hwhole⟩))
    unfold blockTexts at ht
    rw [if_neg (c := false = true) (by decide)] at ht
    split at ht
    · next htype =>
      refine hspeaks t ?_ List.infix_rfl
      unfold userText
      rw [if_pos htype]
      exact Option.mem_toList.mp ht
    · next htype =>
      split at ht
      · next hresult =>
        refine ⟨toolMessageFromToolResult .drop b,
          List.mem_append_left _ (List.mem_flatMap.mpr ⟨b, hb, ?_⟩), .inl (infix_toolResultText ht)⟩
        rw [toolResults, if_pos hresult]
        exact List.mem_singleton_self _
      · obtain ⟨-, whole, hwhole, hin⟩ := userText_of_documentTexts ht
        refine hspeaks whole ?_ hin
        unfold userText
        rw [if_neg htype]
        exact hwhole
  | assistantBlocks blocks hrole hblocks =>
    have hanswer : isAnswer m = true := by rw [isAnswer, hrole]; decide
    rw [hblocks, hanswer] at ht
    dsimp only at ht
    obtain ⟨b, hb, ht⟩ := List.mem_flatMap.mp ht
    obtain ⟨-, hcontent, hcalls⟩ := translateAssistantBlocks_eq F .scan blocks
    refine ⟨_, List.mem_singleton_self _, ?_⟩
    unfold blockTexts at ht
    rw [if_pos (c := true = true) rfl] at ht
    split at ht
    · next htype =>
      refine .inl ?_
      rw [hcontent]
      refine infix_join (List.mem_filterMap.mpr ⟨b, hb, ?_⟩)
      unfold assistantText
      rw [if_pos htype]
      exact Option.mem_toList.mp ht
    · split at ht
      · next huse =>
        obtain ⟨call, hcall, hholds⟩ := call_of_useTexts F ht
        refine .inr ⟨call, ?_, hholds⟩
        rw [hcalls]
        refine List.mem_flatMap.mpr ⟨b, hb, ?_⟩
        rw [assistantCalls, if_pos huse, hcall]
        exact List.mem_singleton_self _
      · cases ht
  | systemText s hrole hs => rw [isSystem, hrole] at hspoken; cases hspoken
  | systemBlocks blocks hrole hblocks => rw [isSystem, hrole] at hspoken; cases hspoken

end Said

/-! ### The slots of an entry -/

section Slots

variable (F : FloatText) (dir : Direction)

/-- The slots of one member. -/
def memberSlots (context : AnthropicKeyContext) (objectType : Option String) (e : String × Value) :
    List ScanSegment :=
  redactAnthropicFields F dir context objectType [e]

theorem mem_redactAnthropicFields {context : AnthropicKeyContext} {objectType : Option String}
    {s : ScanSegment} {fields : List (String × Value)} :
    s ∈ redactAnthropicFields F dir context objectType fields ↔
      ∃ e ∈ fields, s ∈ memberSlots F dir context objectType e := by
  induction fields with
  | nil => simp [redactAnthropicFields]
  | cons e fields ih =>
    obtain ⟨field, child⟩ := e
    have hone : memberSlots F dir context objectType (field, child) ++
        redactAnthropicFields F dir context objectType fields =
          redactAnthropicFields F dir context objectType ((field, child) :: fields) := by
      rw [memberSlots, redactAnthropicFields, redactAnthropicFields, redactAnthropicFields,
        List.append_nil]
    rw [← hone, List.mem_append, ih, List.exists_mem_cons_iff]

theorem mem_redactAnthropicItems {context : AnthropicKeyContext} {s : ScanSegment}
    {items : List Value} :
    s ∈ redactAnthropicItems F dir context items ↔
      ∃ v ∈ items, s ∈ redactAnthropicValue F dir context v := by
  induction items with
  | nil => simp [redactAnthropicItems]
  | cons v items ih => rw [redactAnthropicItems, List.mem_append, ih, List.exists_mem_cons_iff]

theorem mem_redactAnthropicValue_object {fields : List (String × Value)} {s : ScanSegment}
    (h : isThinking (strField (.object fields) "type") = false) :
    s ∈ redactAnthropicValue F dir .protocol (.object fields) ↔
      ∃ e ∈ fields, s ∈ memberSlots F dir .protocol (strField (.object fields) "type") e := by
  rw [redactAnthropicValue, if_neg fun hboth => absurd (h.symm.trans hboth.2) (by decide),
    mem_redactAnthropicFields]

theorem memberSlots_walked {objectType : Option String} {key : String} {child : Value}
    {c : AnthropicKeyContext} (hkey : isSkipped .protocol objectType key = false)
    (hown : offersKey .protocol key = false)
    (hreading : reading .protocol objectType key child = .walked c) :
    memberSlots F dir .protocol objectType (key, child) = redactAnthropicValue F dir c child := by
  rw [memberSlots, redactAnthropicFields, hkey, hown, hreading, redactAnthropicFields,
    if_neg (by decide), if_neg (by decide), List.nil_append, List.append_nil]

theorem redactAnthropicValue_string (context : AnthropicKeyContext) {t : String} (h : t ≠ "") :
    redactAnthropicValue F dir context (.string t) = [offered dir t] := by
  rw [redactAnthropicValue, if_neg h]

mutual

theorem offered_userDefined : ∀ v : Value, ∀ t ∈ allTexts v ++ allKeys v, t ≠ "" →
    offered dir t ∈ redactAnthropicValue F dir .userDefined v
  | .string s, t, ht, hne => by
    rw [allTexts, allKeys, List.append_nil] at ht
    obtain rfl := List.mem_singleton.mp ht
    rw [redactAnthropicValue_string F dir .userDefined hne]
    exact List.mem_singleton_self _
  | .array items, t, ht, hne => by
    rw [allTexts, allKeys] at ht
    rw [redactAnthropicValue]
    exact offered_userDefined_items items t ht hne
  | .object fields, t, ht, hne => by
    rw [allTexts, allKeys] at ht
    rw [redactAnthropicValue, if_neg fun h => by cases h.1]
    exact offered_userDefined_fields _ fields t ht hne
  | .null, t, ht, _ => by cases ht
  | .bool _, t, ht, _ => by cases ht
  | .number _, t, ht, _ => by cases ht

theorem offered_userDefined_items : ∀ items : List Value,
    ∀ t ∈ itemTexts items ++ itemKeys items, t ≠ "" →
    offered dir t ∈ redactAnthropicItems F dir .userDefined items
  | [], t, ht, _ => by cases ht
  | v :: vs, t, ht, hne => by
    rw [itemTexts, itemKeys] at ht
    rw [redactAnthropicItems]
    have hcases : t ∈ allTexts v ++ allKeys v ∨ t ∈ itemTexts vs ++ itemKeys vs := by
      simp only [List.mem_append] at ht ⊢
      tauto
    rcases hcases with ht | ht
    · exact List.mem_append_left _ (offered_userDefined v t ht hne)
    · exact List.mem_append_right _ (offered_userDefined_items vs t ht hne)

theorem offered_userDefined_fields (objectType : Option String) : ∀ fields : List (String × Value),
    ∀ t ∈ fieldTexts fields ++ fieldKeys fields, t ≠ "" →
      offered dir t ∈ redactAnthropicFields F dir .userDefined objectType fields
  | [], t, ht, _ => by cases ht
  | (field, child) :: rest, t, ht, hne => by
    rw [fieldTexts, fieldKeys] at ht
    have hskipped : isSkipped .userDefined objectType field = false := rfl
    have hown : offersKey .userDefined field = true := rfl
    have hreading : reading .userDefined objectType field child = .walked .userDefined := by
      unfold reading
      rw [if_neg (by simp), if_neg (by simp)]
    rw [redactAnthropicFields, hskipped, hown, hreading, if_neg (by decide), if_pos rfl]
    have hcases : t = field ∨ t ∈ allTexts child ++ allKeys child ∨
        t ∈ fieldTexts rest ++ fieldKeys rest := by
      simp only [List.mem_append, List.mem_cons] at ht ⊢
      tauto
    rcases hcases with rfl | ht | ht
    · exact List.mem_append_left _ (List.mem_append_left _ (List.mem_singleton_self _))
    · exact List.mem_append_left _ (List.mem_append_right _ (offered_userDefined child t ht hne))
    · exact List.mem_append_right _ (offered_userDefined_fields objectType rest t ht hne)

end

theorem inLatestTurn_unrewritable (text : String) (role : SegmentRole) :
    ∀ s ∈ offerUnrewritable dir text role, s.inLatestTurn = (dir != .inputHistory) := by
  intro s hs
  unfold offerUnrewritable at hs
  split at hs
  · cases hs
  · rw [List.mem_singleton.mp hs]

theorem mem_of_get {v w : Value} {key : String} (h : v.get key = some w) :
    ∃ fields, v = .object fields ∧ (key, w) ∈ fields := by
  cases v with
  | object fields =>
    obtain ⟨before, after, rfl, -⟩ := List.lookup_eq_some_iff.mp h
    exact ⟨_, rfl, List.mem_append_right _ List.mem_cons_self⟩
  | _ => cases h

theorem get_of_strField {v : Value} {key t : String} (h : strField v key = some t) :
    v.get key = some (.string t) := by
  obtain ⟨w, hw, ht⟩ := Option.bind_eq_some_iff.mp h
  cases w with
  | string s => rw [hw, Option.some.inj ht]
  | _ => cases ht

theorem mem_of_member {v child : Value} {key : String} {c : AnthropicKeyContext} {s : ScanSegment}
    (hget : v.get key = some child) (hsigned : isThinking (strField v "type") = false)
    (hkey : isSkipped .protocol (strField v "type") key = false)
    (hown : offersKey .protocol key = false)
    (hreading : reading .protocol (strField v "type") key child = .walked c)
    (hs : s ∈ redactAnthropicValue F dir c child) : s ∈ redactAnthropicValue F dir .protocol v := by
  obtain ⟨fields, rfl, hmem⟩ := mem_of_get hget
  refine (mem_redactAnthropicValue_object F dir hsigned).mpr ⟨(key, child), hmem, ?_⟩
  rw [memberSlots_walked F dir hkey hown hreading]
  exact hs

theorem offered_text {block : Value} {t : String}
    (hsigned : isThinking (strField block "type") = false)
    (ht : strField block "text" = some t) (hne : t ≠ "") :
    offered dir t ∈ redactAnthropicValue F dir .protocol block := by
  have hkey : isSkipped .protocol (strField block "type") "text" = false := by
    cases strField block "type" <;> rfl
  refine mem_of_member F dir (get_of_strField ht) hsigned hkey rfl (c := .protocol) rfl ?_
  rw [redactAnthropicValue_string F dir .protocol hne]
  exact List.mem_singleton_self _

theorem offered_content {block : Value} {blocks : List Value} {t : String}
    (hget : block.get "content" = some (.array blocks))
    (hsigned : isThinking (strField block "type") = false)
    (h : ∃ b ∈ blocks, isThinking (strField b "type") = false ∧ strField b "text" = some t)
    (hne : t ≠ "") :
    offered dir t ∈ redactAnthropicValue F dir .protocol block := by
  obtain ⟨b, hb, hb', ht⟩ := h
  have hkey : isSkipped .protocol (strField block "type") "content" = false := by
    cases strField block "type" <;> rfl
  have hreading : reading .protocol (strField block "type") "content" (.array blocks) =
      .walked .protocol := by
    cases strField block "type" with
    | none => rfl
    | some ty =>
      unfold reading
      simp only [Value.asObject?, Option.isSome_none, Bool.false_eq_true, and_false, if_false]
      rfl
  refine mem_of_member F dir hget hsigned hkey rfl hreading ?_
  rw [redactAnthropicValue]
  exact (mem_redactAnthropicItems F dir).mpr ⟨b, hb, offered_text F dir hb' ht hne⟩

theorem offered_contentText {block : Value} {t : String}
    (hget : block.get "content" = some (.string t))
    (hsigned : isThinking (strField block "type") = false) (hne : t ≠ "") :
    offered dir t ∈ redactAnthropicValue F dir .protocol block := by
  have hkey : isSkipped .protocol (strField block "type") "content" = false := by
    cases strField block "type" <;> rfl
  have hreading : reading .protocol (strField block "type") "content" (.string t) =
      .walked .protocol := by
    cases strField block "type" with
    | none => rfl
    | some ty =>
      unfold reading
      simp only [Value.asObject?, Option.isSome_none, Bool.false_eq_true, and_false, if_false]
      rfl
  refine mem_of_member F dir hget hsigned hkey rfl hreading ?_
  rw [redactAnthropicValue_string F dir .protocol hne]
  exact List.mem_singleton_self _

theorem offered_documentTexts {block : Value} {t : String} (h : t ∈ documentTexts block)
    (hne : t ≠ "") : offered dir t ∈ redactAnthropicValue F dir .protocol block := by
  unfold documentTexts at h
  split at h
  · next htype =>
    have hsigned : isThinking (strField block "type") = false := by rw [htype]; rfl
    cases hsource : block.get "source" with
    | none => rw [hsource] at h; cases h
    | some source =>
      rw [hsource, Option.map_some, Option.getD_some] at h
      have hin : offered dir t ∈ redactAnthropicValue F dir .protocol source := by
        split at h
        · next hkind =>
          have hdata := get_of_strField (Option.mem_toList.mp h)
          refine mem_of_member F dir hdata (by rw [hkind]; rfl)
            (by rw [hkind]; rfl) rfl (c := .protocol) rfl ?_
          rw [redactAnthropicValue_string F dir .protocol hne]
          exact List.mem_singleton_self _
        · split at h
          · next hkind =>
            have hkind' : isThinking (strField source "type") = false := by rw [hkind]; rfl
            split at h
            · next t' ht' =>
              obtain rfl := List.mem_singleton.mp h
              exact offered_contentText F dir ht' hkind' hne
            · next blocks hblocks =>
              obtain ⟨b, hb, hbt⟩ := List.mem_filterMap.mp h
              obtain ⟨hb, hunsigned⟩ := List.mem_filter.mp hb
              exact offered_content F dir hblocks hkind' ⟨b, hb, by simpa using hunsigned, hbt⟩ hne
            · cases h
          · cases h
      cases source with
      | object fields =>
        have hreading : reading .protocol (strField block "type") "source" (.object fields) =
            .walked .protocol := by
          rw [htype]; rfl
        exact mem_of_member F dir hsource hsigned (by rw [htype]; rfl) rfl hreading hin
      | _ => cases h
  · cases h

theorem offered_useTexts {block : Value} {t : String}
    (htype : strField block "type" = some "tool_use")
    (h : t ∈ useTexts block) (hne : t ≠ "") :
    offered dir t ∈ redactAnthropicValue F dir .protocol block := by
  have hsigned : isThinking (strField block "type") = false := by rw [htype]; rfl
  unfold useTexts at h
  split at h
  · next id name hid hname =>
    rcases List.mem_cons.mp h with rfl | h
    · obtain ⟨fields, rfl, hmem⟩ := mem_of_get (get_of_strField hname)
      refine (mem_redactAnthropicValue_object F dir hsigned).mpr ⟨_, hmem, ?_⟩
      rw [htype]
      exact List.mem_singleton_self _
    · cases hinput : block.get "input" with
      | none => rw [hinput] at h; cases h
      | some input =>
        rw [hinput] at h
        have hreading :
            reading .protocol (strField block "type") "input" input = .walked .userDefined := by
          rw [htype]; rfl
        exact mem_of_member F dir hinput hsigned (by rw [htype]; rfl) rfl hreading
          (offered_userDefined F dir input t h hne)
  · cases h

theorem offered_resultTexts {block : Value} {t : String}
    (htype : strField block "type" = some "tool_result")
    (h : t ∈ resultTexts block) (hne : t ≠ "") :
    offered dir t ∈ redactAnthropicValue F dir .protocol block := by
  have hsigned : isThinking (strField block "type") = false := by rw [htype]; rfl
  unfold resultTexts at h
  split at h
  · next t' ht' =>
    obtain rfl := List.mem_singleton.mp h
    exact offered_contentText F dir ht' hsigned hne
  · next items hitems =>
    obtain ⟨item, hitem, ht⟩ := List.mem_filterMap.mp h
    obtain ⟨hitem, htext⟩ := List.mem_filter.mp hitem
    have htext : strField item "type" = some "text" := of_decide_eq_true htext
    exact offered_content F dir hitems hsigned ⟨item, hitem, by rw [htext]; rfl, ht⟩ hne
  · cases h

mutual

theorem inLatestTurn_value (context : AnthropicKeyContext) : ∀ v : Value,
    ∀ s ∈ redactAnthropicValue F dir context v, s.inLatestTurn = (dir != .inputHistory)
  | .string t, s, hs => by
    rw [redactAnthropicValue] at hs
    split at hs
    · cases hs
    · rw [List.mem_singleton.mp hs]
      cases dir <;> rfl
  | .array items, s, hs => by
    rw [redactAnthropicValue] at hs
    exact inLatestTurn_items context items s hs
  | .object fields, s, hs => by
    rw [redactAnthropicValue] at hs
    split at hs
    · cases hs
    · exact inLatestTurn_fields context _ fields s hs
  | .number n, s, hs => by
    rw [redactAnthropicValue] at hs
    split at hs
    · cases hs
    · exact inLatestTurn_unrewritable dir _ _ s hs
  | .null, s, hs => by cases hs
  | .bool _, s, hs => by cases hs

theorem inLatestTurn_items (context : AnthropicKeyContext) : ∀ items : List Value,
    ∀ s ∈ redactAnthropicItems F dir context items, s.inLatestTurn = (dir != .inputHistory)
  | [], s, hs => by cases hs
  | v :: vs, s, hs => by
    rw [redactAnthropicItems] at hs
    exact (List.mem_append.mp hs).elim (inLatestTurn_value context v s)
      (inLatestTurn_items context vs s)

theorem inLatestTurn_fields (context : AnthropicKeyContext) (objectType : Option String) :
    ∀ fields : List (String × Value), ∀ s ∈ redactAnthropicFields F dir context objectType fields,
    s.inLatestTurn = (dir != .inputHistory)
  | [], s, hs => by cases hs
  | (field, child) :: rest, s, hs => by
    have hoffered : ∀ t, (offered dir t).inLatestTurn = (dir != .inputHistory) :=
      fun t => by cases dir <;> rfl
    rw [redactAnthropicFields] at hs
    rcases List.mem_append.mp hs with hs | hs
    · split at hs
      · cases hs
      · rcases List.mem_append.mp hs with hs | hs
        · split at hs
          · rw [List.mem_singleton.mp hs]
            exact hoffered field
          · cases hs
        · split at hs
          · obtain ⟨text, -, hs⟩ := List.mem_flatMap.mp hs
            exact inLatestTurn_unrewritable dir _ _ s hs
          · obtain ⟨text, -, rfl⟩ := List.mem_map.mp hs
            exact hoffered text
          · next childContext hreading => exact inLatestTurn_value childContext child s hs
    · exact inLatestTurn_fields context objectType rest s hs

end

/-- The slots of an entry's content. -/
def entrySlots (m : Value) : List ScanSegment :=
  (m.get "content").elim [] (redactAnthropicValue F dir .protocol)

theorem inLatestTurn_entrySlots (m : Value) :
    ∀ s ∈ entrySlots F dir m, s.inLatestTurn = (dir != .inputHistory) := by
  intro s hs
  unfold entrySlots at hs
  cases hcontent : m.get "content" with
  | none => rw [hcontent] at hs; cases hs
  | some content =>
    rw [hcontent] at hs
    exact inLatestTurn_value F dir .protocol content s hs

/-- The slots offered as part of the latest turn are those of the entries in the window. -/
theorem filter_redactAnthropicMessages (body : Value) :
    (redactAnthropicMessages F body).filter (·.inLatestTurn) = (entriesInWindow body).flatMap
    (entrySlots F .input) := by
  have hdirection : ∀ e ∈ messageDirections (arrayField body "messages"), e.2 = .input ∨
      e.2 = .inputHistory := by
    intro e he
    obtain ⟨_, -, rfl⟩ := List.mem_map.mp he
    unfold inputWindow
    split
    · exact .inl rfl
    · exact .inr rfl
  unfold redactAnthropicMessages entriesInWindow
  generalize messageDirections (arrayField body "messages") = entries at hdirection
  induction entries with
  | nil => rfl
  | cons e entries ih =>
    rw [List.flatMap_cons, List.filter_append, ih fun e he => hdirection e (.tail _ he)]
    have hslots := inLatestTurn_entrySlots F e.2 e.1
    rw [show (e.1.get "content").elim [] (redactAnthropicValue F e.2 .protocol) =
      entrySlots F e.2 e.1 from rfl]
    rcases hdirection e List.mem_cons_self with hdir | hdir
    · rw [List.filter_cons_of_pos (by rw [hdir]; rfl), List.map_cons, List.flatMap_cons, hdir,
        List.filter_eq_self.mpr fun s hs => (inLatestTurn_entrySlots F .input e.1 s hs)]
    · rw [List.filter_cons_of_neg (by rw [hdir]; decide), hdir,
        List.filter_eq_nil_iff.mpr fun s hs => by
        rw [inLatestTurn_entrySlots F .inputHistory e.1 s hs]; decide, List.nil_append]

theorem offered_of_readTexts {m : Value} {t : String} (h : t ∈ readTexts m) (hne : t ≠ "") :
    offered dir t ∈ entrySlots F dir m := by
  unfold readTexts at h
  unfold entrySlots
  split at h
  · next t' ht' =>
    obtain rfl := List.mem_singleton.mp h
    rw [ht', Option.elim_some, redactAnthropicValue_string F dir .protocol hne]
    exact List.mem_singleton_self _
  · next blocks hblocks =>
    rw [hblocks, Option.elim_some, redactAnthropicValue]
    obtain ⟨b, hb, h⟩ := List.mem_flatMap.mp h
    refine (mem_redactAnthropicItems F dir).mpr ⟨b, hb, ?_⟩
    unfold blockTexts at h
    split at h
    · next htype => exact offered_text F dir (by rw [htype]; rfl) (Option.mem_toList.mp h) hne
    · split at h
      · split at h
        · next huse => exact offered_useTexts F dir huse h hne
        · cases h
      · split at h
        · next hresult => exact offered_resultTexts F dir hresult h hne
        · exact offered_documentTexts F dir h hne
  · cases h

end Slots

/-! ### Entries that are read whole -/

structure PlainText (block : Value) : Prop where
  type : strField block "type" = some "text"
  members : ∃ fields t, block = .object fields ∧ strField block "text" = some t ∧
    ∀ e ∈ fields, e.1 = "type" ∨ e = ("text", .string t)

/-- A block of text, of reasoning, of a tool call or of its result, with nothing beside. -/
inductive PlainBlock (answer : Bool) (block : Value) : Prop where
  | text : PlainText block → PlainBlock answer block
  | signed : isThinking (strField block "type") = true → PlainBlock answer block
  | result (fields : List (String × Value)) (content : Value) : answer = false →
      block = .object fields → strField block "type" = some "tool_result" →
      block.get "content" = some content →
      ((∃ t, content = .string t) ∨ ∃ items, content = .array items ∧
        ∀ item ∈ items, PlainText item) →
      (∀ e ∈ fields, e.1 = "type" ∨ e.1 = "tool_use_id" ∨ e = ("content", content)) →
        PlainBlock answer block
  | use (fields : List (String × Value)) (id name : String) (input : Value) : answer = true →
      block = .object fields → strField block "type" = some "tool_use" →
      strField block "id" = some id → strField block "name" = some name →
      block.get "input" = some input →
      (∀ e ∈ fields, e.1 = "type" ∨ e.1 = "id" ∨ e = ("name", .string name) ∨
        e = ("input", input)) → PlainBlock answer block

/-- An entry of one text, or of such blocks. -/
def ReadWhole (m : Value) : Prop :=
  match m.get "content" with
  | some (.string _) => True
  | some (.array blocks) => ∀ b ∈ blocks, PlainBlock (isAnswer m) b
  | _ => False

section Plain

variable (F : FloatText) (dir : Direction)

theorem text_of_mem_offered {s : ScanSegment} {t : String}
    (h : s ∈ if t = "" then [] else [offered dir t]) : s.text = t := by
  split at h
  · cases h
  · rw [List.mem_singleton.mp h]
    cases dir <;> rfl

mutual

theorem text_userDefined : ∀ v : Value,
    ∀ s ∈ redactAnthropicValue F dir .userDefined v, reachesRemotePass s.role = true →
    s.text ∈ allTexts v ++ allKeys v
  | .string t, s, hs, _ => by
    rw [redactAnthropicValue] at hs
    rw [text_of_mem_offered dir hs]
    exact List.mem_append_left _ (List.mem_singleton_self _)
  | .array items, s, hs, hrole => by
    rw [redactAnthropicValue] at hs
    exact text_userDefined_items items s hs hrole
  | .object fields, s, hs, hrole => by
    rw [redactAnthropicValue, if_neg (by simp)] at hs
    exact text_userDefined_fields _ fields s hs hrole
  | .number n, s, hs, hrole => by
    rw [redactAnthropicValue, if_neg (by decide), offerUnrewritable] at hs
    split at hs
    · cases hs
    · rw [List.mem_singleton.mp hs] at hrole
      cases hrole
  | .null, s, hs, _ => by cases hs
  | .bool _, s, hs, _ => by cases hs

theorem text_userDefined_items : ∀ items : List Value,
    ∀ s ∈ redactAnthropicItems F dir .userDefined items, reachesRemotePass s.role =
    true → s.text ∈ itemTexts items ++ itemKeys items
  | [], s, hs, _ => by cases hs
  | v :: vs, s, hs, hrole => by
    rw [redactAnthropicItems] at hs
    rw [itemTexts, itemKeys]
    have hcases : s.text ∈ allTexts v ++ allKeys v ∨ s.text ∈ itemTexts vs ++ itemKeys vs :=
      (List.mem_append.mp hs).imp (text_userDefined v s · hrole)
        (text_userDefined_items vs s · hrole)
    simp only [List.mem_append] at hcases ⊢
    tauto

theorem text_userDefined_fields (objectType : Option String) : ∀ fields : List (String × Value),
    ∀ s ∈ redactAnthropicFields F dir .userDefined objectType fields,
      reachesRemotePass s.role = true → s.text ∈ fieldTexts fields ++ fieldKeys fields
  | [], s, hs, _ => by cases hs
  | (field, child) :: rest, s, hs, hrole => by
    have hskipped : isSkipped .userDefined objectType field = false := rfl
    have hown : offersKey .userDefined field = true := rfl
    have hreading : reading .userDefined objectType field child = .walked .userDefined := by
      unfold reading
      rw [if_neg (by simp), if_neg (by simp)]
    rw [redactAnthropicFields, hskipped, hown, hreading, if_neg (by decide), if_pos rfl,
      List.append_assoc] at hs
    rw [fieldTexts, fieldKeys]
    have hcases : s.text = field ∨ s.text ∈ allTexts child ++ allKeys child ∨
        s.text ∈ fieldTexts rest ++ fieldKeys rest := by
      rcases List.mem_append.mp hs with hs | hs
      · rw [List.mem_singleton.mp hs]
        exact .inl (by cases dir <;> rfl)
      · exact .inr ((List.mem_append.mp hs).imp (text_userDefined child s · hrole)
          (text_userDefined_fields objectType rest s · hrole))
    simp only [List.mem_append, List.mem_cons] at hcases ⊢
    tauto

end

theorem PlainText.slots {block : Value} (h : PlainText block) :
    ∀ s ∈ redactAnthropicValue F dir .protocol block, some s.text = strField block "text" := by
  obtain ⟨fields, t, rfl, ht, hmembers⟩ := h.members
  intro s hs
  obtain ⟨e, he, hs⟩ := (mem_redactAnthropicValue_object F dir (by rw [h.type]; rfl)).mp hs
  rw [h.type] at hs
  rcases hmembers e he with hkey | rfl
  · obtain ⟨key, child⟩ := e
    obtain rfl : key = "type" := hkey
    cases hs
  · rw [memberSlots_walked F dir rfl rfl (c := .protocol) rfl, redactAnthropicValue] at hs
    rw [text_of_mem_offered dir hs, ht]

theorem role_of_handle {objectType : Option String} {key : String} {child : Value}
    (hown : offersKey .protocol key = false)
    (hreading : reading .protocol objectType key child = .handle) :
    ∀ s ∈ memberSlots F dir .protocol objectType (key, child), s.role = .label := by
  intro s hs
  rw [memberSlots, redactAnthropicFields, redactAnthropicFields, hown, hreading,
    List.append_nil] at hs
  split at hs
  · cases hs
  · rw [if_neg (by decide), List.nil_append] at hs
    obtain ⟨text, -, hs⟩ := List.mem_flatMap.mp hs
    unfold offerUnrewritable at hs
    split at hs
    · cases hs
    · rw [List.mem_singleton.mp hs]

theorem PlainBlock.slots {answer : Bool} {block : Value} (h : PlainBlock answer block) :
    ∀ s ∈ redactAnthropicValue F dir .protocol block, reachesRemotePass s.role = true →
      s.text ∈ blockTexts answer block := by
  intro s hs hrole
  unfold blockTexts
  cases h with
  | text hplain =>
    rw [if_pos hplain.type, Option.mem_toList]
    exact (hplain.slots F dir s hs).symm
  | signed hsigned =>
    cases block with
    | object fields =>
      rw [redactAnthropicValue, if_pos ⟨rfl, hsigned⟩] at hs
      cases hs
    | _ => cases hsigned
  | result fields content hanswer hblock htype hcontent hkind hmembers =>
    subst hblock hanswer
    obtain ⟨e, he, hs⟩ := (mem_redactAnthropicValue_object F dir (by rw [htype]; rfl)).mp hs
    rw [htype] at hs
    rw [htype, if_neg (by decide), if_neg (by decide), if_pos rfl]
    unfold resultTexts
    rcases hmembers e he with hkey | hkey | rfl
    · obtain ⟨key, child⟩ := e
      obtain rfl : key = "type" := hkey
      cases hs
    · obtain ⟨key, child⟩ := e
      obtain rfl : key = "tool_use_id" := hkey
      rw [role_of_handle F dir rfl rfl s hs] at hrole
      cases hrole
    · rw [hcontent]
      rcases hkind with ⟨t, rfl⟩ | ⟨items, rfl, hitems⟩
      · rw [memberSlots_walked F dir rfl rfl (c := .protocol) rfl, redactAnthropicValue] at hs
        rw [text_of_mem_offered dir hs]
        exact List.mem_singleton_self _
      · rw [memberSlots_walked F dir rfl rfl (c := .protocol) rfl, redactAnthropicValue] at hs
        obtain ⟨item, hitem, hs⟩ := (mem_redactAnthropicItems F dir).mp hs
        refine List.mem_filterMap.mpr ⟨item, List.mem_filter.mpr ⟨hitem, ?_⟩,
          ((hitems item hitem).slots F dir s hs).symm⟩
        exact decide_eq_true (hitems item hitem).type
  | use fields id name input hanswer hblock htype hid hname hinput hmembers =>
    subst hblock hanswer
    obtain ⟨e, he, hs⟩ := (mem_redactAnthropicValue_object F dir (by rw [htype]; rfl)).mp hs
    rw [htype] at hs
    rw [htype, if_neg (by decide), if_pos rfl, if_pos rfl]
    unfold useTexts
    rw [hid, hname, hinput]
    rcases hmembers e he with hkey | hkey | rfl | rfl
    · obtain ⟨key, child⟩ := e
      obtain rfl : key = "type" := hkey
      cases hs
    · obtain ⟨key, child⟩ := e
      obtain rfl : key = "id" := hkey
      rw [role_of_handle F dir rfl rfl s hs] at hrole
      cases hrole
    · rw [show memberSlots F dir .protocol (some "tool_use") ("name", .string name) =
        [offered dir name] from rfl] at hs
      rw [List.mem_singleton.mp hs]
      exact List.mem_cons.mpr (.inl (by cases dir <;> rfl))
    · rw [memberSlots_walked F dir rfl rfl (c := .userDefined) rfl] at hs
      exact List.mem_cons_of_mem _ (text_userDefined F dir input s hs hrole)

theorem ReadWhole.slots {m : Value} (h : ReadWhole m) :
    ∀ s ∈ entrySlots F dir m, reachesRemotePass s.role = true → s.text ∈ readTexts m := by
  unfold ReadWhole at h
  unfold entrySlots readTexts
  intro s hs hrole
  cases hcontent : m.get "content" with
  | none => rw [hcontent] at hs; cases hs
  | some content =>
    rw [hcontent] at h hs
    rw [Option.elim_some] at hs
    cases content with
    | string t =>
      rw [redactAnthropicValue] at hs
      rw [text_of_mem_offered dir hs]
      exact List.mem_singleton_self _
    | array blocks =>
      rw [redactAnthropicValue] at hs
      obtain ⟨b, hb, hs⟩ := (mem_redactAnthropicItems F dir).mp hs
      exact List.mem_flatMap.mpr ⟨b, hb, (h b hb).slots F dir s hs hrole⟩
    | _ => cases h

end Plain

/-- The slots offered as part of the latest turn are those of the entries in the walk's window, and
the view holds the messages of the same entries, in order, after some of what is shown ahead: all of
it as long as nothing has been answered. What is read of such an entry is offered and said there,
and of an entry that is read whole nothing else is offered. -/
theorem latestTurn_agrees (F : FloatText) (asF64 : Number → UInt64) {body : Value}
    {chat : ChatFormat} (h : anthropicRequestForInspection F asF64 body = some chat) :
    (∃ ahead, ahead <+: preamble F body ∧
        (answered isAnswer isSystem (arrayField body "messages") = false →
          ahead = preamble F body) ∧
        (latestTurnView chat).messages = ahead ++ (entriesInWindow body).flatMap
        (messagesOf F .scan .drop)) ∧
      (redactAnthropicMessages F body).filter (·.inLatestTurn) = (entriesInWindow body).flatMap
      (entrySlots F .input) ∧
      ∀ m ∈ entriesInWindow body,
        (∀ t ∈ readTexts m, t ≠ "" → offered .input t ∈ entrySlots F .input m ∧
          ∃ msg ∈ (latestTurnView chat).messages, msg ∈ messagesOf F .scan .drop m ∧ Says F msg t) ∧
        (ReadWhole m → ∀ s ∈ entrySlots F .input m, reachesRemotePass s.role = true →
        s.text ∈ readTexts m) := by
  have hview := view_messages F asF64 h
  refine ⟨⟨_, ?_, fun hopen => by rw [hopen]; rfl, hview⟩, filter_redactAnthropicMessages F body,
    fun m hm => ⟨fun t ht hne => ⟨offered_of_readTexts F .input ht hne, ?_⟩,
      fun hwhole => hwhole.slots F .input⟩⟩
  · split
    · exact List.nil_prefix
    · exact List.prefix_rfl
  · have hentry := hm
    rw [entriesInWindow_eq] at hentry
    obtain ⟨hmem, hspoken⟩ := mem_of_mem_lastTurn hentry
    obtain ⟨msg, hmsg, hsays⟩ :=
      said_of_readTexts F (accepted_of_inspection F asF64 h m hmem) hspoken ht
    refine ⟨msg, ?_, hmsg, hsays⟩
    rw [hview]
    exact List.mem_append_right _ (List.mem_flatMap.mpr ⟨m, hm, hmsg⟩)

def entry (role : String) (content : Value) : Value :=
  .object [("content", content), ("role", .string role)]

def request (entries : List Value) : Value :=
  .object [("messages", .array entries), ("model", .string "m")]

def resultEntry (content : Value) : Value :=
  entry "user" (.array
    [.object [("content", content), ("tool_use_id", .string "t"), ("type", .string "tool_result")]])

/-- A result after the call that asked for it. -/
def toolLoop : Value :=
  request [entry "user" (.string "old"), entry "assistant" (.string "wait"),
    resultEntry (.string "found")]

theorem latestTurn_agrees_toolLoop :
    ∃ chat, anthropicRequestForInspection bitsText (fun _ => 0) toolLoop = some chat ∧
      entriesInWindow toolLoop = [resultEntry (.string "found")] ∧
      ∃ msg ∈ (latestTurnView chat).messages, Says bitsText msg "found" := by
  refine ⟨_, rfl, rfl, ?_⟩
  obtain ⟨-, -, hentries⟩ := latestTurn_agrees bitsText (fun _ => 0)
    (rfl : anthropicRequestForInspection bitsText (fun _ => 0) toolLoop = some _)
  obtain ⟨hread, -⟩ := hentries (resultEntry (.string "found")) (List.mem_singleton_self _)
  obtain ⟨-, msg, hmsg, -, hsays⟩ := hread "found" (List.mem_singleton_self _) (by decide)
  exact ⟨msg, hmsg, hsays⟩

/-- A greeting said again, and an image as a result. -/
def repeated : Value :=
  request [entry "user" (.string "hi"), entry "assistant" (.string "ok"),
    entry "user" (.string "hi"),
    resultEntry (.array
      [.object [("source", .object [("data", .string "AA=="), ("media_type", .string "image/png"),
        ("type", .string "base64")]), ("type", .string "image")]])]

/-- What was said before is said again in the view, and the image's type is nowhere in it. -/
theorem repeated_not_selected :
    ∃ chat, anthropicRequestForInspection bitsText (fun _ => 0) repeated = some chat ∧
      (⟨"hi", .rewritable, false⟩ ∈ redactAnthropicMessages bitsText repeated ∧
        ∃ msg ∈ (latestTurnView chat).messages, Says bitsText msg "hi") ∧
      ⟨"image/png", .rewritable, true⟩ ∈ redactAnthropicMessages bitsText repeated ∧
      ∀ msg ∈ (latestTurnView chat).messages, ¬ Says bitsText msg "image/png" := by
  refine ⟨_, rfl, ?_⟩
  have hview :
      ∀ {chat : ChatFormat}, anthropicRequestForInspection bitsText (fun _ => 0) repeated =
      some chat →
      (latestTurnView chat).messages =
        [.ofText .user "hi", ⟨.tool, some "", none, none, some "t", []⟩] := by
    rintro _ ⟨⟩
    rfl
  rw [hview rfl]
  refine ⟨⟨by decide, _, List.mem_cons_self, .inl List.infix_rfl⟩, by
    decide, fun msg hmsg hsays => ?_⟩
  rcases hsays with hsays | ⟨call, hcall, -⟩
  · rcases List.mem_cons.mp hmsg with rfl | hmsg
    · exact absurd hsays (by decide)
    · rw [List.mem_singleton.mp hmsg] at hsays
      exact absurd hsays (by decide)
  · rcases List.mem_cons.mp hmsg with rfl | hmsg
    · cases hcall
    · rw [List.mem_singleton.mp hmsg] at hcall
      cases hcall

end Messages
end Redact
end Aisix
