import Aisix.Anthropic.Wire

/-!
# Aisix.Anthropic.SplitSystem

What becomes of the messages of a chat: the instructions are lifted into the system prompt, the
others are turns, and turns of one role are one message (`splitSystemWith_ok`).
-/

namespace Aisix
namespace Anthropic

open Json ContentPart

/-! ### What is lifted, and what is a turn -/

/-- A turn of the conversation. -/
def isTurn (m : ChatMessage) : Bool :=
  !m.isReasoningOnly && (m.role != .system && m.role != .developer)

/-- The developer's messages, and the system's before the first turn. -/
def lifted (ms : List ChatMessage) : List ChatMessage :=
  (ms.takeWhile fun m => !isTurn m).filter (fun m => m.role == .system || m.role == .developer) ++
    (ms.dropWhile fun m => !isTurn m).filter fun m => m.role == .developer

/-- A message that is sent as one, once there is a turn. -/
def isSent (m : ChatMessage) : Bool := !m.isReasoningOnly && m.role != .developer

/-- From the first turn on, all but the developer's messages and reasoning. -/
def sent (es : List (ChatMessage × Nat)) : List (ChatMessage × Nat) :=
  (es.dropWhile fun e => !isTurn e.1).filter fun e => isSent e.1

section Split

variable {fromStr : String → Option Value} {debug : String → String} {urls : MediaUrls}

theorem read_reasoning (s : Split) (index : Nat) {m : ChatMessage} (h : m.isReasoningOnly = true) :
    s.read fromStr debug urls index m = .ok s := by
  rw [Split.read, if_pos h]

theorem read_developer (s : Split) (index : Nat) {m : ChatMessage} (h : m.role = .developer) :
    s.read fromStr debug urls index m = .ok { s with systemMsgs := s.systemMsgs ++ [m] } := by
  have hreasoning : m.isReasoningOnly = false :=
    ChatMessage.isReasoningOnly_of_ne (by rw [h]; decide)
  rw [Split.read, hreasoning, if_neg Bool.false_ne_true, h]

theorem read_system (s : Split) (index : Nat) {m : ChatMessage} (h : m.role = .system) :
    s.read fromStr debug urls index m =
      if s.seenNonSystem then s.turn fromStr debug urls index m
      else .ok { s with systemMsgs := s.systemMsgs ++ [m] } := by
  have hreasoning : m.isReasoningOnly = false :=
    ChatMessage.isReasoningOnly_of_ne (by rw [h]; decide)
  rw [Split.read, hreasoning, if_neg Bool.false_ne_true, h]

theorem read_turn (s : Split) (index : Nat) {m : ChatMessage} (h : isTurn m = true) :
    s.read fromStr debug urls index m =
      { s with seenNonSystem := true }.turn fromStr debug urls index m := by
  unfold isTurn at h
  simp only [Bool.and_eq_true, Bool.not_eq_true', bne_iff_ne, ne_eq] at h
  obtain ⟨hreasoning, hsystem, hdeveloper⟩ := h
  rw [Split.read, hreasoning, if_neg Bool.false_ne_true]
  cases hrole : m.role with
  | system => exact absurd hrole hsystem
  | developer => exact absurd hrole hdeveloper
  | _ => rfl

theorem turn_ok {s s' : Split} {index : Nat} {m : ChatMessage}
    (h : s.turn fromStr debug urls index m = .ok s') :
    ∃ part, turnOf fromStr debug urls index m = .ok part ∧
      s' = { s with messages := s.messages ++ [part] } := by
  unfold Split.turn at h
  cases hturn : turnOf fromStr debug urls index m with
  | error e => rw [hturn] at h; cases h
  | ok part =>
    rw [hturn] at h
    exact ⟨part, rfl, (Except.ok.inj h).symm⟩

theorem read_seen {s s' : Split} {index : Nat} {m : ChatMessage} (hseen : s.seenNonSystem = true)
    (h : s.read fromStr debug urls index m = .ok s') :
    s'.seenNonSystem = true ∧
      s'.systemMsgs = s.systemMsgs ++ [m].filter (fun m => m.role == .developer) ∧
      ∃ parts, List.Forall₂ (fun e part => turnOf fromStr debug urls e.2 e.1 = .ok part)
        ([(m, index)].filter fun e => isSent e.1) parts ∧ s'.messages = s.messages ++ parts := by
  by_cases hreasoning : m.isReasoningOnly = true
  · rw [read_reasoning s index hreasoning] at h
    obtain rfl := Except.ok.inj h
    have hrole : (m.role == .developer) = false := by
      refine beq_false_of_ne fun hrole => ?_
      rw [ChatMessage.isReasoningOnly_of_ne (by rw [hrole]; decide)] at hreasoning
      cases hreasoning
    have hsent : isSent m = false := by simp [isSent, hreasoning]
    refine ⟨hseen, ?_, [], ?_, (List.append_nil _).symm⟩
    · rw [List.filter_cons_of_neg (by rw [hrole]; exact Bool.false_ne_true), List.filter_nil,
        List.append_nil]
    · rw [List.filter_cons_of_neg (by rw [hsent]; exact Bool.false_ne_true)]
      exact .nil
  · by_cases hrole : m.role = .developer
    · rw [read_developer s index hrole] at h
      obtain rfl := Except.ok.inj h
      have hsent : isSent m = false := by simp [isSent, hrole]
      refine ⟨hseen, ?_, [], ?_, (List.append_nil _).symm⟩
      · rw [List.filter_cons_of_pos (by rw [hrole]; rfl), List.filter_nil]
      · rw [List.filter_cons_of_neg (by rw [hsent]; exact Bool.false_ne_true)]
        exact .nil
    · have hturn : s.turn fromStr debug urls index m = .ok s' := by
        by_cases hsystem : m.role = .system
        · rw [read_system s index hsystem, if_pos hseen] at h
          exact h
        · rw [read_turn s index (by simp [isTurn, hreasoning, hsystem, hrole])] at h
          obtain ⟨systemMsgs, messages, seen⟩ := s
          obtain rfl : seen = true := hseen
          exact h
      obtain ⟨part, hpart, rfl⟩ := turn_ok hturn
      refine ⟨hseen, ?_, [part], ?_, rfl⟩
      · rw [List.filter_cons_of_neg (by simpa using hrole), List.filter_nil, List.append_nil]
      · rw [List.filter_cons_of_pos (by simp [isSent, hreasoning, hrole]), List.filter_nil]
        exact .cons hpart .nil

theorem readFrom_seen {s s' : Split} {index : Nat} {ms : List ChatMessage}
    (hseen : s.seenNonSystem = true) (h : s.readFrom fromStr debug urls index ms = .ok s') :
    s'.systemMsgs = s.systemMsgs ++ ms.filter (fun m => m.role == .developer) ∧
      ∃ parts, List.Forall₂ (fun e part => turnOf fromStr debug urls e.2 e.1 = .ok part)
        ((ms.zipIdx index).filter fun e => isSent e.1) parts ∧
        s'.messages = s.messages ++ parts := by
  induction ms generalizing s index with
  | nil =>
    obtain rfl := Except.ok.inj h
    exact ⟨(List.append_nil _).symm, [], .nil, (List.append_nil _).symm⟩
  | cons m ms ih =>
    rw [Split.readFrom] at h
    cases hread : s.read fromStr debug urls index m with
    | error e => rw [hread] at h; cases h
    | ok next =>
      rw [hread] at h
      obtain ⟨hseen', hsystem, own, hown, hmessages⟩ := read_seen hseen hread
      obtain ⟨hsystem', rest, hrest, hmessages'⟩ := ih hseen' h
      refine ⟨?_, own ++ rest, ?_, ?_⟩
      · rw [hsystem', hsystem, List.append_assoc, ← List.filter_append, List.singleton_append]
      · rw [List.zipIdx_cons, ← List.singleton_append, List.filter_append]
        exact List.rel_append hown hrest
      · rw [hmessages', hmessages, List.append_assoc]

theorem readFrom_ok {s s' : Split} {index : Nat} {ms : List ChatMessage}
    (hunseen : s.seenNonSystem = false) (h : s.readFrom fromStr debug urls index ms = .ok s') :
    s'.systemMsgs = s.systemMsgs ++ lifted ms ∧
      ∃ parts, List.Forall₂ (fun e part => turnOf fromStr debug urls e.2 e.1 = .ok part)
        (sent (ms.zipIdx index)) parts ∧ s'.messages = s.messages ++ parts := by
  induction ms generalizing s index with
  | nil =>
    obtain rfl := Except.ok.inj h
    exact ⟨(List.append_nil _).symm, [], .nil, (List.append_nil _).symm⟩
  | cons m ms ih =>
    by_cases hturn : isTurn m = true
    · -- the first turn
      have hread : ({ s with seenNonSystem := true } : Split).read fromStr debug urls index m =
          s.read fromStr debug urls index m := by
        rw [read_turn _ _ hturn, read_turn _ _ hturn]
      have hseen :
          ({ s with seenNonSystem := true } : Split).readFrom fromStr debug urls index
          (m :: ms) = .ok s' := by
        rw [Split.readFrom, hread]
        exact h
      have hkept := readFrom_seen rfl hseen
      have hlifted : lifted (m :: ms) = (m :: ms).filter fun m => m.role == .developer := by
        unfold lifted
        rw [List.takeWhile_cons_of_neg (by simp [hturn]),
          List.dropWhile_cons_of_neg (by simp [hturn]), List.filter_nil, List.nil_append]
      have hsent : sent ((m :: ms).zipIdx index) = ((m :: ms).zipIdx index).filter fun e =>
        isSent e.1 := by
        unfold sent
        rw [List.zipIdx_cons, List.dropWhile_cons_of_neg (by simp [hturn])]
      rw [hlifted, hsent]
      exact hkept
    · have hsent : sent ((m :: ms).zipIdx index) = sent (ms.zipIdx (index + 1)) := by
        unfold sent
        rw [List.zipIdx_cons, List.dropWhile_cons_of_pos (by simp [hturn])]
      have hlifted :
          lifted (m :: ms) = [m].filter (fun m => m.role == .system || m.role == .developer) ++
          lifted ms := by
        unfold lifted
        rw [List.takeWhile_cons_of_pos (by simp [hturn]),
          List.dropWhile_cons_of_pos (by simp [hturn]), ← List.singleton_append, List.filter_append,
          List.append_assoc]
      have hread : s.read fromStr debug urls index m =
          .ok { s with
            systemMsgs := s.systemMsgs ++
              [m].filter (fun m => m.role == .system || m.role == .developer) } := by
        by_cases hreasoning : m.isReasoningOnly = true
        · have hrole : m.role = .assistant := by
            by_contra hrole
            rw [ChatMessage.isReasoningOnly_of_ne hrole] at hreasoning
            cases hreasoning
          rw [read_reasoning s index hreasoning, List.filter_cons_of_neg (by rw [hrole]; decide),
            List.filter_nil, List.append_nil]
        · by_cases hdeveloper : m.role = .developer
          · rw [read_developer s index hdeveloper,
              List.filter_cons_of_pos (by rw [hdeveloper]; rfl), List.filter_nil]
          · have hsystem : m.role = .system := by
              by_contra hsystem
              exact hturn (by simp [isTurn, hreasoning, hsystem, hdeveloper])
            rw [read_system s index hsystem, hunseen, if_neg Bool.false_ne_true,
              List.filter_cons_of_pos (by rw [hsystem]; rfl), List.filter_nil]
      rw [Split.readFrom, hread, Except.bind] at h
      rw [hsent, hlifted, ← List.append_assoc]
      refine ih ?_ h
      exact hunseen

theorem splitSystemWith_ok {req : ChatFormat} {system : Option AnthropicSystem}
    {out : List AnthropicMessage} (h : splitSystemWith fromStr debug urls req = .ok (system, out)) :
    system = buildSystem (lifted req.messages) ∧
      ∃ parts, List.Forall₂ (fun e part => turnOf fromStr debug urls e.2 e.1 = .ok part)
        (sent req.messages.zipIdx) parts ∧ out = mergeConsecutiveRoles parts := by
  unfold splitSystemWith at h
  cases hread : (⟨[], [], false⟩ : Split).readFrom fromStr debug urls 0 req.messages with
  | error e => rw [hread] at h; cases h
  | ok s =>
    rw [hread] at h
    obtain ⟨hsystem, parts, hparts, hmessages⟩ := readFrom_ok rfl hread
    obtain ⟨rfl, rfl⟩ := Prod.mk.inj (Except.ok.inj h)
    exact ⟨congrArg buildSystem hsystem, parts, hparts, congrArg mergeConsecutiveRoles hmessages⟩

/-! ### Content is never empty -/

theorem markLastBlock_ne {blocks : List Value} (h : blocks ≠ []) (marker : Option Value) :
    markLastBlock blocks marker ≠ [] := by
  unfold markLastBlock
  split
  · split
    · exact List.concat_ne_nil _ _
    · exact h
  · exact h

theorem fromBlocks_ne (role : WireRole) (content : List Value) :
    (AnthropicMessage.fromBlocks role content).content ≠ [] := by
  unfold AnthropicMessage.fromBlocks
  dsimp only
  split
  · exact List.cons_ne_nil _ _
  · next h => exact h

theorem userTurn_ne {m : ChatMessage} {index : Nat} {part : AnthropicMessage}
    (h : userTurn debug urls m index = .ok part) : part.content ≠ [] := by
  unfold userTurn at h
  cases hblocks : m.contentBlocks with
  | none =>
    rw [hblocks] at h
    obtain rfl := Except.ok.inj h
    exact List.cons_ne_nil _ _
  | some blocks =>
    rw [hblocks] at h
    dsimp only at h
    cases hout : anthropicUserBlocks debug urls blocks index with
    | error e => rw [hout] at h; cases h
    | ok out =>
      rw [hout] at h
      obtain rfl := Except.ok.inj h
      exact fromBlocks_ne .user out

/-- The message of a turn, by its role. -/
inductive Turned (fromStr : String → Option Value) (debug : String → String) (urls : MediaUrls)
    (index : Nat) (m : ChatMessage) : AnthropicMessage → Prop where
  | user (turn : AnthropicMessage) : m.role = .system ∨ m.role = .developer ∨ m.role = .user →
      userTurn debug urls m index = .ok turn → Turned fromStr debug urls index m (markedTurn turn m)
  | assistant : m.role = .assistant → checkHistoryToolCalls (messageCalls m) index = .ok () →
      Turned fromStr debug urls index m
        (markedTurn (.assistant fromStr m.contentStr m.contentBlocks (messageCalls m)) m)
  | result (toolUseId : String) : m.role = .tool ∨ m.role = .function →
      m.toolCallId = some toolUseId →
      Turned fromStr debug urls index m
        (.toolResult toolUseId m.contentStr (toolMessageCacheControl m))

theorem turnOf_turned_result {index : Nat} {m : ChatMessage} {part : AnthropicMessage}
    (hrole : m.role = .tool ∨ m.role = .function)
    (h : turnOf fromStr debug urls index m = .ok part) :
    Turned fromStr debug urls index m part := by
  unfold turnOf at h
  cases hid : m.toolCallId with
  | none => rcases hrole with hrole | hrole <;> rw [hrole, hid] at h <;> cases h
  | some toolUseId =>
    cases hcheck : checkToolResultParts debug m index with
    | error e =>
      rcases hrole with hrole | hrole <;> rw [hrole, hid] at h <;> dsimp only at h
        <;> rw [hcheck] at h <;> cases h
    | ok _ =>
      have hpart : part = .toolResult toolUseId m.contentStr (toolMessageCacheControl m) := by
        rcases hrole with hrole | hrole <;> rw [hrole, hid] at h <;> dsimp only at h
          <;> rw [hcheck] at h <;> exact (Except.ok.inj h).symm
      rw [hpart]
      exact .result toolUseId hrole hid

theorem turnOf_turned {index : Nat} {m : ChatMessage} {part : AnthropicMessage}
    (h : turnOf fromStr debug urls index m = .ok part) :
    Turned fromStr debug urls index m part := by
  have huser : (userTurn debug urls m index).map (markedTurn · m) = .ok part →
      m.role = .system ∨ m.role = .developer ∨ m.role = .user →
        Turned fromStr debug urls index m part := by
    intro h hrole
    cases hturn : userTurn debug urls m index with
    | error e => rw [hturn] at h; cases h
    | ok turn =>
      rw [hturn] at h
      obtain rfl := Except.ok.inj h
      exact .user turn hrole hturn
  cases hrole : m.role with
  | system => unfold turnOf at h; rw [hrole] at h; exact huser h (.inl hrole)
  | developer => unfold turnOf at h; rw [hrole] at h; exact huser h (.inr (.inl hrole))
  | user => unfold turnOf at h; rw [hrole] at h; exact huser h (.inr (.inr hrole))
  | assistant =>
    unfold turnOf at h
    rw [hrole] at h
    dsimp only at h
    cases hcheck : checkHistoryToolCalls (messageCalls m) index with
    | error e => rw [hcheck] at h; cases h
    | ok _ =>
      rw [hcheck] at h
      obtain rfl := Except.ok.inj h
      exact .assistant hrole hcheck
  | tool => exact turnOf_turned_result (.inl hrole) h
  | function => exact turnOf_turned_result (.inr hrole) h

theorem Turned.content_ne {index : Nat} {m : ChatMessage} {part : AnthropicMessage}
    (h : Turned fromStr debug urls index m part) : part.content ≠ [] := by
  cases h with
  | user turn _ hturn => exact markLastBlock_ne (userTurn_ne hturn) _
  | assistant _ _ => exact markLastBlock_ne (fromBlocks_ne .assistant _) _
  | result toolUseId _ _ => exact List.cons_ne_nil _ _

end Split

/-! ### The system prompt -/

theorem get_withMember_of_ne {key key' : String} (h : key' ≠ key) (v block : Value) :
    (withMember key v block).get key' = block.get key' := by
  cases block with
  | object fields =>
    unfold withMember Value.get
    dsimp only
    rw [List.lookup_cons, beq_false_of_ne h, lookup_remove_of_ne h]
  | _ => rfl

theorem strField_withMember_of_ne {key key' : String} (h : key' ≠ key) (v block : Value) :
    strField (withMember key v block) key' = strField block key' := by
  rw [strField, get_withMember_of_ne h, strField]

theorem filterMap_markLastBlock {β : Type} {f : Value → Option β}
    (hf : ∀ marker block, f (withMember "cache_control" marker block) = f block)
    (blocks : List Value) (marker : Option Value) :
    (markLastBlock blocks marker).filterMap f = blocks.filterMap f := by
  unfold markLastBlock
  rcases List.eq_nil_or_concat blocks with rfl | ⟨rest, last, rfl⟩
  · cases marker <;> rfl
  · rw [List.concat_eq_append, List.getLast?_concat]
    cases marker with
    | none => rfl
    | some marker =>
      dsimp only
      split
      · rw [List.dropLast_concat, List.filterMap_append, List.filterMap_append, List.filterMap_cons,
          List.filterMap_cons, hf]
      · rfl

theorem anthropicTextBlock_spec {block kept : Value} (h : anthropicTextBlock block = some kept) :
    kept.get "type" = block.get "type" ∧ kept.get "text" = block.get "text" := by
  unfold anthropicTextBlock at h
  cases block with
  | object fields =>
    obtain ⟨t, -, rfl⟩ := Option.map_eq_some_iff.1 h
    unfold Value.get
    dsimp only
    rw [Value.lookup_filter KEEP.contains, Value.lookup_filter KEEP.contains]
    exact ⟨rfl, rfl⟩
  | _ => cases h

theorem text_anthropicTextBlock (block : Value) :
    (anthropicTextBlock block).bind (strField · "text") = (strField block "text").filter fun t =>
    !isBlank t := by
  cases hkept : anthropicTextBlock block with
  | some kept =>
    have htext : strField kept "text" = strField block "text" := by
      rw [strField, (anthropicTextBlock_spec hkept).2, strField]
    unfold anthropicTextBlock at hkept
    cases block with
    | object fields =>
      obtain ⟨t, ht, -⟩ := Option.map_eq_some_iff.1 hkept
      rw [Option.bind_some, htext, ht]
      exact (Option.filter_eq_some_iff.1 ht).1
    | _ => cases hkept
  | none =>
    unfold anthropicTextBlock at hkept
    cases block with
    | object fields => exact (Option.map_eq_none_iff.1 hkept).symm
    | _ => rfl

/-- The texts a system message has in the prompt as blocks. -/
def systemTexts (m : ChatMessage) : List String :=
  match m.contentBlocks with
  | some blocks =>
    (blocks.filter fun b => strField b "type" = some "text").filterMap fun b =>
      (strField b "text").filter fun t => !isBlank t
  | none => [m.contentStr]

theorem texts_systemBlocks (m : ChatMessage) :
    (systemBlocks m).filterMap (strField · "text") = systemTexts m := by
  unfold systemBlocks systemTexts
  rw [filterMap_markLastBlock fun marker block => strField_withMember_of_ne
    (by decide) marker block]
  cases m.contentBlocks with
  | none => rfl
  | some blocks =>
    rw [Option.map_some, Option.getD_some, anthropicTextBlocks, List.filterMap_filterMap]
    exact List.filterMap_congr fun block _ => text_anthropicTextBlock block

/-- How the system prompt tells the instructions that are lifted. -/
def SystemTells (instructions : List ChatMessage) : Option AnthropicSystem → Prop
  | none => instructions = []
  | some (.text s) => s = joinWith "\n\n" (instructions.map ChatMessage.contentStr)
  | some (.blocks blocks) => blocks.filterMap (strField · "text") = instructions.flatMap systemTexts

theorem systemTells_buildSystem (instructions : List ChatMessage) :
    SystemTells instructions (buildSystem instructions) := by
  unfold buildSystem
  split
  · next h => exact h
  · dsimp only
    split
    · rfl
    · split
      · rfl
      · unfold SystemTells
        dsimp only
        rw [List.filterMap_flatMap]
        exact List.flatMap_congr fun m _ => texts_systemBlocks m

end Anthropic
end Aisix
