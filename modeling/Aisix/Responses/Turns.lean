import Mathlib.Data.List.Chain
import Aisix.Anthropic.Inbound
import Aisix.Responses.History

/-!
# Aisix.Responses.Turns

What the items of an input say, one after another, and the turns that the first pass tells it in
(`foldl_appendInputItem`).
-/

namespace Aisix
namespace Responses
namespace History

open Json ChatMerge Anthropic

/-! ### What is said -/

/-- Who speaks beside the model and its tools. -/
inductive Speaker where
  | user
  | system
  | developer

def Speaker.role : Speaker → Role
  | user => .user
  | system => .system
  | developer => .developer

inductive Event where
  | said (who : Speaker) (content : ChatContent)
  | spoke (content : ChatContent)
  | called (call : Value)
  | answered (callId : String) (output : ChatContent)
  | thought (text : String)

namespace Event

def IsCall : Event → Prop
  | called _ => True
  | _ => False

def IsAnswer : Event → Prop
  | answered _ _ => True
  | _ => False

/-- A call of this id. -/
def Calls (id : String) : Event → Prop
  | called tc => callId tc = id
  | _ => False

/-- Content with text or a part that is no reasoning; reasoning with text. -/
def Telling : Event → Prop
  | spoke c => c.text ≠ "" ∨ ∃ blocks, c.blocks = some blocks ∧ blocks.all isReasoningPart = false
  | thought t => t ≠ ""
  | _ => True

end Event

def messageEvent (role : Role) (content : ChatContent) : Event :=
  match role with
  | .assistant => .spoke content
  | .system => .said .system content
  | .developer => .said .developer content
  | _ => .said .user content

/-- What an item says: nothing, where it has no content and no readable reasoning. -/
def eventOf (F : FloatText) (item : Value) : Option Event :=
  match item with
  | .string text => if text = "" then none else some (.said .user ⟨text, none⟩)
  | item =>
    match replayedCall F item with
    | some tc => some (.called tc)
    | none =>
      match itemType item with
      | .output =>
        some (.answered ((strField item "call_id").getD "")
          (((item.get "output").map (functionCallOutputToChat F)).getD ⟨"", none⟩))
      | .reasoning => (replayedReasoningText item).map .thought
      | .message =>
        let content := ((item.get "content").map responsesContentToChat).getD ⟨"", none⟩
        if content.isEmpty then none else some (messageEvent (messageRole item) content)

def eventsOf (F : FloatText) (items : List Value) : List Event := items.filterMap (eventOf F)

/-! ### Turns -/

/-- A message: reasoning alone, or what the assistant thought, spoke and called. -/
inductive Turn where
  | said (who : Speaker) (content : ChatContent)
  | answered (callId : String) (output : ChatContent)
  | alone (thought : String)
  | spoke (thoughts : List String) (content : Option ChatContent) (calls : List Value)

def callsMember (calls : List Value) : List (String × Value) :=
  if calls.isEmpty then [] else [("tool_calls", .array calls)]

def thoughtsMember (thoughts : List String) : List (String × Value) :=
  if thoughts.isEmpty then [] else [(REASONING_CONTENT, .string ("\n".intercalate thoughts))]

namespace Turn

def events : Turn → List Event
  | said who c => [.said who c]
  | answered id output => [.answered id output]
  | alone t => [.thought t]
  | spoke ts c calls => ts.map .thought ++ ((c.map .spoke).toList ++ calls.map .called)

/-- The message of a turn; `standing` is the content where reasoning is alone. -/
def message (standing : Option String) : Turn → ChatMessage
  | said who c => c.intoMessage who.role
  | answered id output => toolMessage id output
  | alone t => reasoningMessage standing t
  | spoke ts c calls =>
    { (c.map (·.intoMessage .assistant)).getD ⟨.assistant, none, none, none, none, []⟩ with
      extra := callsMember calls ++ thoughtsMember ts }

def IsAssistant : Turn → Prop
  | alone _ | spoke _ _ _ => True
  | _ => False

def IsAnswer : Turn → Prop
  | answered _ _ => True
  | _ => False

/-- Calls that come with nothing before them. -/
def Headless : Turn → Prop
  | spoke [] none _ => True
  | _ => False

/-- The model says something or calls. -/
def Speaks : Turn → Prop
  | spoke _ c calls => c ≠ none ∨ calls ≠ []
  | _ => True

/-- A call of this id is among the turn's. -/
def Holds (id : String) : Turn → Prop
  | spoke _ _ calls => ∃ tc ∈ calls, callId tc = id
  | _ => False

end Turn

/-- What comes after the assistant's turn does not start with a call, and no reasoning is alone
before a turn it can ride. -/
structure Follows (t t' : Turn) : Prop where
  headed : t.IsAssistant → ¬ t'.Headless
  rides : ∀ thought, t = .alone thought → ∀ ts c calls, t' ≠ .spoke ts c calls

/-! ### The first pass -/

/-- An event told after some turns. -/
def tell (turns : List Turn) : Event → List Turn
  | .said who c => turns ++ [.said who c]
  | .spoke c => turns ++ [.spoke [] (some c) []]
  | .answered id output => turns ++ [.answered id output]
  | .thought t => turns ++ [.alone t]
  | .called tc =>
    match turns.getLast? with
    | some (.spoke ts c calls) => turns.dropLast ++ [.spoke ts c (calls ++ [tc])]
    | some (.alone t) => turns.dropLast ++ [.spoke [t] none [tc]]
    | _ => turns ++ [.spoke [] none [tc]]

theorem tell_called (turns : List Turn) (tc : Value) :
    (∃ ts c calls rest, turns = rest ++ [.spoke ts c calls] ∧
      tell turns (.called tc) = rest ++ [.spoke ts c (calls ++ [tc])]) ∨
      (∃ t rest, turns = rest ++ [.alone t] ∧
        tell turns (.called tc) = rest ++ [.spoke [t] none [tc]]) ∨
      (∀ t ∈ turns.getLast?, ¬ t.IsAssistant) ∧
        tell turns (.called tc) = turns ++ [.spoke [] none [tc]] := by
  rcases List.eq_nil_or_concat turns with rfl | ⟨rest, last, rfl⟩
  · exact .inr (.inr ⟨fun t ht => (by cases ht), rfl⟩)
  · rw [List.concat_eq_append]
    unfold tell
    rw [List.getLast?_concat, List.dropLast_concat]
    cases last with
    | said who c => exact .inr (.inr ⟨(fun t ht => by cases ht; exact id), rfl⟩)
    | answered id' output => exact .inr (.inr ⟨(fun t ht => by cases ht; exact id), rfl⟩)
    | alone t => exact .inr (.inl ⟨t, rest, rfl, rfl⟩)
    | spoke ts c calls => exact .inl ⟨ts, c, calls, rest, rfl, rfl⟩

theorem events_tell (turns : List Turn) (e : Event) :
    (tell turns e).flatMap Turn.events = turns.flatMap Turn.events ++ [e] := by
  cases e with
  | said who c => exact List.flatMap_append
  | spoke c => exact List.flatMap_append
  | answered id output => exact List.flatMap_append
  | thought t => exact List.flatMap_append
  | called tc =>
    rcases tell_called turns tc with ⟨ts, c, calls, rest, rfl, h⟩ | ⟨t, rest, rfl, h⟩ | ⟨-, h⟩
    · rw [h]
      simp [Turn.events]
    · rw [h]
      simp [Turn.events]
    · rw [h]
      simp [Turn.events]

/-- What holds of the turns of the first pass. -/
structure Told (turns : List Turn) : Prop where
  headed : turns.IsChain fun t t' => t.IsAssistant → ¬ t'.Headless
  speaks : ∀ t ∈ turns, t.Speaks
  single : ∀ ts c calls, .spoke ts c calls ∈ turns → ∃ o : Option String, ts = o.toList

theorem Told.nil : Told [] :=
  ⟨.nil, fun _ h => absurd h List.not_mem_nil, fun _ _ _ h => absurd h List.not_mem_nil⟩

theorem Told.append {turns : List Turn} {t : Turn} (h : Told turns)
    (hheaded : ∀ last ∈ turns.getLast?, last.IsAssistant → ¬ t.Headless) (hspeaks : t.Speaks)
    (hsingle : ∀ ts c calls, t = .spoke ts c calls → ∃ o : Option String, ts = o.toList) :
    Told (turns ++ [t]) := by
  refine ⟨?_, fun t' ht' => ?_, fun ts c calls ht' => ?_⟩
  · refine h.headed.append (.singleton t) fun last hlast t' ht' => ?_
    obtain rfl : t = t' := Option.some.inj ht'
    exact hheaded last hlast
  · rcases List.mem_append.1 ht' with ht' | ht'
    · exact h.speaks t' ht'
    · exact List.mem_singleton.1 ht' ▸ hspeaks
  · rcases List.mem_append.1 ht' with ht' | ht'
    · exact h.single ts c calls ht'
    · exact hsingle ts c calls (List.mem_singleton.1 ht').symm

theorem Told.left {turns : List Turn} {t : Turn} (h : Told (turns ++ [t])) : Told turns :=
  ⟨h.headed.left_of_append, fun t' ht' => h.speaks t' (List.mem_append_left _ ht'),
    fun ts c calls ht' => h.single ts c calls (List.mem_append_left _ ht')⟩

theorem Told.last_headed {turns : List Turn} {t : Turn} (h : Told (turns ++ [t])) :
    ∀ last ∈ turns.getLast?, last.IsAssistant → ¬ t.Headless :=
  fun last hlast => (List.isChain_append.1 h.headed).2.2 last hlast t rfl

theorem told_tell {turns : List Turn} (h : Told turns) (e : Event) : Told (tell turns e) := by
  cases e with
  | said who c => exact h.append (fun _ _ _ => id) trivial fun _ _ _ ht => by cases ht
  | spoke c =>
    exact h.append (fun _ _ _ => id) (.inl (by simp)) fun _ _ _ ht => by cases ht; exact ⟨none, rfl⟩
  | answered id' output => exact h.append (fun _ _ _ => id) trivial fun _ _ _ ht => by cases ht
  | thought t => exact h.append (fun _ _ _ => id) trivial fun _ _ _ ht => by cases ht
  | called tc =>
    rcases tell_called turns tc with ⟨ts, c, calls, rest, rfl, heq⟩ |
      ⟨t, rest, rfl, heq⟩ | ⟨hlast, heq⟩
    · rw [heq]
      have hheadless : (Turn.spoke ts c (calls ++ [tc])).Headless ↔
          (Turn.spoke ts c calls).Headless := by
        cases ts <;> cases c <;> exact Iff.rfl
      refine h.left.append (fun last hl ha => mt hheadless.1 (h.last_headed last hl ha))
        (.inr (by simp)) fun _ _ _ ht => ?_
      cases ht
      exact h.single ts c calls (List.mem_append_right _ List.mem_cons_self)
    · rw [heq]
      exact h.left.append (fun _ _ _ => id) (.inr (by simp)) fun _ _ _ ht => by
        cases ht; exact ⟨some t, rfl⟩
    · rw [heq]
      exact h.append (fun last hl ha => absurd ha (hlast last hl)) (.inr (by simp))
        fun _ _ _ ht => by
        cases ht
        exact ⟨none, rfl⟩

theorem told_foldl (events : List Event) {turns : List Turn} (h : Told turns) :
    Told (events.foldl tell turns) := by
  induction events generalizing turns with
  | nil => exact h
  | cons e events ih => exact ih (told_tell h e)

theorem events_foldl (events : List Event) (turns : List Turn) :
    (events.foldl tell turns).flatMap Turn.events = turns.flatMap Turn.events ++ events := by
  induction events generalizing turns with
  | nil => exact (List.append_nil _).symm
  | cons e events ih =>
    rw [List.foldl_cons, ih, events_tell, List.append_assoc, List.singleton_append]

@[simp] theorem lookup_callsMember (calls : List Value) (ts : List String) :
    (callsMember calls ++ thoughtsMember ts).lookup "tool_calls" =
    if calls.isEmpty then none else some (.array calls) := by
  cases calls <;> cases ts <;> rfl

@[simp] theorem lookup_thoughtsMember (calls : List Value) (ts : List String) :
    (callsMember calls ++ thoughtsMember ts).lookup REASONING_CONTENT =
      if ts.isEmpty then none else some (.string ("\n".intercalate ts)) := by
  cases calls <;> cases ts <;> rfl

theorem remove_callsMember (calls : List Value) (ts : List String) :
    remove "tool_calls" (callsMember calls ++ thoughtsMember ts) = thoughtsMember ts := by
  cases calls <;> cases ts <;> rfl

theorem callsMember_snoc (calls : List Value) (tc : Value) :
    callsMember (calls ++ [tc]) = [("tool_calls", .array (calls ++ [tc]))] := by
  cases calls <;> rfl

theorem role_intoMessage (c : ChatContent) (role : Role) : (c.intoMessage role).role = role :=
  role_dropDerivedContent _

theorem contentStr_intoMessage (c : ChatContent) (role : Role) :
    (c.intoMessage role).contentStr = c.text :=
  contentStr_dropDerivedContent _

theorem contentBlocks_intoMessage (c : ChatContent) (role : Role) :
    (c.intoMessage role).contentBlocks = c.blocks := by
  unfold ChatContent.intoMessage ChatMessage.dropDerivedContent
  split <;> rfl

theorem extra_intoMessage (c : ChatContent) (role : Role) : (c.intoMessage role).extra = [] := by
  unfold ChatContent.intoMessage ChatMessage.dropDerivedContent
  split <;> rfl

theorem role_spoke (standing : Option String) (ts : List String) (c : Option ChatContent)
    (calls : List Value) :
    ((Turn.spoke ts c calls).message standing).role = .assistant := by
  cases c with
  | none => rfl
  | some c => exact role_intoMessage c .assistant

theorem message_spoke (standing : Option String) (c : ChatContent) :
    (Turn.spoke [] (some c) []).message standing = c.intoMessage .assistant := by
  have h : { c.intoMessage .assistant with extra := [] } = c.intoMessage .assistant := by
    rw [← extra_intoMessage c .assistant]
  exact h

theorem pushToolCall_messages (turns : List Turn) (tc : Value) :
    pushToolCall (turns.map (Turn.message none)) tc = (tell turns (.called tc)).map
      (Turn.message none) := by
  have hnew : ∀ last ∈ turns.getLast?, ¬ last.IsAssistant →
      (last.message none).role ≠ .assistant := by
    intro last _ h
    cases last with
    | said who c =>
      rw [Turn.message, role_intoMessage]
      cases who <;> decide
    | answered id output => exact fun h => by cases h
    | alone t => exact absurd trivial h
    | spoke ts c calls => exact absurd trivial h
  rcases tell_called turns tc with ⟨ts, c, calls, rest, rfl, heq⟩ |
    ⟨t, rest, rfl, heq⟩ | ⟨hlast, heq⟩
  · rw [heq, List.map_append, List.map_append, List.map_singleton, List.map_singleton]
    unfold pushToolCall
    rw [List.getLast?_concat, List.dropLast_concat]
    dsimp only
    rw [if_pos (role_spoke none ts c calls)]
    unfold Turn.message
    dsimp only
    rw [lookup_callsMember, remove_callsMember, callsMember_snoc]
    cases calls <;> rfl
  · rw [heq, List.map_append, List.map_append, List.map_singleton, List.map_singleton]
    unfold pushToolCall
    rw [List.getLast?_concat, List.dropLast_concat]
    rfl
  · rw [heq, List.map_append, List.map_singleton]
    unfold pushToolCall
    rw [List.getLast?_map]
    cases hturns : turns.getLast? with
    | none =>
      rw [List.getLast?_eq_none_iff.1 hturns]
      rfl
    | some last =>
      rw [Option.map_some]
      dsimp only
      rw [if_neg (hnew last hturns (hlast last hturns))]
      rfl

theorem messages_snoc (turns : List Turn) (t : Turn) :
    turns.map (Turn.message none) ++ [t.message none] = (turns ++ [t]).map (Turn.message none) := by
  rw [List.map_append, List.map_singleton]

theorem tell_message (turns : List Turn) (role : Role)
    (hrole : role = .assistant ∨ role = .system ∨ role = .developer ∨ role = .user)
    (c : ChatContent) :
    turns.map (Turn.message none) ++ [c.intoMessage role] = (tell turns (messageEvent role c)).map
      (Turn.message none) := by
  rcases hrole with rfl | rfl | rfl | rfl
  · rw [← message_spoke none c]
    exact messages_snoc turns (.spoke [] (some c) [])
  · exact messages_snoc turns (.said .system c)
  · exact messages_snoc turns (.said .developer c)
  · exact messages_snoc turns (.said .user c)

theorem messageRole_cases (item : Value) :
    messageRole item = .assistant ∨ messageRole item = .system ∨ messageRole item = .developer ∨
    messageRole item = .user := by
  unfold messageRole
  split <;> simp

variable (F : FloatText)

theorem appendInputItem_messages (turns : List Turn) (item : Value) :
    appendInputItem F (turns.map (Turn.message none)) item =
      (((eventOf F item).map (tell turns)).getD turns).map (Turn.message none) := by
  unfold appendInputItem eventOf
  cases item with
  | string text =>
    dsimp only
    split
    · rfl
    · exact tell_message turns .user (by simp) ⟨text, none⟩
  | _ =>
    dsimp only
    cases replayedCall F _ with
    | some tc => exact pushToolCall_messages turns tc
    | none =>
      dsimp only
      cases itemType _ with
      | output => exact messages_snoc turns (.answered _ _)
      | reasoning =>
        cases replayedReasoningText _ with
        | none => rfl
        | some t => exact messages_snoc turns (.alone t)
      | message =>
        dsimp only
        split
        · rfl
        · exact tell_message turns _ (messageRole_cases _) _

theorem foldl_appendInputItem (items : List Value) (turns : List Turn) :
    items.foldl (appendInputItem F) (turns.map (Turn.message none)) =
      ((eventsOf F items).foldl tell turns).map (Turn.message none) := by
  induction items generalizing turns with
  | nil => rfl
  | cons item items ih =>
    rw [List.foldl_cons, appendInputItem_messages, ih]
    unfold eventsOf
    rw [List.filterMap_cons]
    cases eventOf F item <;> rfl

end History
end Responses
end Aisix
