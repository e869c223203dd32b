import Aisix.Anthropic.Reading

/-!
# Aisix.Anthropic.StreamAgrees

The ways to stream a whole Messages answer, and what a client puts together from the chunks of one:
the answer the whole body is read as (`stream_agrees`).
-/

namespace Aisix
namespace Anthropic

open Json BlockStream

namespace AnthropicStreamDelta

def text : AnthropicStreamDelta → String
  | .textDelta t => t
  | _ => ""

def thinking : AnthropicStreamDelta → String
  | .thinkingDelta t => t
  | _ => ""

def input : AnthropicStreamDelta → String
  | .inputJsonDelta j => j
  | _ => ""

end AnthropicStreamDelta

/-! ### The streams of an answer -/

def typeOf (contentBlock : Value) : Option String := (contentBlock.get "type").bind Value.asStr?

/-- The text of a member, empty where there is none. -/
def textOfMember (contentBlock : Value) (key : String) : String :=
  ((contentBlock.get key).bind Value.asStr?).getD ""

def openingInput (contentBlock : Value) : List (String × Value) :=
  ((contentBlock.get "input").bind Value.asObject?).getD []

/-- The block opens as `contentBlock`, and the deltas bring the rest of it. -/
def Carries (J : Json.Text) (contentBlock : Value) (deltas : List AnthropicStreamDelta) :
    AnthropicResponseBlock → Prop
  | .text text =>
    typeOf contentBlock = some "text" ∧ (∀ d ∈ deltas, d.thinking = "" ∧ d.input = "") ∧
      text = textOfMember contentBlock "text" ++ joined (·.text) deltas
  | .thinking thinking =>
    typeOf contentBlock = some "thinking" ∧ (∀ d ∈ deltas, d.text = "" ∧ d.input = "") ∧
      thinking = textOfMember contentBlock "thinking" ++ joined (·.thinking) deltas
  | .toolUse id name input => typeOf contentBlock = some "tool_use" ∧
      (∀ d ∈ deltas, d.text = "" ∧ d.thinking = "") ∧
      textOfMember contentBlock "id" = id ∧ textOfMember contentBlock "name" = name ∧
      -- the input is an object, or was left out
      ((joined (·.input) deltas = "" ∧
          (input = .object (openingInput contentBlock) ∨ input = .null ∧
            openingInput contentBlock = [])) ∨
        joined (·.input) deltas ≠ "" ∧
          ∃ fields, J.Reads (joined (·.input) deltas) (.object fields) ∧
          input = .object (openingInput contentBlock ++ fields))
  | .other => typeOf contentBlock ≠ some "text" ∧ typeOf contentBlock ≠ some "thinking" ∧
      typeOf contentBlock ≠ some "tool_use" ∧ ∀ d ∈ deltas, d.text = "" ∧ d.thinking = ""

/-- The deltas of block `index` with pings among them. -/
inductive Deltas (index : Nat) : List AnthropicStreamDelta → List AnthropicStreamEvent → Prop
  | nil : Deltas index [] []
  | delta {d ds es} : Deltas index ds es →
      Deltas index (d :: ds) (.contentBlockDelta (some index) d :: es)
  | ping {ds es} : Deltas index ds es → Deltas index ds (.other :: es)

/-- The blocks from number `index` on, one after the other. -/
inductive Content (J : Json.Text) :
    Nat → List AnthropicResponseBlock → List AnthropicStreamEvent → Prop
  | nil {index} : Content J index [] []
  | ping {index blocks es} : Content J index blocks es → Content J index blocks (.other :: es)
  | block {index block blocks contentBlock deltas mid es} : Carries J contentBlock deltas block →
      Deltas index deltas mid → Content J (index + 1) blocks es →
      Content J index (block :: blocks)
        (.contentBlockStart (some index) contentBlock :: mid ++
          .contentBlockStop (some index) :: es)

/-- A count of the body, in the frames that report it. -/
def Reports {α : Type} (whole : α) (start delta : Option α) (unreported : α) : Prop :=
  (start = none ∨ start = some whole) ∧ (delta = none ∨ delta = some whole) ∧
    (start = none → delta = none → whole = unreported)

/-- `message_start` and `message_delta` report the usage of the body. -/
def ReportsUsage (usage : Option AnthropicUsage) (start : Option AnthropicStreamStartUsage)
    (delta : Option AnthropicStreamUsage) : Prop :=
  match usage with
  | none => start = none ∧ delta = none
  | some u => ∃ d, delta = some d ∧ d.outputTokens = some u.outputTokens ∧
      d.outputTokensDetails = u.outputTokensDetails ∧ d.serverToolUse = u.serverToolUse ∧
      Reports u.inputTokens (start.bind (·.inputTokens)) d.inputTokens 0 ∧
      Reports u.cacheCreationInputTokens (start.bind (·.cacheCreationInputTokens))
        d.cacheCreationInputTokens 0 ∧
      Reports u.cacheReadInputTokens (start.bind (·.cacheReadInputTokens))
        d.cacheReadInputTokens 0 ∧
      Reports (CacheCreationTtl.fromAnthropic u.cacheCreation)
        ((start.bind (·.cacheCreation)).map fun v => .fromAnthropic (some v))
        (d.cacheCreation.map fun v => .fromAnthropic (some v)) .NONE

/-- `events` stream the answer `raw`. -/
def IsStreamOf (J : Json.Text) (raw : AnthropicResponse) (events : List AnthropicStreamEvent) :
    Prop :=
  ∃ message content usage, events =
      .messageStart message :: content ++ [.messageDelta raw.stopReason usage, .messageStop] ∧
    Content J 0 raw.content content ∧ ReportsUsage raw.usage message.usage usage

/-- Text and thinking blocks open empty, and so do tool blocks with fragments behind. -/
def OpensEmpty (events : List AnthropicStreamEvent) : Prop :=
  ∀ index contentBlock, .contentBlockStart (some index) contentBlock ∈ events →
    (typeOf contentBlock = some "text" → textOfMember contentBlock "text" = "") ∧
    (typeOf contentBlock = some "thinking" → textOfMember contentBlock "thinking" = "") ∧
    (typeOf contentBlock = some "tool_use" → openingInput contentBlock ≠ [] →
      ∀ partialJson, .contentBlockDelta (some index) (.inputJsonDelta partialJson) ∈ events →
        partialJson = "")

/-! ### What the whole body is read as -/

def Value.items (v : Option Value) : List Value :=
  match v with
  | some (.array items) => items
  | _ => []

/-- The parts of a chat answer that its stream has too. -/
def Answer.ofResponse (response : ChatResponse) : Answer where
  text := response.message.content.getD ""
  reasoning := ((response.message.extra.lookup "reasoning_content").bind Value.asStr?).getD ""
  calls := (Value.items (response.message.extra.lookup "tool_calls")).map Call.ofValue
  finishReason := some response.finishReason
  usage := some response.usage

def Call.Same (J : Json.Text) (c c' : Call) : Prop :=
  c.id = c'.id ∧ c.name = c'.name ∧ J.Same c.arguments c'.arguments

/-! ### The deltas of one block -/

theorem rposition_concat {α : Type} (p : α → Bool) (as : List α) (a : α) :
    rposition p (as ++ [a]) = if p a then some as.length else rposition p as := by
  induction as with
  | nil => cases h : p a <;> simp [rposition, h]
  | cons b bs ih =>
    rw [List.cons_append, rposition, ih]
    cases h : p a <;> simp [rposition]

theorem rposition_eq_none {α : Type} {p : α → Bool} {as : List α} (h : ∀ a ∈ as, p a = false) :
    rposition p as = none := by
  induction as with
  | nil => rfl
  | cons a as ih =>
    rw [rposition, ih fun b hb => h b (by simp [hb]), h a (by simp)]
    rfl

theorem modify_concat {α : Type} (f : α → α) (as : List α) (a : α) :
    (as ++ [a]).modify as.length f = as ++ [f a] := by
  induction as with
  | nil => rfl
  | cons b bs ih => simpa using ih

theorem callIndex_usize {n : Nat} (h : n < 2 ^ 64) (rest : List (String × Value)) :
    callIndex (.object (("index", StreamState.usizeValue n) :: rest)) = n := by
  simp only [callIndex, Value.get, List.lookup_cons, StreamState.usizeValue, Value.asU64?,
    beq_self_eq_true, Option.bind_some, Option.getD_some, UInt64.toNat_ofNat']
  exact Nat.mod_eq_of_lt h

section

variable {calls : List Call}

theorem mergeCall_opening (h : calls.length < 2 ^ 64) (id name : String) :
    mergeCall calls (StreamState.openingFragment calls.length id name) = calls ++
      [⟨id, name, ""⟩] := by
  rw [mergeCall, StreamState.openingFragment, callIndex_usize h, if_neg (Nat.lt_irrefl _)]
  rfl

theorem mergeCall_arguments (h : calls.length < 2 ^ 64) (c : Call) (arguments : String) :
    mergeCall (calls ++ [c]) (StreamState.argumentsFragment calls.length arguments) =
      calls ++ [{ c with arguments := c.arguments ++ arguments }] := by
  rw [mergeCall, StreamState.argumentsFragment, callIndex_usize h, if_pos (by simp)]
  have hid : callId (StreamState.argumentsFragment calls.length arguments) = "" := rfl
  have hname : callName (StreamState.argumentsFragment calls.length arguments) = "" := rfl
  have harguments : callArguments (StreamState.argumentsFragment calls.length arguments) =
      arguments := rfl
  simp only [StreamState.argumentsFragment] at hid hname harguments
  simp [hid, hname, harguments, modify_concat]

end

namespace Reading

variable {r : Reading} {index : Nat} {ds : List AnthropicStreamDelta}

theorem foldl_text (h : ∀ d ∈ ds, d.thinking = "" ∧ d.input = "") :
    ds.foldl (readDelta index) r =
      { r with answer := { r.answer with text := r.answer.text ++ joined (·.text) ds } } := by
  induction ds generalizing r with
  | nil => simp
  | cons d ds ih =>
    rw [List.foldl_cons, ih fun d' hd' => h d' (by simp [hd'])]
    obtain ⟨hthinking, hinput⟩ := h d (by simp)
    cases d with
    | textDelta t => simp [readDelta, AnthropicStreamDelta.text, String.append_assoc]
    | thinkingDelta t =>
      obtain rfl : t = "" := hthinking
      simp [readDelta, AnthropicStreamDelta.text]
    | inputJsonDelta j =>
      obtain rfl : j = "" := hinput
      simp [readDelta, AnthropicStreamDelta.text]
    | other => simp [readDelta, AnthropicStreamDelta.text]

theorem readDelta_of_silent {d : AnthropicStreamDelta} (htext : d.text = "")
    (hthinking : d.thinking = "")
    (hinput : d.input = "") : r.readDelta index d = r := by
  cases d with
  | textDelta t =>
    obtain rfl : t = "" := htext
    simp [readDelta]
  | thinkingDelta t =>
    obtain rfl : t = "" := hthinking
    simp [readDelta]
  | inputJsonDelta j =>
    obtain rfl : j = "" := hinput
    simp [readDelta]
  | other => rfl

@[simp] theorem separator_self (index : Nat) : separator (some index) index = "" := by
  simp [separator]

theorem foldl_thinking (h : ∀ d ∈ ds, d.text = "" ∧ d.input = "") :
    ds.foldl (readDelta index) r =
      if joined (·.thinking) ds = "" then r
      else
        { r with
          lastThinkingBlock := some index
          answer := { r.answer with
            reasoning :=
              r.answer.reasoning ++
                (separator r.lastThinkingBlock index ++ joined (·.thinking) ds) } } := by
  induction ds generalizing r with
  | nil => simp
  | cons d ds ih =>
    rw [List.foldl_cons, ih fun d' hd' => h d' (by simp [hd'])]
    obtain ⟨htext, hinput⟩ := h d (by simp)
    by_cases hthinking : d.thinking = ""
    · rw [readDelta_of_silent htext hthinking hinput, joined_cons, hthinking, String.empty_append]
    · cases d with
      | thinkingDelta t =>
        have ht : t ≠ "" := hthinking
        have hjoined : joined (·.thinking) (.thinkingDelta t :: ds) = t ++ joined (·.thinking) ds :=
          rfl
        have hne : t ++ joined (·.thinking) ds ≠ "" := by simp [ht]
        rw [hjoined, if_neg hne, readDelta, if_neg ht]
        by_cases hrest : joined (·.thinking) ds = ""
        · rw [if_pos hrest, hrest, String.append_empty]
        · rw [if_neg hrest, separator_self, String.empty_append]
          simp only [String.append_assoc]
      | textDelta t => exact absurd rfl hthinking
      | inputJsonDelta j => exact absurd rfl hthinking
      | other => exact absurd rfl hthinking

theorem readDelta_input {tools : List (Option Nat × Option String)} {x : Option String}
    {calls : List Call} {c : Call} (htools : r.toolBlocks = tools ++ [(some index, x)])
    (hcalls : r.answer.calls = calls ++ [c]) (hlength : calls.length = tools.length)
    (hlt : calls.length < 2 ^ 64) {j : String} (hj : j ≠ "") :
    r.readDelta index (.inputJsonDelta j) =
      { r with
        toolBlocks := tools ++ [(some index, none)]
        answer :=
          { r.answer with calls := calls ++ [{ c with arguments := c.arguments ++ j }] } } := by
  have hposition : r.toolPosition index = some tools.length := by
    simp [toolPosition, htools, rposition_concat]
  simp only [readDelta, if_neg hj, hposition, dropInput, call, htools, modify_concat, hcalls]
  rw [← hlength, mergeCall_arguments hlt]

theorem foldl_input {tools : List (Option Nat × Option String)} {x : Option String}
    {calls : List Call} {c : Call} (htools : r.toolBlocks = tools ++ [(some index, x)])
    (hcalls : r.answer.calls = calls ++ [c]) (hlength : calls.length = tools.length)
    (hlt : calls.length < 2 ^ 64) (h : ∀ d ∈ ds, d.text = "" ∧ d.thinking = "") :
    ds.foldl (readDelta index) r =
      { r with
        toolBlocks := tools ++ [(some index, if joined (·.input) ds = "" then x else none)]
        answer := { r.answer with
          calls := calls ++ [{ c with arguments := c.arguments ++ joined (·.input) ds }] } } := by
  induction ds generalizing r x c with
  | nil => simp [← htools, ← hcalls]
  | cons d ds ih =>
    have hrest : ∀ d' ∈ ds, d'.text = "" ∧ d'.thinking = "" := fun d' hd' => h d' (by simp [hd'])
    obtain ⟨htext, hthinking⟩ := h d (by simp)
    rw [List.foldl_cons]
    by_cases hinput : d.input = ""
    · rw [readDelta_of_silent htext hthinking hinput, ih htools hcalls hrest, joined_cons, hinput,
        String.empty_append]
    · cases d with
      | inputJsonDelta j =>
        have hj : j ≠ "" := hinput
        have hjoined : joined (·.input) (.inputJsonDelta j :: ds) = j ++ joined (·.input) ds := rfl
        have hne : j ++ joined (·.input) ds ≠ "" := by simp [hj]
        rw [readDelta_input htools hcalls hlength hlt hj, ih rfl rfl hrest, hjoined, if_neg hne]
        simp [String.append_assoc]
      | textDelta t => exact absurd rfl hinput
      | thinkingDelta t => exact absurd rfl hinput
      | other => exact absurd rfl hinput

theorem foldl_other (hnone : r.toolPosition index = none)
    (h : ∀ d ∈ ds, d.text = "" ∧ d.thinking = "") : ds.foldl (readDelta index) r = r := by
  induction ds with
  | nil => rfl
  | cons d ds ih =>
    obtain ⟨htext, hthinking⟩ := h d (by simp)
    have hsame : r.readDelta index d = r := by
      cases d with
      | inputJsonDelta j => simp [readDelta, hnone]
      | textDelta t => exact readDelta_of_silent htext hthinking rfl
      | thinkingDelta t => exact readDelta_of_silent htext hthinking rfl
      | other => rfl
    rw [List.foldl_cons, hsame, ih fun d' hd' => h d' (by simp [hd'])]

theorem readStart_of_not_tool {J : Json.Text} {contentBlock : Value} {at? : Option Nat}
    (h : typeOf contentBlock ≠ some "tool_use") : r.readStart J at? contentBlock = r := by
  have hnone : streamToolUse J contentBlock = none := by
    simp only [streamToolUse]
    rw [typeOf] at h
    cases htype : (contentBlock.get "type").bind Value.asStr? with
    | none => rfl
    | some type =>
      have hne : type ≠ "tool_use" := fun heq => h (by rw [htype, heq])
      simp [hne]
  rw [readStart, hnone]

theorem readStop_of_not_tool (hnone : r.toolPosition index = none) : r.readStop index = r := by
  rw [readStop, hnone]

/-- The arguments a tool block closes with, when no fragment came. -/
def openingArguments (J : Json.Text) (contentBlock : Value) : String :=
  match openingInput contentBlock with
  | [] => "\x7b\x7d"
  | fields => J.print (.object fields)

theorem readStart_of_tool {J : Json.Text} {contentBlock : Value}
    (h : typeOf contentBlock = some "tool_use")
    (hlength : r.answer.calls.length = r.toolBlocks.length) (hlt : r.answer.calls.length < 2 ^ 64) :
    r.readStart J (some index) contentBlock =
      { r with
        toolBlocks := r.toolBlocks ++ [(some index, some (openingArguments J contentBlock))]
        answer := { r.answer with
          calls := r.answer.calls ++
            [⟨textOfMember contentBlock "id", textOfMember contentBlock "name", ""⟩] } } := by
  have hinput : ((((contentBlock.get "input").bind Value.asObject?).filter (! ·.isEmpty)).map
      (J.print ∘ .object)).getD "\x7b\x7d" = openingArguments J contentBlock := by
    simp only [openingArguments, openingInput]
    cases (contentBlock.get "input").bind Value.asObject? with
    | none => rfl
    | some fields => cases fields <;> rfl
  rw [typeOf] at h
  simp only [readStart, streamToolUse, h, ne_eq, not_true_eq_false, if_false, call, hinput]
  rw [← hlength, mergeCall_opening hlt]
  rfl

theorem readStop_of_tool {tools : List (Option Nat × Option String)} {x : Option String}
    {calls : List Call} {c : Call} (htools : r.toolBlocks = tools ++ [(some index, x)])
    (hcalls : r.answer.calls = calls ++ [c]) (hlength : calls.length = tools.length)
    (hlt : calls.length < 2 ^ 64) :
    r.readStop index =
      { r with
        toolBlocks := tools ++ [(some index, none)]
        answer := { r.answer with
          calls := calls ++ [{ c with arguments := c.arguments ++ x.getD "" }] } } := by
  have hposition : r.toolPosition index = some tools.length := by
    simp [toolPosition, htools, rposition_concat]
  have hlast : (r.toolBlocks[tools.length]?).bind (·.2) = x := by simp [htools]
  simp only [readStop, hposition, hlast]
  cases x with
  | none => simp [dropInput, htools, modify_concat, ← hcalls]
  | some arguments =>
    simp only [dropInput, call, htools, modify_concat, hcalls, Option.getD_some]
    rw [← hlength, mergeCall_arguments hlt]

theorem read_tool {J : Json.Text} {contentBlock : Value}
    (htype : typeOf contentBlock = some "tool_use")
    (hlength : r.answer.calls.length = r.toolBlocks.length) (hlt : r.answer.calls.length < 2 ^ 64)
    (h : ∀ d ∈ ds, d.text = "" ∧ d.thinking = "") :
    (ds.foldl (readDelta index) (r.readStart J (some index) contentBlock)).readStop index =
      { r with
        toolBlocks := r.toolBlocks ++ [(some index, none)]
        answer := { r.answer with
          calls := r.answer.calls ++
            [⟨textOfMember contentBlock "id", textOfMember contentBlock "name",
              if joined (·.input) ds = "" then openingArguments J contentBlock
              else joined (·.input) ds⟩] } } := by
  rw [readStart_of_tool htype hlength hlt, foldl_input rfl rfl hlength hlt h,
    readStop_of_tool rfl rfl hlength hlt]
  by_cases hempty : joined (·.input) ds = ""
  · simp [hempty]
  · simp [hempty]

end Reading

/-! ### Block after block -/

theorem joinWith_concat (separator : String) (ts : List String) (t : String) :
    joinWith separator (ts ++ [t]) = if ts = [] then t else joinWith separator ts ++
      separator ++ t := by
  fun_induction joinWith separator ts with
  | case1 => rfl
  | case2 t' => simp [joinWith]
  | case3 t' rest hne ih =>
    cases rest with
    | nil => exact absurd rfl hne
    | cons t'' rest =>
      simp only [List.cons_append, reduceCtorEq, if_false, joinWith] at ih ⊢
      rw [ih]
      simp [String.append_assoc]

theorem joinWith_empty_concat (ts : List String) (t : String) :
    joinWith "" (ts ++ [t]) = joinWith "" ts ++ t := by
  rw [joinWith_concat]
  cases ts with
  | nil => simp [joinWith]
  | cons t' ts => simp

theorem filterMap_concat {α β : Type} (f : α → Option β) (as : List α) (a : α) :
    (as ++ [a]).filterMap f = as.filterMap f ++ (f a).toList := by
  cases h : f a <;> simp [h]

theorem filterMap_concat_none {α β : Type} {f : α → Option β} {a : α}
    (h : f a = none) (as : List α) :
    (as ++ [a]).filterMap f = as.filterMap f := by
  rw [filterMap_concat, h]
  simp

/-- The reading behind the first `index` blocks. -/
structure Agrees (J : Json.Text) (index : Nat) (blocks : List AnthropicResponseBlock)
    (r : Reading) : Prop where
  text : r.answer.text = joinWith "" (blocks.filterMap text?)
  reasoning : r.answer.reasoning = joinWith "\n" (blocks.filterMap thinking?)
  thought : r.lastThinkingBlock = none ↔ blocks.filterMap thinking? = []
  thoughtBefore : ∀ i, r.lastThinkingBlock = some i → i < index
  calls :
    List.Forall₂ (Call.Same J) r.answer.calls ((blocks.filterMap (toolCall? J)).map Call.ofValue)
  tools : r.answer.calls.length = r.toolBlocks.length
  toolsBefore : ∀ b ∈ r.toolBlocks, ∃ i < index, b.1 = some i
  fewTools : r.toolBlocks.length ≤ index

namespace Agrees

variable {J : Json.Text} {index : Nat} {blocks : List AnthropicResponseBlock} {r : Reading}
  {contentBlock : Value} {ds : List AnthropicStreamDelta}

theorem toolPosition_eq (h : Agrees J index blocks r) : r.toolPosition index = none := by
  refine rposition_eq_none fun b hb => ?_
  obtain ⟨i, hi, hbi⟩ := h.toolsBefore b hb
  simp only [hbi, Option.some.injEq, decide_eq_false_iff_not]
  omega

theorem toolsBefore_succ (h : Agrees J index blocks r) :
    ∀ b ∈ r.toolBlocks, ∃ i < index + 1, b.1 = some i := by
  intro b hb
  obtain ⟨i, hi, hbi⟩ := h.toolsBefore b hb
  exact ⟨i, Nat.lt_succ_of_lt hi, hbi⟩

theorem thoughtBefore_succ (h : Agrees J index blocks r) :
    ∀ i, r.lastThinkingBlock = some i → i < index + 1 :=
  fun i hi => Nat.lt_succ_of_lt (h.thoughtBefore i hi)

theorem text_block (h : Agrees J index blocks r) (htype : typeOf contentBlock ≠ some "tool_use")
    (hds : ∀ d ∈ ds, d.thinking = "" ∧ d.input = "") :
    Agrees J (index + 1) (blocks ++ [.text (joined (·.text) ds)])
      ((ds.foldl (Reading.readDelta index) (r.readStart J (some index) contentBlock)).readStop
      index) := by
  rw [Reading.readStart_of_not_tool htype, Reading.foldl_text hds,
    Reading.readStop_of_not_tool (by exact h.toolPosition_eq)]
  refine ⟨?_, ?_, ?_, h.thoughtBefore_succ, ?_, h.tools, h.toolsBefore_succ,
    Nat.le_succ_of_le h.fewTools⟩
  · rw [filterMap_concat, h.text]
    exact (joinWith_empty_concat _ _).symm
  · rw [filterMap_concat_none rfl]
    exact h.reasoning
  · rw [filterMap_concat_none rfl]
    exact h.thought
  · rw [filterMap_concat_none rfl]
    exact h.calls

theorem separator_eq (h : Agrees J index blocks r) :
    Reading.separator r.lastThinkingBlock index =
      if blocks.filterMap thinking? = [] then "" else "\n" := by
  cases hlast : r.lastThinkingBlock with
  | none => simp [Reading.separator, h.thought.mp hlast]
  | some i =>
    have hsome : blocks.filterMap thinking? ≠ [] :=
      fun hnil => by simp [h.thought.mpr hnil] at hlast
    have hlt := h.thoughtBefore i hlast
    have hne : i ≠ index := by omega
    simp [Reading.separator, hsome, hne]

theorem thinking_block (h : Agrees J index blocks r) (htype : typeOf contentBlock ≠ some "tool_use")
    (hds : ∀ d ∈ ds, d.text = "" ∧ d.input = "") :
    Agrees J (index + 1) (blocks ++ [.thinking (joined (·.thinking) ds)])
      ((ds.foldl (Reading.readDelta index) (r.readStart J (some index) contentBlock)).readStop
      index) := by
  rw [Reading.readStart_of_not_tool htype, Reading.foldl_thinking hds]
  split
  · next hempty =>
    rw [Reading.readStop_of_not_tool h.toolPosition_eq, hempty]
    refine ⟨?_, ?_, ?_, h.thoughtBefore_succ, ?_, h.tools, h.toolsBefore_succ,
      Nat.le_succ_of_le h.fewTools⟩
    · rw [filterMap_concat_none rfl]
      exact h.text
    · rw [filterMap_concat_none rfl]
      exact h.reasoning
    · rw [filterMap_concat_none rfl]
      exact h.thought
    · rw [filterMap_concat_none rfl]
      exact h.calls
  · next hne =>
    have hblock : thinking? (.thinking (joined (·.thinking) ds)) = some (joined (·.thinking) ds) :=
      if_neg hne
    rw [Reading.readStop_of_not_tool (by exact h.toolPosition_eq)]
    refine ⟨?_, ?_, ?_, ?_, ?_, h.tools, h.toolsBefore_succ, Nat.le_succ_of_le h.fewTools⟩
    · rw [filterMap_concat_none rfl]
      exact h.text
    · rw [filterMap_concat, hblock, Option.toList_some, joinWith_concat]
      simp only [h.separator_eq, h.reasoning]
      split
      · next hnil => simp [hnil, joinWith]
      · simp [String.append_assoc]
    · simp [hblock]
    · simp
    · rw [filterMap_concat_none rfl]
      exact h.calls

theorem other_block (h : Agrees J index blocks r) (htype : typeOf contentBlock ≠ some "tool_use")
    (hds : ∀ d ∈ ds, d.text = "" ∧ d.thinking = "") :
    Agrees J (index + 1) (blocks ++ [.other])
      ((ds.foldl (Reading.readDelta index) (r.readStart J (some index) contentBlock)).readStop
      index) := by
  rw [Reading.readStart_of_not_tool htype, Reading.foldl_other h.toolPosition_eq hds,
    Reading.readStop_of_not_tool h.toolPosition_eq]
  refine ⟨?_, ?_, ?_, h.thoughtBefore_succ, ?_, h.tools, h.toolsBefore_succ,
    Nat.le_succ_of_le h.fewTools⟩
  · rw [filterMap_concat_none rfl]
    exact h.text
  · rw [filterMap_concat_none rfl]
    exact h.reasoning
  · rw [filterMap_concat_none rfl]
    exact h.thought
  · rw [filterMap_concat_none rfl]
    exact h.calls

theorem tool_block (h : Agrees J index blocks r) (hindex : index < 2 ^ 64) {id name : String}
    {input : Value} (htype : typeOf contentBlock = some "tool_use")
    (hds : ∀ d ∈ ds, d.text = "" ∧ d.thinking = "")
    (hid : textOfMember contentBlock "id" = id) (hname : textOfMember contentBlock "name" = name)
    (harguments : J.Same (if joined (·.input) ds = "" then Reading.openingArguments J contentBlock
      else joined (·.input) ds) (toolArguments J input)) :
    Agrees J (index + 1) (blocks ++ [.toolUse id name input])
      ((ds.foldl (Reading.readDelta index) (r.readStart J (some index) contentBlock)).readStop
      index) := by
  have hlt : r.answer.calls.length < 2 ^ 64 := by
    have := h.fewTools
    rw [h.tools]
    omega
  rw [Reading.read_tool htype h.tools hlt hds]
  refine ⟨?_, ?_, ?_, h.thoughtBefore_succ, ?_, ?_, ?_, ?_⟩
  · rw [filterMap_concat_none rfl]
    exact h.text
  · rw [filterMap_concat_none rfl]
    exact h.reasoning
  · rw [filterMap_concat_none rfl]
    exact h.thought
  · rw [List.filterMap_append, List.map_append]
    refine List.rel_append h.calls ?_
    refine .cons ⟨hid, hname, harguments⟩ .nil
  · simp [h.tools]
  · intro b hb
    rcases List.mem_append.mp hb with hb | hb
    · exact h.toolsBefore_succ b hb
    · rw [List.mem_singleton.mp hb]
      exact ⟨index, Nat.lt_succ_self index, rfl⟩
  · simpa using h.fewTools

end Agrees

/-! ### The whole stream -/

namespace Reading

/-- What the content has no part in. -/
def rest (r : Reading) : Counts × Option FinishReason × Option UsageStats :=
  (r.counts, r.answer.finishReason, r.answer.usage)

theorem rest_readStart (J : Json.Text) (r : Reading) (index : Option Nat) (contentBlock : Value) :
    (r.readStart J index contentBlock).rest = r.rest := by
  simp only [readStart]
  split <;> rfl

theorem rest_readDelta (r : Reading) (index : Nat) (d : AnthropicStreamDelta) :
    (r.readDelta index d).rest = r.rest := by
  cases d with
  | textDelta t => rfl
  | thinkingDelta t =>
    simp only [readDelta]
    split <;> rfl
  | inputJsonDelta j =>
    simp only [readDelta]
    split
    · rfl
    · split <;> rfl
  | other => rfl

theorem rest_readStop (r : Reading) (index : Nat) : (r.readStop index).rest = r.rest := by
  simp only [readStop]
  split
  · split <;> rfl
  · rfl

theorem rest_foldl_readDelta (r : Reading) (index : Nat) (ds : List AnthropicStreamDelta) :
    (ds.foldl (readDelta index) r).rest = r.rest := by
  induction ds generalizing r with
  | nil => rfl
  | cons d ds ih => rw [List.foldl_cons, ih, rest_readDelta]

end Reading

theorem Deltas.foldl_read {J : Json.Text} {index : Nat} {ds : List AnthropicStreamDelta}
    {es : List AnthropicStreamEvent} (h : Deltas index ds es) (r : Reading) :
    es.foldl (Reading.read J) r = ds.foldl (Reading.readDelta index) r := by
  induction h generalizing r with
  | nil => rfl
  | delta _ ih => exact ih _
  | ping _ ih => exact ih r

theorem Deltas.mem {index : Nat} {ds : List AnthropicStreamDelta} {es : List AnthropicStreamEvent}
    (h : Deltas index ds es) {d : AnthropicStreamDelta} (hd : d ∈ ds) :
    .contentBlockDelta (some index) d ∈ es := by
  induction h with
  | nil => cases hd
  | delta _ ih =>
    rcases List.mem_cons.mp hd with rfl | hd
    · exact List.mem_cons_self
    · exact List.mem_cons_of_mem _ (ih hd)
  | ping _ ih => exact List.mem_cons_of_mem _ (ih hd)

theorem Deltas.isContent {index : Nat} {ds : List AnthropicStreamDelta}
    {es : List AnthropicStreamEvent} (h : Deltas index ds es) : ∀ e ∈ es, Reading.IsContent e := by
  induction h with
  | nil => simp
  | delta _ ih => simpa [Reading.IsContent] using ih
  | ping _ ih => simpa [Reading.IsContent] using ih

theorem Content.isContent {J : Json.Text} {index : Nat} {blocks : List AnthropicResponseBlock}
    {es : List AnthropicStreamEvent} (h : Content J index blocks es) :
    ∀ e ∈ es, Reading.IsContent e := by
  induction h with
  | nil => simp
  | ping _ ih => simpa [Reading.IsContent] using ih
  | block _ hmid _ ih =>
    intro e he
    simp only [List.cons_append, List.mem_cons, List.mem_append] at he
    rcases he with rfl | he | rfl | he
    · trivial
    · exact hmid.isContent e he
    · trivial
    · exact ih e he

/-- The block opens empty, if that matters. -/
def BlockOpensEmpty (contentBlock : Value) (ds : List AnthropicStreamDelta) : Prop :=
  (typeOf contentBlock = some "text" → textOfMember contentBlock "text" = "") ∧
  (typeOf contentBlock = some "thinking" → textOfMember contentBlock "thinking" = "") ∧
  (typeOf contentBlock = some "tool_use" → openingInput contentBlock ≠ [] →
    joined (·.input) ds = "")

theorem same_toolArguments {J : Json.Text} {contentBlock : Value} {ds : List AnthropicStreamDelta}
    {id name : String} {input : Value} (h : Carries J contentBlock ds (.toolUse id name input))
    (hempty : BlockOpensEmpty contentBlock ds) :
    J.Same
      (if joined (·.input) ds = "" then Reading.openingArguments J contentBlock
        else joined (·.input) ds)
      (toolArguments J input) := by
  obtain ⟨htype, -, -, -, ⟨hnone, hinput⟩ | ⟨hsome, fields, hreads, rfl⟩⟩ := h
  · rw [if_pos hnone, Reading.openingArguments]
    rcases hinput with rfl | ⟨rfl, hopening⟩
    · cases hopening : openingInput contentBlock with
      | nil =>
        rw [← J.print_empty]
        exact J.same_print _
      | cons e fields => exact J.same_print _
    · rw [hopening]
      simp only [toolArguments]
      rw [← J.print_empty]
      exact J.same_print _
  · have hopening : openingInput contentBlock = [] := by
      by_contra hne
      exact hsome (hempty.2.2 htype hne)
    rw [if_neg hsome, hopening, List.nil_append]
    exact ⟨.object fields, hreads, J.reads_print _⟩

theorem Agrees.block {J : Json.Text} {index : Nat} {blocks : List AnthropicResponseBlock}
    {r : Reading} {contentBlock : Value} {ds : List AnthropicStreamDelta}
    {block : AnthropicResponseBlock} (h : Agrees J index blocks r) (hindex : index < 2 ^ 64)
    (hcarries : Carries J contentBlock ds block) (hempty : BlockOpensEmpty contentBlock ds) :
    Agrees J (index + 1) (blocks ++ [block])
      ((ds.foldl (Reading.readDelta index) (r.readStart J (some index) contentBlock)).readStop
      index) := by
  cases block with
  | text text =>
    obtain ⟨htype, hds, rfl⟩ := hcarries
    rw [hempty.1 htype, String.empty_append]
    exact h.text_block (by simp [htype]) hds
  | thinking thinking =>
    obtain ⟨htype, hds, rfl⟩ := hcarries
    rw [hempty.2.1 htype, String.empty_append]
    exact h.thinking_block (by simp [htype]) hds
  | toolUse id name input =>
    have harguments := same_toolArguments hcarries hempty
    obtain ⟨htype, hds, hid, hname, -⟩ := hcarries
    exact h.tool_block hindex htype hds hid hname harguments
  | other =>
    obtain ⟨-, -, htype, hds⟩ := hcarries
    exact h.other_block htype hds

theorem OpensEmpty.mono {es es' : List AnthropicStreamEvent} (h : OpensEmpty es)
    (hsub : ∀ e ∈ es', e ∈ es) :
    OpensEmpty es' := by
  intro index contentBlock hstart
  obtain ⟨htext, hthinking, htool⟩ := h index contentBlock (hsub _ hstart)
  exact ⟨htext, hthinking, fun htype hne j hj => htool htype hne j (hsub _ hj)⟩

theorem OpensEmpty.block {es mid : List AnthropicStreamEvent} {index : Nat} {contentBlock : Value}
    {ds : List AnthropicStreamDelta} (h : OpensEmpty es)
    (hstart : .contentBlockStart (some index) contentBlock ∈ es) (hmid : Deltas index ds mid)
    (hsub : ∀ e ∈ mid, e ∈ es) : BlockOpensEmpty contentBlock ds := by
  obtain ⟨htext, hthinking, htool⟩ := h index contentBlock hstart
  refine ⟨htext, hthinking, fun htype hne => joined_eq_empty fun d hd => ?_⟩
  cases d with
  | inputJsonDelta j => exact htool htype hne j (hsub _ (hmid.mem hd))
  | _ => rfl

theorem Content.agrees {J : Json.Text} {index : Nat} {blocks before : List AnthropicResponseBlock}
    {es : List AnthropicStreamEvent} {r : Reading} (hcontent : Content J index blocks es)
    (h : Agrees J index before r) (hlt : index + blocks.length < 2 ^ 64) (hopens : OpensEmpty es) :
    Agrees J (index + blocks.length) (before ++ blocks) (es.foldl (Reading.read J) r) ∧
      (es.foldl (Reading.read J) r).rest = r.rest := by
  induction hcontent generalizing r before with
  | nil => simpa using h
  | ping _ ih => exact ih h hlt (hopens.mono fun e he => List.mem_cons_of_mem _ he)
  | @block index block blocks contentBlock ds mid es hcarries hmid _ ih =>
    simp only [List.length_cons] at hlt ⊢
    have hempty := hopens.block List.mem_cons_self hmid fun e he => by simp [he]
    have hnext := h.block (by omega) hcarries hempty
    obtain ⟨hagrees, hrest⟩ := ih hnext (by omega) (hopens.mono fun e he => by simp [he])
    have hread : (AnthropicStreamEvent.contentBlockStart (some index) contentBlock :: mid ++
        .contentBlockStop (some index) :: es).foldl (Reading.read J) r =
        es.foldl (Reading.read J)
          ((ds.foldl (Reading.readDelta index) (r.readStart J (some index) contentBlock)).readStop
            index) := by
      rw [List.cons_append, List.foldl_cons, List.foldl_append, hmid.foldl_read, List.foldl_cons]
      rfl
    rw [hread]
    refine ⟨?_, ?_⟩
    · rw [List.append_cons, show index + (blocks.length + 1) = index + 1 + blocks.length by omega]
      exact hagrees
    · rw [hrest, Reading.rest_readStop, Reading.rest_foldl_readDelta, Reading.rest_readStart]

section

variable (J : Json.Text) (raw : AnthropicResponse)

theorem ofResponse_text :
    (Answer.ofResponse (responseIntoChatResponse J raw)).text =
    joinWith "" (raw.content.filterMap text?) := by
  simp only [Answer.ofResponse, responseIntoChatResponse]
  split
  · rfl
  · next hnil =>
    rw [not_not.mp hnil]
    rfl

theorem ofResponse_reasoning :
    (Answer.ofResponse (responseIntoChatResponse J raw)).reasoning =
      joinWith "\n" (raw.content.filterMap thinking?) := by
  simp only [Answer.ofResponse, responseIntoChatResponse]
  by_cases hreasoning : joinWith "\n" (raw.content.filterMap thinking?) = "" <;>
    by_cases hcalls : raw.content.filterMap (toolCall? J) = [] <;>
      simp [hreasoning, hcalls, List.lookup_cons, Value.asStr?]

theorem ofResponse_calls :
    (Answer.ofResponse (responseIntoChatResponse J raw)).calls =
      (raw.content.filterMap (toolCall? J)).map Call.ofValue := by
  simp only [Answer.ofResponse, responseIntoChatResponse]
  by_cases hreasoning : joinWith "\n" (raw.content.filterMap thinking?) = "" <;>
    by_cases hcalls : raw.content.filterMap (toolCall? J) = [] <;>
      simp [hreasoning, hcalls, List.lookup_cons, Value.items]

end

theorem max_of_reports {whole : Nat} {start delta : Option Nat} (h : Reports whole start delta 0) :
    max (start.getD 0) (delta.getD 0) = whole := by
  obtain ⟨rfl | rfl, rfl | rfl, hnone⟩ := h
  · exact (hnone rfl rfl).symm
  · exact Nat.max_eq_right (Nat.zero_le _)
  · exact Nat.max_eq_left (Nat.zero_le _)
  · exact Nat.max_self _

theorem maxFieldwise_of_reports {whole : CacheCreationTtl} {start delta : Option Value}
    (h : Reports whole (start.map fun v => .fromAnthropic (some v))
      (delta.map fun v => .fromAnthropic (some v)) .NONE) :
    (CacheCreationTtl.fromAnthropic start).maxFieldwise (.fromAnthropic delta) = whole := by
  obtain ⟨hstart, hdelta, hnone⟩ := h
  cases start with
  | none =>
    cases delta with
    | none => exact (hnone rfl rfl).symm
    | some d =>
      rcases hdelta with hd | hd
      · cases hd
      · exact Option.some.inj hd
  | some v =>
    have hv : CacheCreationTtl.fromAnthropic (some v) = whole := by
      rcases hstart with hv | hv
      · cases hv
      · exact Option.some.inj hv
    cases delta with
    | none => simp [hv]
    | some d =>
      rcases hdelta with hd | hd
      · cases hd
      · have hd : CacheCreationTtl.fromAnthropic (some d) = whole := Option.some.inj hd
        rw [hv, hd, CacheCreationTtl.maxFieldwise_self]

namespace StreamState

variable (J : Json.Text)

theorem reading_step (sa : StreamState × Answer) (event : AnthropicStreamEvent) :
    (step J sa event).1.reading (step J sa event).2 = sa.1.readEvent J sa.2 event :=
  reading_nextChunk J sa.1 sa.2 event

/-- The counts a `message_start` brings. -/
def startCounts (usage : Option AnthropicStreamStartUsage) : Counts where
  inputTokens := (usage.bind (·.inputTokens)).getD 0
  cacheCreationTokens := (usage.bind (·.cacheCreationInputTokens)).getD 0
  cacheReadTokens := (usage.bind (·.cacheReadInputTokens)).getD 0
  cacheCreationTtl := .fromAnthropic (usage.bind (·.cacheCreation))

/-- The usage a `message_delta` closes with. -/
def closingUsage (counts : Counts) (usage : Option AnthropicStreamUsage) : Option UsageStats :=
  usage.bind fun u => u.outputTokens.map fun n =>
    usageStats (max counts.inputTokens (u.inputTokens.getD 0))
      n (max counts.cacheCreationTokens (u.cacheCreationInputTokens.getD 0))
      (max counts.cacheReadTokens (u.cacheReadInputTokens.getD 0))
      (counts.cacheCreationTtl.maxFieldwise (.fromAnthropic u.cacheCreation)) u.serverToolUse
        u.outputTokensDetails

theorem readEvent_messageDelta (s : StreamState) (a : Answer) (stopReason : Option String)
    (usage : Option AnthropicStreamUsage) :
    (s.readEvent J a (.messageDelta stopReason usage)).answer =
      { a with
        finishReason := (stopReason.map fun r => mapStopReason (some r)).or a.finishReason
        usage := (closingUsage (s.reading a).counts usage).or a.usage } := by
  cases usage with
  | none =>
    cases stopReason <;> simp [readEvent, update, translate, closingUsage, reading,
      gather, Answer.add, bareChunk, ChatDelta.default]
  | some u =>
    cases houtput : u.outputTokens <;> cases stopReason <;>
      simp [readEvent, update, translate, closingUsage, reading, gather, Answer.add, bareChunk,
        ChatDelta.default, houtput]

end StreamState

theorem closingUsage_of_reports {usage : Option AnthropicUsage}
    {start : Option AnthropicStreamStartUsage} {delta : Option AnthropicStreamUsage}
    (h : ReportsUsage usage start delta) :
    StreamState.closingUsage (StreamState.startCounts start) delta = usage.map fun u =>
      usageStats u.inputTokens u.outputTokens u.cacheCreationInputTokens u.cacheReadInputTokens
        (.fromAnthropic u.cacheCreation) u.serverToolUse u.outputTokensDetails := by
  cases usage with
  | none =>
    obtain ⟨-, rfl⟩ := h
    rfl
  | some u =>
    obtain ⟨d, rfl, houtput, hdetails, htools, hinput, hcreation, hread, httl⟩ := h
    simp only [StreamState.closingUsage, StreamState.startCounts, Option.bind_some, houtput,
      Option.map_some, hdetails, htools, max_of_reports hinput, max_of_reports hcreation,
      max_of_reports hread, maxFieldwise_of_reports httl]

/-- **A stream and its whole answer.** Where text and thinking open empty, and tool blocks too
unless their input came whole, the chunks merge to the text, the reasoning, the calls and the usage
the body is read as, and to its finish reason if the answer has a stop reason. -/
theorem stream_agrees (J : Json.Text) (raw : AnthropicResponse) (events : List AnthropicStreamEvent)
    (hstream : IsStreamOf J raw events) (hopens : OpensEmpty events) :
    let streamed := Answer.merge (StreamState.default.chunks J events)
    let whole := Answer.ofResponse (responseIntoChatResponse J raw)
    streamed.text = whole.text ∧ streamed.reasoning = whole.reasoning ∧
      List.Forall₂ (Call.Same J) streamed.calls whole.calls ∧
      (raw.stopReason.isSome → streamed.finishReason = whole.finishReason) ∧
      some (streamed.usage.getD .default) = whole.usage := by
  obtain ⟨message, content, usage, rfl, hcontent, hreports⟩ := hstream
  intro streamed whole
  -- the reading behind `message_start`, then behind the content
  generalize hstarted : StreamState.step J (.default, .empty) (.messageStart message) = started
  have hstart : started.1.reading started.2 =
      ⟨none, [], StreamState.startCounts message.usage, .empty⟩ := by
    rw [← hstarted]
    exact StreamState.reading_step J _ _
  have hnothing : Agrees J 0 [] (started.1.reading started.2) := by
    rw [hstart]
    exact ⟨rfl, rfl, by simp, by simp, .nil, rfl, by simp, Nat.le_refl 0⟩
  have hagrees := hcontent.agrees hnothing (by simpa using raw.content_lt)
    (hopens.mono fun e he => by simp [he])
  rw [← Reading.foldl_read J started.1 started.2 hcontent.isContent, Nat.zero_add,
    List.nil_append] at hagrees
  generalize hread : content.foldl (StreamState.step J) started = read at hagrees
  obtain ⟨hagrees, hrest⟩ := hagrees
  rw [hstart] at hrest
  obtain ⟨hcounts, hfinish, husage⟩ :
      (read.1.reading read.2).counts = StreamState.startCounts message.usage ∧
      read.2.finishReason = none ∧ read.2.usage = none := by
    simpa [Reading.rest, StreamState.reading, Answer.empty] using hrest
  have hstreamed : streamed = { read.2 with
      finishReason := raw.stopReason.map fun r => mapStopReason (some r)
      usage := StreamState.closingUsage (StreamState.startCounts message.usage) usage } := by
    have hclosed := congrArg Reading.answer
      (StreamState.reading_step J read (.messageDelta raw.stopReason usage))
    rw [StreamState.readEvent_messageDelta, hcounts, hfinish, husage, Option.or_none,
      Option.or_none] at hclosed
    have hrun : streamed =
        (StreamState.step J (StreamState.step J read (.messageDelta raw.stopReason usage))
          .messageStop).2 := by
      simp only [streamed, Answer.merge, StreamState.foldl_chunks, List.cons_append,
        List.foldl_cons, List.foldl_append, List.foldl_nil, hstarted, hread]
    have hstopped := congrArg Reading.answer
      (StreamState.reading_step J
        (StreamState.step J read (.messageDelta raw.stopReason usage)) .messageStop)
    exact hrun.trans (hstopped.trans hclosed)
  rw [hstreamed]
  refine ⟨?_, ?_, ?_, ?_, ?_⟩
  · exact hagrees.text.trans (ofResponse_text J raw).symm
  · exact hagrees.reasoning.trans (ofResponse_reasoning J raw).symm
  · rw [show whole.calls = _ from ofResponse_calls J raw]
    exact hagrees.calls
  · intro hstop
    obtain ⟨r, hr⟩ := Option.isSome_iff_exists.mp hstop
    simp [whole, Answer.ofResponse, responseIntoChatResponse, hr]
  · rw [closingUsage_of_reports hreports]
    cases hbody : raw.usage <;> simp [whole, Answer.ofResponse, responseIntoChatResponse, hbody]

/-- Objects of truth values, as they are printed. -/
def plainFields : List (String × Value) → String
  | [] => ""
  | [(key, .bool b)] => "\"" ++ key ++ "\":" ++ toString b
  | (key, .bool b) :: rest => "\"" ++ key ++ "\":" ++ toString b ++ "," ++ plainFields rest
  | _ => ""

def plainText : Json.Text where
  print
    | .object fields => "\x7b" ++ plainFields fields ++ "\x7d"
    | .bool b => toString b
    | _ => "null"
  Reads text v := text =
    match v with
    | .object fields => "\x7b" ++ plainFields fields ++ "\x7d"
    | .bool b => toString b
    | _ => "null"
  reads_print := fun _ => rfl
  print_empty := rfl

def textStart (text : String) : Value := .object [("type", .string "text"), ("text", .string text)]

def toolStart (id name : String) (input : List (String × Value)) : Value :=
  .object [("type", .string "tool_use"), ("id", .string id), ("name", .string name),
    ("input", .object input)]

def sampleAnswer (block : AnthropicResponseBlock) (stopReason : Option String) :
    AnthropicResponse :=
  ⟨"msg", "model", [block], stopReason, none, by simp⟩

/-- The answer's one block, streamed with one delta. -/
def sampleEvents (start : Value) (delta : AnthropicStreamDelta) (stopReason : Option String) :
    List AnthropicStreamEvent :=
  .messageStart ⟨"msg", "model", none⟩ ::
    [.contentBlockStart (some 0) start, .contentBlockDelta (some 0) delta,
      .contentBlockStop (some 0)] ++ [.messageDelta stopReason none, .messageStop]

theorem isStreamOf_sample {J : Json.Text} {start : Value} {delta : AnthropicStreamDelta}
    {block : AnthropicResponseBlock} (stopReason : Option String)
    (h : Carries J start [delta] block) :
    IsStreamOf J (sampleAnswer block stopReason) (sampleEvents start delta stopReason) :=
  ⟨⟨"msg", "model", none⟩, _, none, rfl, .block h (.delta .nil) .nil, rfl, rfl⟩

theorem stream_agrees_tool :
    let streamed := Answer.merge (StreamState.default.chunks plainText
      (sampleEvents (toolStart "t" "f" []) (.inputJsonDelta "\x7b\"a\":true\x7d")
        (some "tool_use")))
    let whole := Answer.ofResponse (responseIntoChatResponse plainText
      (sampleAnswer (.toolUse "t" "f" (.object [("a", .bool true)])) (some "tool_use")))
    streamed.text = whole.text ∧ streamed.reasoning = whole.reasoning ∧
      List.Forall₂ (Call.Same plainText) streamed.calls whole.calls ∧
      ((some "tool_use").isSome → streamed.finishReason = whole.finishReason) ∧
      some (streamed.usage.getD .default) = whole.usage :=
  stream_agrees plainText _ _
    (isStreamOf_sample (some "tool_use")
      ⟨rfl, by decide, rfl, rfl, .inr ⟨by decide, [("a", .bool true)], rfl, rfl⟩⟩)
    (by
      intro index contentBlock hstart
      simp only [sampleEvents, List.cons_append, List.mem_cons, reduceCtorEq, false_or,
        AnthropicStreamEvent.contentBlockStart.injEq, List.nil_append, List.not_mem_nil,
        or_false] at hstart
      obtain ⟨-, rfl⟩ := hstart
      exact ⟨by decide, by decide, fun _ hne => absurd rfl hne⟩)

/-- The input a tool block opens with gives way to its fragments, and a stream without a stop reason
has no finish. -/
theorem stream_disagrees :
    (IsStreamOf plainText
        (sampleAnswer (.toolUse "t" "f" (.object [("a", .bool true), ("b", .bool false)]))
          (some "tool_use"))
        (sampleEvents (toolStart "t" "f" [("a", .bool true)])
          (.inputJsonDelta "\x7b\"b\":false\x7d") (some "tool_use")) ∧
      ¬List.Forall₂ (Call.Same plainText)
        (Answer.merge (StreamState.default.chunks plainText
          (sampleEvents (toolStart "t" "f" [("a", .bool true)])
            (.inputJsonDelta "\x7b\"b\":false\x7d") (some "tool_use")))).calls
        (Answer.ofResponse (responseIntoChatResponse plainText
          (sampleAnswer (.toolUse "t" "f" (.object [("a", .bool true), ("b", .bool false)]))
            (some "tool_use")))).calls) ∧
    IsStreamOf plainText (sampleAnswer (.text "Hi") none)
      (sampleEvents (textStart "") (.textDelta "Hi") none) ∧
      (Answer.merge (StreamState.default.chunks plainText
        (sampleEvents (textStart "") (.textDelta "Hi") none))).finishReason ≠
      (Answer.ofResponse (responseIntoChatResponse plainText
        (sampleAnswer (.text "Hi") none))).finishReason := by
  refine ⟨⟨isStreamOf_sample _ ?_, ?_⟩, isStreamOf_sample _ ⟨rfl, by decide, rfl⟩, by decide⟩
  · exact ⟨rfl, by decide, rfl, rfl, .inr ⟨by decide, [("b", .bool false)], rfl, rfl⟩⟩
  · intro hcalls
    cases hcalls with
    | cons hfirst _ =>
      obtain ⟨-, -, v, hstreamed, hwhole⟩ := hfirst
      exact absurd (hstreamed.trans hwhole.symm) (by decide)

end Anthropic
end Aisix
