import Aisix.Anthropic.SseEncoder
import Aisix.Anthropic.StreamState

/-!
# Aisix.Anthropic.Reading

What a client puts together from the chunks of a streamed answer. `Reading` keeps that beside the
little the decoder's later chunks depend on; on events that carry their index the decoder moves as
`read` does (`reading_nextChunk`).
-/

namespace Aisix
namespace Anthropic

open Json

structure Call where
  id : String
  name : String
  arguments : String
  deriving DecidableEq, Repr

def Call.ofValue (tc : Value) : Call := ⟨callId tc, callName tc, callArguments tc⟩

/-- A fragment goes to the call of its index, or starts the next call. -/
def mergeCall (calls : List Call) (tc : Value) : List Call :=
  if callIndex tc < calls.length then
    calls.modify (callIndex tc) fun c =>
      ⟨c.id ++ callId tc, c.name ++ callName tc, c.arguments ++ callArguments tc⟩
  else calls ++ [.ofValue tc]

/-- An answer, as far as it has come. -/
structure Answer where
  text : String
  reasoning : String
  calls : List Call
  finishReason : Option FinishReason
  usage : Option UsageStats

namespace Answer

def empty : Answer := ⟨"", "", [], none, none⟩

def add (a : Answer) (chunk : ChatChunk) : Answer where
  text := a.text ++ chunk.delta.content.getD ""
  reasoning := a.reasoning ++ chunk.delta.reasoningContent.getD ""
  calls := (chunk.delta.toolCalls.getD []).foldl mergeCall a.calls
  finishReason := chunk.finishReason.or a.finishReason
  usage := chunk.usage.or a.usage

/-- The chunks merged. -/
def merge (chunks : List ChatChunk) : Answer := chunks.foldl add empty

end Answer

/-- The tokens of the prompt, so far. -/
structure Counts where
  inputTokens : Nat
  cacheCreationTokens : Nat
  cacheReadTokens : Nat
  cacheCreationTtl : CacheCreationTtl

structure Reading where
  lastThinkingBlock : Option Nat
  toolBlocks : List (Option Nat × Option String)
  counts : Counts
  answer : Answer

namespace Reading

def toolPosition (r : Reading) (index : Nat) : Option Nat :=
  rposition (fun b => decide (b.1 = some index)) r.toolBlocks

def call (r : Reading) (tc : Value) : Reading :=
  { r with answer := { r.answer with calls := mergeCall r.answer.calls tc } }

def dropInput (r : Reading) (pos : Nat) : Reading :=
  { r with toolBlocks := r.toolBlocks.modify pos fun b => (b.1, none) }

def readStart (J : Json.Text) (r : Reading) (index : Option Nat) (contentBlock : Value) : Reading :=
  match streamToolUse J contentBlock with
  | some (id, name, input) =>
    { r with toolBlocks := r.toolBlocks ++ [(index, some (input.getD "\x7b\x7d"))] }.call
      (StreamState.openingFragment r.toolBlocks.length id name)
  | none => r

/-- A later thinking block starts on a line of its own. -/
def separator (lastThinkingBlock : Option Nat) (index : Nat) : String :=
  if lastThinkingBlock.isSome && decide (lastThinkingBlock ≠ some index) then "\n" else ""

def readDelta (index : Nat) (r : Reading) : AnthropicStreamDelta → Reading
  | .textDelta text => { r with answer := { r.answer with text := r.answer.text ++ text } }
  | .thinkingDelta thinking =>
    if thinking = "" then r
    else
      { r with
        lastThinkingBlock := some index
        answer := { r.answer with
          reasoning := r.answer.reasoning ++ (separator r.lastThinkingBlock index ++ thinking) } }
  | .inputJsonDelta partialJson =>
    if partialJson = "" then r
    else
      match r.toolPosition index with
      | some pos => (r.dropInput pos).call (StreamState.argumentsFragment pos partialJson)
      | none => r
  | .other => r

def readStop (index : Nat) (r : Reading) : Reading :=
  match r.toolPosition index with
  | some pos =>
    match (r.toolBlocks[pos]?).bind (·.2) with
    | some arguments => (r.dropInput pos).call (StreamState.argumentsFragment pos arguments)
    | none => r.dropInput pos
  | none => r

end Reading

namespace StreamState

def reading (s : StreamState) (a : Answer) : Reading :=
  ⟨s.lastThinkingBlock, s.toolBlocks,
    ⟨s.inputTokens, s.cacheCreationTokens, s.cacheReadTokens, s.cacheCreationTtl⟩, a⟩

/-- The answer with a chunk's part, if there is a chunk. -/
def gather (a : Answer) (chunk : Option ChatChunk) : Answer := chunk.elim a a.add

/-- One event for the client: the chunk is put to the answer. -/
def step (J : Json.Text) (sa : StreamState × Answer) (event : AnthropicStreamEvent) :
    StreamState × Answer :=
  ((sa.1.nextChunk J event).2, gather sa.2 (sa.1.nextChunk J event).1)

theorem foldl_chunks (J : Json.Text) (s : StreamState) (a : Answer)
    (events : List AnthropicStreamEvent) :
    (s.chunks J events).foldl Answer.add a = (events.foldl (step J) (s, a)).2 := by
  induction events generalizing s a with
  | nil => rfl
  | cons event rest ih =>
    rw [chunks, List.foldl_append, ih, List.foldl_cons, step]
    congr 2
    cases (s.nextChunk J event).1 <;> rfl

theorem reading_nextChunk (J : Json.Text) (s : StreamState) (a : Answer)
    (event : AnthropicStreamEvent) :
    (s.nextChunk J event).2.reading (gather a (s.nextChunk J event).1) =
      (s.update J event).reading (gather a ((s.update J event).translate J event)) := by
  simp only [nextChunk, toChunk]
  generalize (s.update J event).translate J event = made
  generalize s.update J event = s'
  cases made with
  | none => rfl
  | some chunk =>
    obtain ⟨id, model, input, creation, read, ttl, tier, last, changed, tools, opened,
        touched, closing, start,
      sent⟩ := s'
    obtain ⟨chunkId, chunkModel, index, delta, finish, logprobs, usage, chunkTier, accounting⟩ :=
      chunk
    cases sent <;> cases start <;> cases usage <;> rfl

section

variable (J : Json.Text) (s : StreamState) (a : Answer)

@[simp] theorem gather_none : gather a none = a := rfl

theorem gather_call (tc : Value) :
    gather a (some (s.toolCallChunk tc)) = { a with calls := mergeCall a.calls tc } := by
  simp [gather, Answer.add, toolCallChunk, bareChunk, ChatDelta.default]

theorem gather_text (text : String) :
    gather a (some { s.bareChunk with delta := { ChatDelta.default with content := some text } }) =
      { a with text := a.text ++ text } := by
  simp [gather, Answer.add, bareChunk, ChatDelta.default]

theorem gather_reasoning (reasoning : String) :
    gather a (some { s.bareChunk with
      delta := { ChatDelta.default with reasoningContent := some reasoning } }) =
      { a with reasoning := a.reasoning ++ reasoning } := by
  simp [gather, Answer.add, bareChunk, ChatDelta.default]

theorem toolPosition_reading (index : Nat) :
    (s.reading a).toolPosition index = s.toolPosition (some index) := rfl

/-- The event's chunk, and the decoder behind it. -/
def readEvent (event : AnthropicStreamEvent) : Reading :=
  (s.update J event).reading (gather a ((s.update J event).translate J event))

theorem readEvent_start (index : Option Nat) (contentBlock : Value) :
    s.readEvent J a (.contentBlockStart index contentBlock) =
      (s.reading a).readStart J index contentBlock := by
  cases h : streamToolUse J contentBlock with
  | none => simp [readEvent, update, translate, h, reading, Reading.readStart]
  | some tool =>
    obtain ⟨id, name, input⟩ := tool
    simp only [readEvent, update, translate, h, Reading.readStart, gather_call]
    rfl

theorem readEvent_delta (index : Nat) (delta : AnthropicStreamDelta) :
    s.readEvent J a (.contentBlockDelta (some index) delta) =
      (s.reading a).readDelta index delta := by
  cases delta with
  | textDelta text =>
    simp only [readEvent, update, translate, gather_text, Reading.readDelta]
    rfl
  | thinkingDelta thinking =>
    by_cases h : thinking = ""
    · simp [readEvent, update, translate, reading, Reading.readDelta, h]
    · simp only [readEvent, update, translate, Reading.readDelta, if_neg h,
        gather_reasoning, reading]
      split
      · next hchanged => rw [Reading.separator, if_pos hchanged]
      · next hsame => rw [Reading.separator, if_neg hsame, String.empty_append]
  | inputJsonDelta partialJson =>
    by_cases h : partialJson = ""
    · simp [readEvent, update, translate, reading, Reading.readDelta, h]
    · have hposition :
          { s with eventTool := none }.toolPosition (some index) = s.toolPosition (some index) :=
          rfl
      simp only [readEvent, update, translate, Reading.readDelta, if_neg h,
        toolPosition_reading, hposition]
      cases s.toolPosition (some index) with
      | none => rfl
      | some pos =>
        simp only [Option.map_some, gather_call]
        rfl
  | other => rfl

theorem readEvent_stop (index : Nat) :
    s.readEvent J a (.contentBlockStop (some index)) = (s.reading a).readStop index := by
  have hposition :
      { s with eventTool := none }.toolPosition (some index) = s.toolPosition (some index) := rfl
  have htools : (s.reading a).toolBlocks = s.toolBlocks := rfl
  simp only [readEvent, update, Reading.readStop, toolPosition_reading, hposition, htools]
  cases s.toolPosition (some index) with
  | none => rfl
  | some pos =>
    cases hinput : (s.toolBlocks[pos]?).bind (·.2) with
    | none => simp only [hinput]; rfl
    | some arguments =>
      simp only [hinput, translate, Option.isSome_some, if_pos, gather_call]
      rfl

end

end StreamState

namespace Reading

/-- The events of the content, each with its index. -/
def read (J : Json.Text) (r : Reading) : AnthropicStreamEvent → Reading
  | .contentBlockStart index contentBlock => r.readStart J index contentBlock
  | .contentBlockDelta (some index) delta => r.readDelta index delta
  | .contentBlockStop (some index) => r.readStop index
  | _ => r

def IsContent : AnthropicStreamEvent → Prop
  | .contentBlockStart (some _) _ => True
  | .contentBlockDelta (some _) _ => True
  | .contentBlockStop (some _) => True
  | .other => True
  | _ => False

theorem read_step (J : Json.Text) (s : StreamState) (a : Answer) {event : AnthropicStreamEvent}
    (h : IsContent event) :
    (StreamState.step J (s, a) event).1.reading (StreamState.step J (s, a) event).2 =
      (s.reading a).read J event := by
  refine (StreamState.reading_nextChunk J s a event).trans ?_
  match event with
  | .contentBlockStart index contentBlock => exact s.readEvent_start J a index contentBlock
  | .contentBlockDelta (some index) delta => exact s.readEvent_delta J a index delta
  | .contentBlockStop (some index) => exact s.readEvent_stop J a index
  | .other => rfl

/-- **The decoder moves as the reading does**, event after event of the content. -/
theorem foldl_read (J : Json.Text) (s : StreamState) (a : Answer)
    {events : List AnthropicStreamEvent} (h : ∀ event ∈ events, IsContent event) :
    (events.foldl (StreamState.step J) (s, a)).1.reading
    (events.foldl (StreamState.step J) (s, a)).2 =
      events.foldl (read J) (s.reading a) := by
  induction events generalizing s a with
  | nil => rfl
  | cons event rest ih =>
    rw [List.foldl_cons, List.foldl_cons, ← read_step J s a (h event (by simp))]
    exact ih _ _ fun e he => h e (by simp [he])

end Reading

end Anthropic
end Aisix
