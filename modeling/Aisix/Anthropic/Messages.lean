import Aisix.Anthropic.Blocks

/-!
# Aisix.Anthropic.Messages

A chat stream, chunk after chunk and then its end, through the encoder: what comes out is one
message with whole blocks (`encode_wellFormed`).
-/

namespace Aisix
namespace Anthropic

open Json BlockStream

/-- The first choice's chunks, up to its finish. -/
def answer : List ChatChunk → List ChatChunk
  | [] => []
  | chunk :: rest =>
    chunk.firstChoiceOnly :: if chunk.firstChoiceOnly.finishReason.isSome then [] else answer rest

def textSent (chunks : List ChatChunk) : String := joined (fun chunk => textOf chunk.delta) chunks

def reasoningSent (chunks : List ChatChunk) : String :=
  joined (fun chunk => reasoningOf chunk.delta) chunks

/-- The fragments of tool calls, in the order of arrival. -/
def fragmentsSent (chunks : List ChatChunk) : List Value :=
  chunks.flatMap fun chunk => chunk.delta.toolCalls.getD []

/-- No reasoning comes while a call has its name and no call has its block: `fs` are the fragments
before. -/
def Quiet (fs : List Value) : List ChatChunk → Prop
  | [] => True
  | chunk :: rest =>
    (reasoningOf chunk.delta ≠ "" → (∃ tc ∈ fs, callName tc ≠ "") →
      ∃ tc ∈ fs, callName tc ≠ "" ∧ Identified fs (callIndex tc)) ∧
    Quiet (fs ++ chunk.delta.toolCalls.getD []) rest

instance : (fs : List Value) → (chunks : List ChatChunk) → Decidable (Quiet fs chunks)
  | _, [] => inferInstanceAs (Decidable True)
  | fs, chunk :: rest =>
    have : Decidable (Quiet (fs ++ chunk.delta.toolCalls.getD []) rest) := instDecidableQuiet _ rest
    inferInstanceAs (Decidable (_ ∧ _))

/-! ### What the blocks leave alone -/

namespace AnthropicSseEncoder

/-- The fields the blocks have no part in. -/
def frame (s : AnthropicSseEncoder) : AnthropicSseEvent × Bool × Bool × Option String :=
  (s.messageStartEvent, s.sentMessageStart, s.finished, s.pendingStopReason)

theorem frame_eq_iff {s s' : AnthropicSseEncoder} :
    s'.frame = s.frame ↔ s'.messageStartEvent = s.messageStartEvent ∧
      s'.sentMessageStart = s.sentMessageStart ∧ s'.finished = s.finished ∧
      s'.pendingStopReason = s.pendingStopReason := by
  simp [frame]

theorem frame_closeThinkingBlock (s : AnthropicSseEncoder) :
    s.closeThinkingBlock.2.frame = s.frame := by
  simp only [closeThinkingBlock]
  split <;> rfl

theorem frame_openAllNamed (s : AnthropicSseEncoder) (ks : List Nat) :
    (s.openAllNamed ks).2.frame = s.frame := by
  induction ks generalizing s with
  | nil => rfl
  | cons k ks ih =>
    simp only [openAllNamed, ih]
    by_cases h : (s.call k).started = false ∧ (s.call k).name ≠ ""
    · rw [openNamed_of_waiting h]
      rfl
    · rw [openNamed_of_not h]

theorem frame_closeOpenBlocks (s : AnthropicSseEncoder) : s.closeOpenBlocks.2.frame = s.frame := by
  rw [← s.frame_openAllNamed s.toolCalls.keys]
  simp only [closeOpenBlocks, writeHeld]
  split <;> rfl

theorem frame_readReasoning (s : AnthropicSseEncoder) (reasoning : String) :
    (s.readReasoning reasoning).2.frame = s.frame := by
  simp only [readReasoning]
  split
  · rfl
  · split
    · rfl
    · split
      · rfl
      · exact s.frame_closeOpenBlocks

theorem frame_readText (s : AnthropicSseEncoder) (text : String) :
    (s.readText text).2.frame = s.frame := by
  simp only [readText]
  split
  · rfl
  · split <;> rfl

theorem frame_readToolCalls (s : AnthropicSseEncoder) (tcs : List Value) :
    (s.readToolCalls tcs).2.frame = s.frame := by
  induction tcs generalizing s with
  | nil => rfl
  | cons tc tcs ih => exact ih (s.readToolCall tc).2

theorem frame_readDelta (s : AnthropicSseEncoder) (delta : ChatDelta) :
    (s.readDelta delta).2.frame = s.frame := by
  simp only [readDelta, frame_readToolCalls, frame_readText]
  split
  · rw [frame_closeThinkingBlock, frame_readReasoning]
  · exact s.frame_readReasoning _

theorem readDelta_of_empty (s : AnthropicSseEncoder) {delta : ChatDelta}
    (hreasoning : reasoningOf delta = "")
    (htext : textOf delta = "") (hcalls : delta.toolCalls.getD [] = []) :
    s.readDelta delta = ([], s) := by
  simp [readDelta, readReasoning, readText, readToolCalls, hreasoning, htext, hcalls]

/-- The encoder as the chunk's blocks find it. -/
def begun (s : AnthropicSseEncoder) (chunk : ChatChunk) : AnthropicSseEncoder :=
  ((s.noteRefusal chunk.delta).startMessage chunk).2

/-- The start of the message, where it is still to come. -/
def opening (s : AnthropicSseEncoder) : List AnthropicSseEvent :=
  if s.sentMessageStart then [] else [s.messageStartEvent]

theorem opening_eq {s s' : AnthropicSseEncoder} (h : s'.frame = s.frame) :
    s'.opening = s.opening := by
  obtain ⟨hstart, hsent, -⟩ := frame_eq_iff.mp h
  rw [opening, opening, hstart, hsent]

theorem noteRefusal_eq (s : AnthropicSseEncoder) (delta : ChatDelta) :
    s.noteRefusal delta = { s with refused := s.refused || decide (refusalOf delta ≠ "") } := by
  simp only [noteRefusal]
  split
  · next h => simp [h]
  · next h => simp [not_not.mp h]

theorem startMessage_snd (s : AnthropicSseEncoder) (chunk : ChatChunk) :
    (s.startMessage chunk).2 =
    { s with sentMessageStart := s.sentMessageStart || decide (s.Opens chunk) } := by
  simp only [startMessage]
  split
  · next h => simp [h]
  · next h => simp [h]

theorem begun_eq (s : AnthropicSseEncoder) (chunk : ChatChunk) :
    s.begun chunk =
      { s with
        refused := s.refused || decide (refusalOf chunk.delta ≠ "")
        sentMessageStart := s.sentMessageStart || decide (s.Opens chunk) } := by
  rw [begun, noteRefusal_eq, startMessage_snd]
  rfl

/-- The start of the message, if the chunk brings it. -/
def starting (s : AnthropicSseEncoder) (chunk : ChatChunk) : List AnthropicSseEvent :=
  if s.Opens chunk then [s.messageStartEvent] else []

theorem startMessage_eq (s : AnthropicSseEncoder) (chunk : ChatChunk) :
    (s.noteRefusal chunk.delta).startMessage chunk = (s.starting chunk, s.begun chunk) := by
  refine Prod.ext ?_ rfl
  rw [noteRefusal_eq, startMessage, starting]
  split
  · next hopens => exact (if_pos (show s.Opens chunk from hopens)).symm
  · next hopens => exact (if_neg (show ¬s.Opens chunk from hopens)).symm

theorem starting_of_finish (s : AnthropicSseEncoder) (chunk : ChatChunk)
    (h : chunk.finishReason.isSome) : s.starting chunk = s.opening := by
  cases hsent : s.sentMessageStart <;> simp [starting, opening, Opens, hsent, h]

theorem starting_blocks (s : AnthropicSseEncoder) (chunk : ChatChunk) :
    s.starting chunk ++ ((s.begun chunk).readDelta chunk.delta).1.map .contentBlock ++
      (s.begun chunk).opening = s.opening ++
      ((s.begun chunk).readDelta chunk.delta).1.map .contentBlock := by
  have hopening : (s.begun chunk).opening =
      if s.sentMessageStart || decide (s.Opens chunk) then [] else [s.messageStartEvent] := by
    rw [begun_eq]
    rfl
  rw [hopening]
  by_cases hopens : s.Opens chunk
  · have hsent := hopens.1
    simp [starting, opening, hopens, hsent]
  · by_cases hsent : s.sentMessageStart = true
    · simp [starting, opening, hopens, hsent]
    · have hempty : reasoningOf chunk.delta = "" ∧ textOf chunk.delta = "" ∧
          chunk.delta.toolCalls.getD [] = [] := by
        simp only [Opens, not_and, not_or, not_not] at hopens
        have hnothing := hopens (by simpa using hsent)
        exact ⟨hnothing.1, hnothing.2.1, hnothing.2.2.1⟩
      rw [readDelta_of_empty _ hempty.1 hempty.2.1 hempty.2.2]
      simp [starting, opening, hopens, hsent]

end AnthropicSseEncoder

/-! ### The end of the message -/

/-- The two events behind the blocks. -/
def IsClosing (stopReason : String) (events : List AnthropicSseEvent) : Prop :=
  ∃ usage, events = [.messageDelta stopReason usage, .messageStop]

theorem isClosing_closingPair (s : AnthropicSseEncoder) (stopReason : String) :
    IsClosing stopReason (s.closingPair stopReason).1 := ⟨_, rfl⟩

theorem encode_of_finished {s : AnthropicSseEncoder} (h : s.finished = true)
    (chunks : List ChatChunk) : s.encode chunks = [] := by
  induction chunks with
  | nil => simp [AnthropicSseEncoder.encode, AnthropicSseEncoder.forceFinish, h]
  | cons chunk chunks ih =>
    have hnext : s.nextEvents chunk = ([], s) := by simp [AnthropicSseEncoder.nextEvents, h]
    simp [AnthropicSseEncoder.encode, hnext, ih]

theorem frame_noteUsage (s : AnthropicSseEncoder) (usage : Option UsageStats) :
    (s.noteUsage usage).frame = s.frame := by
  cases usage <;> rfl

theorem finished_noteUsage (s : AnthropicSseEncoder) (usage : Option UsageStats) :
    (s.noteUsage usage).finished = s.finished := by
  cases usage <;> rfl

theorem pendingStopReason_noteUsage (s : AnthropicSseEncoder) (usage : Option UsageStats) :
    (s.noteUsage usage).pendingStopReason = s.pendingStopReason := by
  cases usage <;> rfl

theorem encode_of_pending {s : AnthropicSseEncoder} {stopReason : String}
    (hfinished : s.finished = false) (hpending : s.pendingStopReason = some stopReason)
    (chunks : List ChatChunk) :
    IsClosing stopReason (s.encode chunks) := by
  induction chunks generalizing s with
  | nil =>
    simp only [AnthropicSseEncoder.encode, AnthropicSseEncoder.forceFinish, hfinished, hpending]
    exact isClosing_closingPair _ _
  | cons chunk chunks ih =>
    have hpending' : (s.noteUsage chunk.firstChoiceOnly.usage).pendingStopReason =
        some stopReason := by
      rw [pendingStopReason_noteUsage, hpending]
    have hnext : s.nextEvents chunk =
        if (s.noteUsage chunk.firstChoiceOnly.usage).usageSeen then
          { s.noteUsage chunk.firstChoiceOnly.usage with pendingStopReason := none }.closingPair
            stopReason
        else ([], s.noteUsage chunk.firstChoiceOnly.usage) := by
      simp only [AnthropicSseEncoder.nextEvents, hfinished, hpending']
      rfl
    rw [AnthropicSseEncoder.encode, hnext]
    split
    · rw [encode_of_finished rfl, List.append_nil]
      exact isClosing_closingPair _ _
    · exact ih (by rw [finished_noteUsage, hfinished]) hpending'

/-! ### The run -/

theorem quiet_cons {fs : List Value} {chunk : ChatChunk} {chunks : List ChatChunk}
    (h : Quiet fs (chunk :: chunks)) :
    (reasoningOf chunk.delta ≠ "" → (∃ k, Named fs k) → ∃ k, Named fs k ∧ Identified fs k) ∧
      Quiet (fs ++ chunk.delta.toolCalls.getD []) chunks := by
  refine ⟨?_, h.2⟩
  rintro hreasoning ⟨k, tc, htc, -, hname⟩
  obtain ⟨tc', htc', hname', hid⟩ := h.1 hreasoning ⟨tc, htc, hname⟩
  exact ⟨callIndex tc', ⟨tc', htc', rfl, hname'⟩, hid⟩

namespace Streams

variable {s : AnthropicSseEncoder} {es : List BlockEvent} {T R : String} {fs : List Value}
    {chunk : ChatChunk}

theorem of_fields (h : Streams s es T R fs) {s' : AnthropicSseEncoder}
    (hthinking : s'.thinkingBlockIndex = s.thinkingBlockIndex)
    (htext : s'.textBlockIndex = s.textBlockIndex) (hnext : s'.nextBlockIndex = s.nextBlockIndex)
    (hcalls : s'.toolCalls = s.toolCalls)
    (hheld : s'.heldReasoning = s.heldReasoning) : Streams s' es T R fs := by
  have hslot : s'.slot = s.slot := by
    funext w
    cases w <;> simp [AnthropicSseEncoder.slot, AnthropicSseEncoder.call, hthinking, htext, hcalls]
  refine h.of_toolCalls ⟨?_, h.writes.text, ?_, ?_⟩ hcalls (hheld ▸ h.held)
  · rw [hnext, hslot]
    exact h.writes.reads
  · rw [hheld]
    exact h.writes.thinking
  · simpa [AnthropicSseEncoder.call, hcalls] using h.writes.calls

theorem begun (h : Streams s es T R fs) (chunk : ChatChunk) :
    Streams (s.begun chunk) es T R fs := by
  rw [AnthropicSseEncoder.begun_eq]
  exact h.of_fields rfl rfl rfl rfl rfl

theorem noteUsage (h : Streams s es T R fs) (usage : Option UsageStats) :
    Streams (s.noteUsage usage) es T R fs := by
  cases usage with
  | none => exact h
  | some u => exact h.of_fields rfl rfl rfl rfl rfl

theorem readChunk (h : Streams s es T R fs) (hfinish : chunk.finishReason = none)
    (hquiet : reasoningOf chunk.delta ≠ "" → (∃ k, Named fs k) → ∃ k, Named fs k ∧
      Identified fs k) :
    ∃ blocks, Streams (s.readChunk chunk).2 (es ++ blocks) (T ++ textOf chunk.delta)
        (R ++ reasoningOf chunk.delta) (fs ++ chunk.delta.toolCalls.getD []) ∧
      (s.readChunk chunk).1 ++ (s.readChunk chunk).2.opening = s.opening ++
      blocks.map .contentBlock ∧
      (s.readChunk chunk).2.finished = s.finished ∧
      (s.readChunk chunk).2.pendingStopReason = s.pendingStopReason := by
  have hread : s.readChunk chunk =
      (s.starting chunk ++ ((s.begun chunk).readDelta chunk.delta).1.map .contentBlock,
        ((s.begun chunk).readDelta chunk.delta).2) := by
    simp only [AnthropicSseEncoder.readChunk, AnthropicSseEncoder.startMessage_eq, hfinish]
  obtain ⟨-, -, hfinished, hpending⟩ :=
    AnthropicSseEncoder.frame_eq_iff.mp ((s.begun chunk).frame_readDelta chunk.delta)
  refine ⟨((s.begun chunk).readDelta chunk.delta).1, ?_, ?_, ?_, ?_⟩
  · rw [hread]
    exact (h.begun chunk).readDelta hquiet
  · rw [hread, AnthropicSseEncoder.opening_eq ((s.begun chunk).frame_readDelta chunk.delta)]
    exact s.starting_blocks chunk
  · rw [hread, hfinished, AnthropicSseEncoder.begun_eq]
  · rw [hread, hpending, AnthropicSseEncoder.begun_eq]

theorem readChunk_finish (h : Streams s es T R fs) {reason : FinishReason}
    (hfinish : chunk.finishReason = some reason)
    (hquiet : reasoningOf chunk.delta ≠ "" → (∃ k, Named fs k) → ∃ k, Named fs k ∧ Identified fs k)
    (hfinished : s.finished = false) (chunks : List ChatChunk) :
    ∃ blocks stopReason closing, IsClosing stopReason closing ∧
      (s.readChunk chunk).1 ++ (s.readChunk chunk).2.encode chunks =
        s.opening ++ blocks.map .contentBlock ++ closing ∧
      Tells (es ++ blocks) (T ++ textOf chunk.delta) (R ++ reasoningOf chunk.delta)
        (fs ++ chunk.delta.toolCalls.getD []) := by
  have htells := ((h.begun chunk).readDelta hquiet).writes.tells
  have hstarting := s.starting_of_finish chunk (by simp [hfinish])
  generalize hdelta : (s.begun chunk).readDelta chunk.delta = written at htells
  have hread : s.readChunk chunk =
      (let events := s.starting chunk ++
        (written.1 ++ written.2.closeOpenBlocks.1).map .contentBlock
       let stopReason := anthropicStopReason reason written.2.closeOpenBlocks.2.refused
       if written.2.closeOpenBlocks.2.usageSeen then
         (events ++ (written.2.closeOpenBlocks.2.closingPair stopReason).1,
           (written.2.closeOpenBlocks.2.closingPair stopReason).2)
       else (events,
         { written.2.closeOpenBlocks.2 with pendingStopReason := some stopReason })) := by
    simp only [AnthropicSseEncoder.readChunk, AnthropicSseEncoder.startMessage_eq, hfinish, hdelta]
  have hunfinished : written.2.closeOpenBlocks.2.finished = false := by
    have hframe :=
      (written.2.frame_closeOpenBlocks).trans (hdelta ▸ (s.begun chunk).frame_readDelta chunk.delta)
    rw [(AnthropicSseEncoder.frame_eq_iff.mp hframe).2.2.1, AnthropicSseEncoder.begun_eq, hfinished]
  by_cases hseen : written.2.closeOpenBlocks.2.usageSeen = true
  · have hclosing := isClosing_closingPair written.2.closeOpenBlocks.2
      (anthropicStopReason reason written.2.closeOpenBlocks.2.refused)
    refine ⟨written.1 ++ written.2.closeOpenBlocks.1, _, _, hclosing, ?_, ?_⟩
    · simp only [hread, if_pos hseen, hstarting]
      rw [encode_of_finished rfl, List.append_nil]
    · rwa [← List.append_assoc]
  · have hclosing : IsClosing (anthropicStopReason reason written.2.closeOpenBlocks.2.refused)
        (AnthropicSseEncoder.encode { written.2.closeOpenBlocks.2 with
          pendingStopReason :=
            some (anthropicStopReason reason written.2.closeOpenBlocks.2.refused) } chunks) := by
      refine encode_of_pending ?_ rfl chunks
      exact hunfinished
    refine ⟨written.1 ++ written.2.closeOpenBlocks.1, _, _, hclosing, ?_, ?_⟩
    · simp only [hread, if_neg hseen, hstarting]
    · rwa [← List.append_assoc]

end Streams

/-- **Every run.** -/
theorem encode_of_streams {s : AnthropicSseEncoder} {es : List BlockEvent} {T R : String}
    {fs : List Value} (h : Streams s es T R fs) (hfinished : s.finished = false)
    (hpending : s.pendingStopReason = none) (chunks : List ChatChunk)
    (hquiet : Quiet fs (answer chunks)) :
    ∃ blocks stopReason closing, IsClosing stopReason closing ∧
      s.encode chunks = s.opening ++ blocks.map .contentBlock ++ closing ∧
      Tells (es ++ blocks) (T ++ textSent (answer chunks)) (R ++ reasoningSent (answer chunks))
        (fs ++ fragmentsSent (answer chunks)) := by
  induction chunks generalizing s es T R fs with
  | nil =>
    have hsent : Streams { s with sentMessageStart := true } es T R fs :=
      h.of_fields rfl rfl rfl rfl rfl
    have hclosing := isClosing_closingPair
      (AnthropicSseEncoder.closeOpenBlocks { s with sentMessageStart := true }).2 "end_turn"
    refine ⟨_, _, _, hclosing,
      ?_, by simpa [answer, textSent, reasoningSent, fragmentsSent] using hsent.writes.tells⟩
    simp [AnthropicSseEncoder.encode, AnthropicSseEncoder.forceFinish, hfinished, hpending,
      AnthropicSseEncoder.opening]
  | cons chunk chunks ih =>
    obtain ⟨hquietNow, hquietRest⟩ := quiet_cons hquiet
    have hnoted := h.noteUsage chunk.firstChoiceOnly.usage
    obtain ⟨hstart, hsent, hfinished', hpending'⟩ :=
      AnthropicSseEncoder.frame_eq_iff.mp (frame_noteUsage s chunk.firstChoiceOnly.usage)
    have hnext : s.nextEvents chunk =
        (s.noteUsage chunk.firstChoiceOnly.usage).readChunk chunk.firstChoiceOnly := by
      rw [hpending] at hpending'
      simp [AnthropicSseEncoder.nextEvents, hfinished, hpending']
    have hopening := AnthropicSseEncoder.opening_eq (frame_noteUsage s chunk.firstChoiceOnly.usage)
    rw [AnthropicSseEncoder.encode, hnext, ← hopening]
    cases hfinish : chunk.firstChoiceOnly.finishReason with
    | some reason =>
      obtain ⟨blocks, stopReason, closing, hclosing, hevents, htells⟩ :=
        hnoted.readChunk_finish hfinish hquietNow (hfinished'.trans hfinished) chunks
      refine ⟨blocks, stopReason, closing, hclosing, hevents, ?_⟩
      simpa [answer, hfinish, textSent, reasoningSent, fragmentsSent] using htells
    | none =>
      obtain ⟨blocks, hstreams, hevents, hfinished₁, hpending₁⟩ :=
        hnoted.readChunk hfinish hquietNow
      obtain ⟨more, stopReason, closing, hclosing, hrest, htells⟩ :=
        ih hstreams (hfinished₁.trans (hfinished'.trans hfinished))
          (hpending₁.trans (hpending'.trans hpending)) (by simpa [answer, hfinish] using hquietRest)
      refine ⟨blocks ++ more, stopReason, closing, hclosing, ?_, ?_⟩
      · rw [hrest, ← List.append_assoc, ← List.append_assoc, hevents]
        simp
      · simpa [answer, hfinish, textSent, reasoningSent, fragmentsSent,
          String.append_assoc] using htells

section

variable (messageId modelDisplayName : String) (initialInputTokens : Nat)

theorem call_new (k : Nat) :
    (AnthropicSseEncoder.new messageId modelDisplayName initialInputTokens).call k = .new := rfl

theorem slot_new :
    (AnthropicSseEncoder.new messageId modelDisplayName initialInputTokens).slot =
    fun _ => none := by
  funext w
  cases w <;> rfl

theorem streams_new :
    Streams (.new messageId modelDisplayName initialInputTokens) [] "" "" [] where
  writes := by
    refine ⟨?_, rfl, rfl, fun k => ?_⟩
    · rw [slot_new]
      exact reads_nil
    · rw [call_new]
      exact ⟨by simp [Named, ToolCallState.new], fun _ => rfl, by simp [ToolCallState.new]⟩
  identified k := by simp [call_new, Identified, ToolCallState.new]
  started k := by simp [call_new, Named, ToolCallState.new]
  held := by simp [AnthropicSseEncoder.new]

end

/-- **A message.** While no reasoning comes between a call's name and the first call with an id, the
events are one `message_start`, whole blocks numbered in the order of their starts, one
`message_delta` and one `message_stop`; and the blocks say what the first choice said up to its
finish. -/
theorem encode_wellFormed (messageId modelDisplayName : String) (initialInputTokens : Nat)
    (chunks : List ChatChunk) (hquiet : Quiet [] (answer chunks)) :
    ∃ blocks stopReason usage,
      (AnthropicSseEncoder.new messageId modelDisplayName initialInputTokens).encode chunks =
        .messageStart messageId modelDisplayName initialInputTokens :: blocks.map .contentBlock ++
          [.messageDelta stopReason usage, .messageStop] ∧
      Tells blocks (textSent (answer chunks)) (reasoningSent (answer chunks))
        (fragmentsSent (answer chunks)) := by
  obtain ⟨blocks, stopReason, closing, ⟨usage, rfl⟩, hevents, htells⟩ :=
    encode_of_streams (streams_new messageId modelDisplayName initialInputTokens)
      rfl rfl chunks hquiet
  exact ⟨blocks, stopReason, usage, hevents, by simpa using htells⟩

/-- A call, reasoning while its block is open, the rest of its arguments, and the finish. -/
theorem encode_wellFormed_call :
    ∃ blocks stopReason usage,
      (AnthropicSseEncoder.new "msg" "model" 0).encode
          [saying { ChatDelta.default with toolCalls := some [fragment "call_a" "get" "\x7b"] }
            none,
              saying { ChatDelta.default with reasoningContent := some "so" } none,
              saying { ChatDelta.default with toolCalls := some [fragment "" "" "\x7d"] }
                (some .toolCalls)] =
        .messageStart "msg" "model" 0 :: blocks.map .contentBlock ++
          [.messageDelta stopReason usage, .messageStop] ∧
      Tells blocks "" "so" [fragment "call_a" "get" "\x7b", fragment "" "" "\x7d"] :=
  encode_wellFormed "msg" "model" 0 _ (by decide +kernel)

theorem blocks_eq {start start' : AnthropicSseEvent} {blocks blocks' : List BlockEvent}
    {closing closing' : List AnthropicSseEvent}
    (h : start :: blocks.map .contentBlock ++ closing = start' ::
      blocks'.map .contentBlock ++ closing')
    (hlength : closing.length = closing'.length) : blocks = blocks' := by
  obtain ⟨hblocks, -⟩ := List.append_inj' h hlength
  exact List.map_injective_iff.mpr (fun e e' he => AnthropicSseEvent.contentBlock.inj he)
    (List.cons.inj hblocks).2

/-- Text behind the finish is not written. -/
theorem encode_late_text :
    ¬∃ blocks stopReason usage,
      (AnthropicSseEncoder.new "msg" "model" 0).encode
          [saying .default (some .stop),
            saying { ChatDelta.default with content := some "late" } none] =
        .messageStart "msg" "model" 0 :: blocks.map .contentBlock ++
          [.messageDelta stopReason usage, .messageStop] ∧
      textIn blocks = "late" := by
  rintro ⟨blocks, stopReason, usage, hevents, htext⟩
  have hrun : (AnthropicSseEncoder.new "msg" "model" 0).encode
      [saying .default (some .stop),
        saying { ChatDelta.default with content := some "late" } none] =
      .messageStart "msg" "model" 0 :: [].map .contentBlock ++
        [.messageDelta "end_turn" ⟨none, 0, none, none⟩, .messageStop] := by decide +kernel
  obtain rfl := blocks_eq (hrun.symm.trans hevents) rfl
  exact absurd htext (by decide)

end Anthropic
end Aisix
