import Aisix.Anthropic.SseEncoder

/-!
# Aisix.Anthropic.Blocks

What the encoder has written while the answer runs. The thinking block, the text block and each tool
call are writers of one block stream; `Writes` ties the encoder's fields to the events so far, and
every operation of the encoder keeps it.
-/

namespace Aisix
namespace Anthropic

open Json BlockStream

def BlockDelta.text : BlockDelta → String
  | .textDelta t => t
  | _ => ""

def BlockDelta.thinking : BlockDelta → String
  | .thinkingDelta t => t
  | _ => ""

def BlockDelta.input : BlockDelta → String
  | .inputJsonDelta j => j
  | _ => ""

section

variable (t : String)

@[simp] theorem BlockDelta.text_textDelta : (textDelta t).text = t := rfl

@[simp] theorem BlockDelta.text_thinkingDelta : (thinkingDelta t).text = "" := rfl

@[simp] theorem BlockDelta.text_inputJsonDelta : (inputJsonDelta t).text = "" := rfl

@[simp] theorem BlockDelta.thinking_thinkingDelta : (thinkingDelta t).thinking = t := rfl

@[simp] theorem BlockDelta.thinking_textDelta : (textDelta t).thinking = "" := rfl

@[simp] theorem BlockDelta.thinking_inputJsonDelta : (inputJsonDelta t).thinking = "" := rfl

@[simp] theorem BlockDelta.input_inputJsonDelta : (inputJsonDelta t).input = t := rfl

@[simp] theorem BlockDelta.input_textDelta : (textDelta t).input = "" := rfl

@[simp] theorem BlockDelta.input_thinkingDelta : (thinkingDelta t).input = "" := rfl

end

abbrev textIn (es : List BlockEvent) : String := said (fun _ d => d.text) es

abbrev thinkingIn (es : List BlockEvent) : String := said (fun _ d => d.thinking) es

/-- The tool input of block `i`. -/
abbrev inputIn (i : Nat) (es : List BlockEvent) : String :=
  said (fun j d => if j = i then d.input else "") es

/-! ### The fragments of the calls -/

def Named (fs : List Value) (k : Nat) : Prop := ∃ tc ∈ fs, callIndex tc = k ∧ callName tc ≠ ""

def Identified (fs : List Value) (k : Nat) : Prop := ∃ tc ∈ fs, callIndex tc = k ∧ callId tc ≠ ""

instance (fs : List Value) (k : Nat) : Decidable (Named fs k) :=
  inferInstanceAs (Decidable (∃ tc ∈ fs, callIndex tc = k ∧ callName tc ≠ ""))

instance (fs : List Value) (k : Nat) : Decidable (Identified fs k) :=
  inferInstanceAs (Decidable (∃ tc ∈ fs, callIndex tc = k ∧ callId tc ≠ ""))

/-- The argument fragments of call `k`. -/
def argumentsOf (k : Nat) (fs : List Value) : String :=
  joined (fun tc => if callIndex tc = k then callArguments tc else "") fs

theorem named_concat {fs : List Value} {tc : Value} {k : Nat} :
    Named (fs ++ [tc]) k ↔ Named fs k ∨ callIndex tc = k ∧ callName tc ≠ "" := by
  simp [Named, or_and_right, exists_or]

theorem identified_concat {fs : List Value} {tc : Value} {k : Nat} :
    Identified (fs ++ [tc]) k ↔ Identified fs k ∨ callIndex tc = k ∧ callId tc ≠ "" := by
  simp [Identified, or_and_right, exists_or]

theorem argumentsOf_concat (fs : List Value) (tc : Value) (k : Nat) :
    argumentsOf k (fs ++ [tc]) = argumentsOf k fs ++
      if callIndex tc = k then callArguments tc else "" := by
  simp [argumentsOf]

/-! ### The calls of the encoder -/

namespace ToolCallState

/-- The block of a call that has one. -/
def block? (t : ToolCallState) : Option Nat := if t.started then some t.contentBlockIndex else none

/-- What a fragment adds before anything is written. -/
def absorb (t : ToolCallState) (tc : Value) : ToolCallState :=
  { t with
    id := if callId tc ≠ "" then callId tc else t.id
    name := if callName tc ≠ "" then callName tc else t.name
    pendingArguments := t.pendingArguments ++ callArguments tc }

@[simp] theorem block?_flushArguments (t : ToolCallState) :
    t.flushArguments.1.block? = t.block? := by
  simp only [flushArguments]
  split <;> rfl

theorem flushArguments_fst (t : ToolCallState) :
    t.flushArguments.1 = { t with pendingArguments := "" } := by
  simp only [flushArguments]
  split
  · next h => simp [← h]
  · rfl

@[simp] theorem textIn_flushArguments (t : ToolCallState) : textIn t.flushArguments.2 = "" := by
  simp only [flushArguments]
  split <;> simp

@[simp] theorem thinkingIn_flushArguments (t : ToolCallState) :
    thinkingIn t.flushArguments.2 = "" := by
  simp only [flushArguments]
  split <;> simp

theorem inputIn_flushArguments (t : ToolCallState) (i : Nat) :
    inputIn i t.flushArguments.2 = if t.contentBlockIndex = i then t.pendingArguments else "" := by
  simp only [flushArguments]
  split
  · next h => simp [h]
  · simp

end ToolCallState

theorem reads_flushArguments {ω : Type} {es : List BlockEvent} {n : Nat} {slot : ω → Option Nat}
    {o : ω} {t : ToolCallState} (h : Reads es n slot) (hslot : slot o = some t.contentBlockIndex) :
    Reads (es ++ t.flushArguments.2) n slot := by
  simp only [ToolCallState.flushArguments]
  split
  · simpa using h
  · exact h.delta hslot _

/-- Who may hold a block. -/
inductive Writer where
  | thinking
  | text
  | call (index : Nat)
  deriving DecidableEq

namespace AnthropicSseEncoder

/-- The state of call `k`, new where no fragment of it has come. -/
def call (s : AnthropicSseEncoder) (k : Nat) : ToolCallState := (s.toolCalls.get? k).getD .new

def slot (s : AnthropicSseEncoder) : Writer → Option Nat
  | .thinking => s.thinkingBlockIndex
  | .text => s.textBlockIndex
  | .call k => (s.call k).block?

theorem call_insert (s : AnthropicSseEncoder) (k k' n : Nat) (t : ToolCallState) :
    { s with toolCalls := s.toolCalls.insert k t, nextBlockIndex := n }.call k' =
      if k' = k then t else s.call k' := by
  simp only [call, SortedMap.get?_insert]
  split <;> rfl

theorem toolBlockOpen_iff {s : AnthropicSseEncoder} :
    s.toolBlockOpen = true ↔ ∃ k, (s.call k).started = true := by
  simp only [toolBlockOpen, List.any_eq_true, SortedMap.mem_values_iff]
  constructor
  · rintro ⟨t, ⟨k, hk⟩, hstarted⟩
    exact ⟨k, by simpa [call, hk] using hstarted⟩
  · rintro ⟨k, hstarted⟩
    cases hk : s.toolCalls.get? k with
    | none => simp [call, hk, ToolCallState.new] at hstarted
    | some t => exact ⟨t, ⟨k, hk⟩, by simpa [call, hk] using hstarted⟩

theorem slot_insert (s : AnthropicSseEncoder) (k n : Nat) (t : ToolCallState) (w : Writer) :
    { s with toolCalls := s.toolCalls.insert k t, nextBlockIndex := n }.slot w =
      if w = .call k then t.block? else s.slot w := by
  cases w with
  | thinking => rfl
  | text => rfl
  | call k' =>
    simp only [slot, call_insert, Writer.call.injEq]
    split <;> rfl

theorem slot_openText (s : AnthropicSseEncoder) (i n : Nat) :
    { s with nextBlockIndex := n, textBlockIndex := some i }.slot =
      fun w => if w = .text then some i else s.slot w := by
  funext w
  cases w <;> rfl

theorem slot_openThinking (s : AnthropicSseEncoder) (i n : Nat) :
    { s with nextBlockIndex := n, thinkingBlockIndex := some i }.slot =
      fun w => if w = .thinking then some i else s.slot w := by
  funext w
  cases w <;> rfl

/-- The call under the id made up for it. -/
def withMadeUpId (s : AnthropicSseEncoder) (k : Nat) : ToolCallState :=
  { s.call k with id := "toolu_" ++ s.messageId ++ "_" ++ toString k }

theorem openNamed_of_waiting {s : AnthropicSseEncoder} {k : Nat}
    (h : (s.call k).started = false ∧ (s.call k).name ≠ "") :
    s.openNamed k =
      (((s.withMadeUpId k).start s.nextBlockIndex).2.2 ++
          ((s.withMadeUpId k).start s.nextBlockIndex).1.flushArguments.2,
        { s with
          toolCalls :=
  s.toolCalls.insert k ((s.withMadeUpId k).start s.nextBlockIndex).1.flushArguments.1
          nextBlockIndex := s.nextBlockIndex + 1 }) := by
  cases hk : s.toolCalls.get? k with
  | none => simp [call, hk, ToolCallState.new] at h
  | some t =>
    have hcall : s.call k = t := by simp [call, hk]
    rw [hcall] at h
    simp only [openNamed, hk, if_pos h, withMadeUpId, hcall]
    rfl

theorem openNamed_of_not {s : AnthropicSseEncoder} {k : Nat}
    (h : ¬((s.call k).started = false ∧ (s.call k).name ≠ "")) : s.openNamed k = ([], s) := by
  cases hk : s.toolCalls.get? k with
  | none => simp [openNamed, hk]
  | some t =>
    have hcall : s.call k = t := by simp [call, hk]
    rw [hcall] at h
    simp only [openNamed, hk, if_neg h]

@[simp] theorem heldReasoning_openAllNamed (s : AnthropicSseEncoder) (ks : List Nat) :
    (s.openAllNamed ks).2.heldReasoning = s.heldReasoning := by
  induction ks generalizing s with
  | nil => rfl
  | cons k ks ih =>
    simp only [openAllNamed, ih]
    by_cases h : (s.call k).started = false ∧ (s.call k).name ≠ ""
    · rw [openNamed_of_waiting h]
    · rw [openNamed_of_not h]

/-- A named call has its block. -/
def Settled (s : AnthropicSseEncoder) (k : Nat) : Prop :=
  (s.call k).name ≠ "" → (s.call k).started = true

theorem settled_openNamed (s : AnthropicSseEncoder) (k : Nat) : (s.openNamed k).2.Settled k := by
  by_cases h : (s.call k).started = false ∧ (s.call k).name ≠ ""
  · rw [openNamed_of_waiting h]
    intro _
    simp [call_insert, ToolCallState.flushArguments_fst, ToolCallState.start]
  · rw [openNamed_of_not h]
    intro hname
    simpa [hname] using h

theorem Settled.openNamed {s : AnthropicSseEncoder} {k : Nat} (h : s.Settled k) (k' : Nat) :
    (s.openNamed k').2.Settled k := by
  by_cases hk : k = k'
  · subst hk
    exact s.settled_openNamed k
  · by_cases hwaiting : (s.call k').started = false ∧ (s.call k').name ≠ ""
    · rw [openNamed_of_waiting hwaiting]
      simpa only [Settled, call_insert, if_neg hk] using h
    · rwa [openNamed_of_not hwaiting]

theorem settled_openAllNamed {s : AnthropicSseEncoder} {ks : List Nat} {k : Nat}
    (h : k ∈ ks ∨ s.Settled k) :
    (s.openAllNamed ks).2.Settled k := by
  induction ks generalizing s with
  | nil => exact h.resolve_left (by simp)
  | cons k' ks ih =>
    refine ih ?_
    rcases h with h | h
    · rcases List.mem_cons.mp h with rfl | h
      · exact .inr (s.settled_openNamed k)
      · exact .inl h
    · exact .inr (h.openNamed k')

theorem settled_openAllNamed_keys (s : AnthropicSseEncoder) (k : Nat) :
    (s.openAllNamed s.toolCalls.keys).2.Settled k := by
  refine settled_openAllNamed ?_
  cases hk : s.toolCalls.get? k with
  | none => exact .inr (by simp [Settled, call, hk, ToolCallState.new])
  | some t => exact .inl (SortedMap.mem_keys_iff.mpr ⟨t, hk⟩)

theorem openAllNamed_of_unnamed {s : AnthropicSseEncoder} (h : ∀ k, (s.call k).name = "")
    (ks : List Nat) : s.openAllNamed ks = ([], s) := by
  induction ks with
  | nil => rfl
  | cons k ks ih =>
    have hnot : s.openNamed k = ([], s) := openNamed_of_not fun hwaiting => hwaiting.2 (h k)
    simp [openAllNamed, hnot, ih]

/-- A fragment's call with the fragment in it. -/
def absorbed (s : AnthropicSseEncoder) (tc : Value) : ToolCallState :=
  (s.call (callIndex tc)).absorb tc

@[simp] theorem absorbed_contentBlockIndex (s : AnthropicSseEncoder) (tc : Value) :
    (s.absorbed tc).contentBlockIndex = (s.call (callIndex tc)).contentBlockIndex := rfl

theorem slot_absorbed (s : AnthropicSseEncoder) (tc : Value) :
    (fun w => if w = .call (callIndex tc) then (s.absorbed tc).block? else s.slot w) = s.slot := by
  funext w
  split
  · next heq => rw [heq]; rfl
  · rfl

theorem readToolCall_eq (s : AnthropicSseEncoder) (tc : Value) :
    s.readToolCall tc =
      (let t := s.absorbed tc
       let (t, next, started) :=
         if t.started = false ∧ t.id ≠ "" ∧ t.name ≠ "" then t.start s.nextBlockIndex
         else (t, s.nextBlockIndex, [])
       let (t, flushed) := if t.started then t.flushArguments else (t, [])
       (started ++ flushed,
         { s with toolCalls := s.toolCalls.insert (callIndex tc) t, nextBlockIndex := next })) := by
  have habsorbed : s.absorbed tc =
      (let t := s.call (callIndex tc)
       let t := if callId tc ≠ "" then { t with id := callId tc } else t
       let t := if callName tc ≠ "" then { t with name := callName tc } else t
       { t with pendingArguments := t.pendingArguments ++ callArguments tc }) := by
    simp only [absorbed, ToolCallState.absorb]
    by_cases hid : callId tc = "" <;> by_cases hname : callName tc = "" <;> simp [hid, hname]
  rw [habsorbed]
  rfl

theorem readToolCall_of_started {s : AnthropicSseEncoder} {tc : Value}
    (h : (s.absorbed tc).started = true) :
    s.readToolCall tc = ((s.absorbed tc).flushArguments.2,
      { s with toolCalls := s.toolCalls.insert (callIndex tc) (s.absorbed tc).flushArguments.1
      }) := by
  simp [readToolCall_eq, h]

theorem readToolCall_of_ready {s : AnthropicSseEncoder} {tc : Value}
    (h : (s.absorbed tc).started = false ∧ (s.absorbed tc).id ≠ "" ∧ (s.absorbed tc).name ≠ "") :
    s.readToolCall tc =
      (((s.absorbed tc).start s.nextBlockIndex).2.2 ++
          ((s.absorbed tc).start s.nextBlockIndex).1.flushArguments.2,
        { s with
          toolCalls := s.toolCalls.insert (callIndex tc)
            ((s.absorbed tc).start s.nextBlockIndex).1.flushArguments.1
          nextBlockIndex := s.nextBlockIndex + 1 }) := by
  rw [readToolCall_eq]
  simp only [if_pos h]
  rfl

theorem readToolCall_of_waiting {s : AnthropicSseEncoder} {tc : Value}
    (hstarted : (s.absorbed tc).started = false)
    (h : ¬((s.absorbed tc).id ≠ "" ∧ (s.absorbed tc).name ≠ "")) :
    s.readToolCall tc =
      ([], { s with toolCalls := s.toolCalls.insert (callIndex tc) (s.absorbed tc) }) := by
  simp only [readToolCall_eq, hstarted, true_and, if_neg h]
  rfl

/-- Who may hold a block of the encoder. -/
def writers (s : AnthropicSseEncoder) : List Writer :=
  .thinking :: .text :: s.toolCalls.keys.map .call

theorem nodup_writers (s : AnthropicSseEncoder) : s.writers.Nodup := by
  have hkeys : (s.toolCalls.keys.map Writer.call).Nodup :=
    s.toolCalls.nodup_keys.map fun k k' h => Writer.call.inj h
  simp [writers, hkeys]

theorem mem_writers {s : AnthropicSseEncoder} {w : Writer} {i : Nat} (h : s.slot w = some i) :
    w ∈ s.writers := by
  cases w with
  | thinking => simp [writers]
  | text => simp [writers]
  | call k =>
    cases hk : s.toolCalls.get? k with
    | none => simp [slot, call, hk, ToolCallState.block?, ToolCallState.new] at h
    | some t =>
      have hmem := SortedMap.mem_keys_iff.mpr ⟨t, hk⟩
      simp [writers, hmem]

theorem openIndices_eq (s : AnthropicSseEncoder) : s.openIndices = s.writers.filterMap s.slot := by
  have hcalls : (s.toolCalls.values.filter (·.started)).map (·.contentBlockIndex) =
      (s.toolCalls.keys.map Writer.call).filterMap s.slot := by
    rw [SortedMap.values, SortedMap.keys, List.filterMap_map, List.filterMap_map,
      ← List.filterMap_eq_map, ← List.filterMap_eq_filter, List.filterMap_filterMap,
      List.filterMap_map]
    refine List.filterMap_congr fun e he => ?_
    have hget := SortedMap.mem_entries_iff.mp he
    simp only [Function.comp, slot, call, hget, Option.getD_some,
      ToolCallState.block?, Option.guard]
    cases e.2.started <;> rfl
  rw [openIndices, hcalls, writers, List.filterMap_cons, List.filterMap_cons]
  simp only [slot]
  cases s.thinkingBlockIndex <;> cases s.textBlockIndex <;> simp

end AnthropicSseEncoder

/-! ### What the events say of the calls and of the rest -/

/-- Call `k` stands as `t`, all its fragments being `fs`. -/
structure CallTold (es : List BlockEvent) (fs : List Value) (k : Nat) (t : ToolCallState) :
    Prop where
  named : t.name ≠ "" ↔ Named fs k
  waiting : t.started = false → t.pendingArguments = argumentsOf k fs
  written : t.started = true → t.pendingArguments = "" ∧
    (∃ id name, .start t.contentBlockIndex (.toolUse id name) ∈ es) ∧
    inputIn t.contentBlockIndex es = argumentsOf k fs

section

variable {es evs : List BlockEvent} {fs : List Value} {k : Nat} {t : ToolCallState} {tc : Value}

theorem CallTold.append (h : CallTold es fs k t)
    (hsilent : ∀ i, t.block? = some i → inputIn i evs = "") : CallTold (es ++ evs) fs k t where
  named := h.named
  waiting := h.waiting
  written := by
    intro hstarted
    obtain ⟨hpending, ⟨id, name, hstart⟩, hinput⟩ := h.written hstarted
    have hnone := hsilent t.contentBlockIndex (by simp [ToolCallState.block?, hstarted])
    exact ⟨hpending, ⟨id, name, List.mem_append_left _ hstart⟩, by simp [hinput, hnone]⟩

theorem CallTold.fragment (h : CallTold es fs k t) (hne : callIndex tc ≠ k) :
    CallTold es (fs ++ [tc]) k t where
  named := by simp [named_concat, hne, h.named]
  waiting := by simpa [argumentsOf_concat, hne] using h.waiting
  written := by simpa [argumentsOf_concat, hne] using h.written

end

/-- The encoder has written `es`: the text `T`, of the reasoning `R` all but what it holds, and of
the calls what their fragments `fs` say. -/
structure Writes (s : AnthropicSseEncoder) (es : List BlockEvent) (T R : String) (fs : List Value) :
    Prop where
  reads : Reads es s.nextBlockIndex s.slot
  text : textIn es = T
  thinking : thinkingIn es ++ s.heldReasoning = R
  calls : ∀ k, CallTold es fs k (s.call k)

namespace Writes

variable {s : AnthropicSseEncoder} {es evs : List BlockEvent} {T R : String} {fs fs' : List Value}
  {k n : Nat} {t : ToolCallState}

theorem calls_append (h : Writes s es T R fs) (hsilent : ∀ i, inputIn i evs = "") (k : Nat) :
    CallTold (es ++ evs) fs k (s.call k) :=
  (h.calls k).append fun i _ => hsilent i

theorem setCall (h : Writes s es T R fs)
    (hreads : Reads (es ++ evs) n fun w => if w = .call k then t.block? else s.slot w)
    (htext : textIn evs = "") (hthinking : thinkingIn evs = "")
    (hcall : CallTold (es ++ evs) fs' k t)
    (hothers : ∀ k' ≠ k, CallTold (es ++ evs) fs' k' (s.call k')) :
    Writes { s with toolCalls := s.toolCalls.insert k t, nextBlockIndex := n }
      (es ++ evs) T R fs' where
  reads := by
    rwa [show AnthropicSseEncoder.slot _ = _ from funext (s.slot_insert k n t)]
  text := by simp [h.text, htext]
  thinking := by simpa [hthinking] using h.thinking
  calls := by
    intro k'
    rw [s.call_insert k k' n t]
    split
    · next heq => rwa [heq]
    · next hne => exact hothers k' hne

theorem openCall (h : Writes s es T R fs) (hclosed : (s.call k).started = false)
    (hnamed : t.name ≠ "" ↔ Named fs' k) (hpending : t.pendingArguments = argumentsOf k fs')
    (hothers : ∀ k' ≠ k, CallTold es fs' k' (s.call k')) :
    Writes
      { s with
        toolCalls := s.toolCalls.insert k (t.start s.nextBlockIndex).1.flushArguments.1
        nextBlockIndex := s.nextBlockIndex + 1 }
      (es ++ ((t.start s.nextBlockIndex).2.2 ++ (t.start s.nextBlockIndex).1.flushArguments.2)) T R
        fs' := by
  have hnone : s.slot (.call k) = none := by
    simp [AnthropicSseEncoder.slot, ToolCallState.block?, hclosed]
  have hstart := h.reads.start hnone (.toolUse t.id t.name) fun w => rfl
  have hinput : inputIn s.nextBlockIndex es = "" := by
    refine said_eq_empty _ fun e he d => ?_
    have := h.reads.index_lt e he
    simp only [ite_eq_right_iff]
    omega
  refine h.setCall ?_ (by simp [ToolCallState.start]) (by simp [ToolCallState.start]) ?_ ?_
  · rw [← List.append_assoc, ToolCallState.block?_flushArguments]
    exact reads_flushArguments (o := .call k) hstart
      (by simp [ToolCallState.start, ToolCallState.block?])
  · have hopened : (t.start s.nextBlockIndex).1.flushArguments.1.started = true := by
      simp [ToolCallState.flushArguments_fst, ToolCallState.start]
    refine ⟨by simpa [ToolCallState.flushArguments_fst, ToolCallState.start] using hnamed,
      by simp [hopened], fun _ => ⟨?_, ?_, ?_⟩⟩
    · simp [ToolCallState.flushArguments_fst]
    · exact ⟨t.id, t.name, by simp [ToolCallState.flushArguments_fst, ToolCallState.start]⟩
    · simp [ToolCallState.inputIn_flushArguments, ToolCallState.flushArguments_fst,
        ToolCallState.start, hinput, hpending]
  · intro k' hne
    refine (hothers k' hne).append fun i hi => ?_
    have hslot : s.slot (.call k') = some i := hi
    have hlt := h.reads.slot_lt hslot
    have hother : s.nextBlockIndex ≠ i := by omega
    simp [ToolCallState.inputIn_flushArguments, ToolCallState.start, hother]

theorem closeThinkingBlock (h : Writes s es T R fs) :
    Writes s.closeThinkingBlock.2 (es ++ s.closeThinkingBlock.1) T R fs := by
  simp only [AnthropicSseEncoder.closeThinkingBlock]
  split
  · next idx hidx =>
    have hslot : s.slot .thinking = some idx := hidx
    exact ⟨h.reads.stop hslot
      fun w => by cases w <;> simp [AnthropicSseEncoder.slot, AnthropicSseEncoder.call],
      by simp [h.text], by simpa using h.thinking, h.calls_append (by simp)⟩
  · simpa using h

theorem readText (h : Writes s es T R fs) (text : String) :
    Writes (s.readText text).2 (es ++ (s.readText text).1) (T ++ text) R fs := by
  simp only [AnthropicSseEncoder.readText]
  split
  · next hempty => simpa [hempty] using h
  · split
    · next idx hidx =>
      have hslot : s.slot .text = some idx := hidx
      exact ⟨h.reads.delta hslot _, by simp [h.text],
        by simpa using h.thinking, h.calls_append (by simp)⟩
    · next hnone =>
      have hslot : s.slot .text = none := hnone
      have hstart := h.reads.start hslot .text fun w => rfl
      refine ⟨?_, by simp [h.text], by simpa using h.thinking,
        h.calls_append (by simp)⟩
      rw [List.append_cons]
      have hdelta := hstart.delta (o := .text) (i := s.nextBlockIndex) (by simp) (.textDelta text)
      rwa [s.slot_openText]

theorem reads_stops (h : Writes s es T R fs) :
    Reads (es ++ (s.openIndices.insertionSort (· ≤ ·)).map .stop) s.nextBlockIndex fun _ :
      Writer => none := by
  have hperm := List.perm_insertionSort (· ≤ ·) s.openIndices
  refine h.reads.stopAll (hperm.nodup_iff.mpr ?_) fun i => (hperm.mem_iff).trans ?_
  · rw [s.openIndices_eq]
    exact s.nodup_writers.filterMap fun w w' i hw hw' => h.reads.distinct hw hw'
  · rw [s.openIndices_eq, List.mem_filterMap]
    constructor
    · rintro ⟨w, -, hw⟩
      exact ⟨w, hw⟩
    · rintro ⟨w, hw⟩
      exact ⟨w, s.mem_writers hw, hw⟩

theorem openNamed (h : Writes s es T R fs) (k : Nat) :
    Writes (s.openNamed k).2 (es ++ (s.openNamed k).1) T R fs := by
  by_cases hwaiting : (s.call k).started = false ∧ (s.call k).name ≠ ""
  · rw [s.openNamed_of_waiting hwaiting]
    exact h.openCall hwaiting.1 (h.calls k).named ((h.calls k).waiting hwaiting.1)
      fun k' _ => h.calls k'
  · rw [s.openNamed_of_not hwaiting]
    simpa using h

theorem openAllNamed (h : Writes s es T R fs) (ks : List Nat) :
    Writes (s.openAllNamed ks).2 (es ++ (s.openAllNamed ks).1) T R fs := by
  induction ks generalizing s es with
  | nil => simpa [AnthropicSseEncoder.openAllNamed] using h
  | cons k ks ih =>
    simp only [AnthropicSseEncoder.openAllNamed]
    rw [← List.append_assoc]
    exact ih (h.openNamed k)

end Writes

/-- The events with no block left open. -/
structure Closes (s : AnthropicSseEncoder) (es : List BlockEvent) (T R : String) (fs : List Value) :
    Prop where
  reads : Reads es s.nextBlockIndex fun _ : Writer => none
  text : textIn es = T
  thinking : thinkingIn es = R
  calls : ∀ k, CallTold es fs k (s.call k)

theorem Writes.closeOpenBlocks {s : AnthropicSseEncoder} {es : List BlockEvent} {T R : String}
    {fs : List Value} (h : Writes s es T R fs) :
    Closes s.closeOpenBlocks.2 (es ++ s.closeOpenBlocks.1) T R fs := by
  have hopened := h.openAllNamed s.toolCalls.keys
  have hstopped := hopened.reads_stops
  have hthinking := hopened.thinking
  rw [AnthropicSseEncoder.heldReasoning_openAllNamed] at hthinking
  simp only [AnthropicSseEncoder.closeOpenBlocks, AnthropicSseEncoder.writeHeld,
    AnthropicSseEncoder.heldReasoning_openAllNamed]
  split
  · next hempty =>
    simp only [List.append_nil, ← List.append_assoc]
    refine ⟨hstopped, by simp [← hopened.text], ?_, hopened.calls_append (by simp)⟩
    simpa [hempty] using hthinking
  · simp only [← List.append_assoc]
    have hwhole := hstopped.whole (o := .thinking) rfl .thinking (.thinkingDelta s.heldReasoning)
    refine ⟨hwhole, by simp [← hopened.text], ?_, ?_⟩
    · simpa [String.append_assoc] using hthinking
    · rw [List.append_assoc]
      exact hopened.calls_append (by simp)

/-- The encoder in the middle of the answer: a call's block opens once the call has an id and a
name, and reasoning is held only behind one. -/
structure Streams (s : AnthropicSseEncoder) (es : List BlockEvent) (T R : String)
    (fs : List Value) : Prop where
  writes : Writes s es T R fs
  identified : ∀ k, (s.call k).id ≠ "" ↔ Identified fs k
  started : ∀ k, (s.call k).started = true ↔ Named fs k ∧ Identified fs k
  held : s.heldReasoning ≠ "" → s.toolBlockOpen = true

namespace Streams

variable {s : AnthropicSseEncoder} {es : List BlockEvent} {T R : String} {fs : List Value}

theorem absorbed (h : Streams s es T R fs) (tc : Value) :
    ((s.absorbed tc).name ≠ "" ↔ Named (fs ++ [tc]) (callIndex tc)) ∧
      ((s.absorbed tc).id ≠ "" ↔ Identified (fs ++ [tc]) (callIndex tc)) ∧
      ((s.absorbed tc).started = true → (s.absorbed tc).pendingArguments = callArguments tc) ∧
      ((s.absorbed tc).started = false →
        (s.absorbed tc).pendingArguments = argumentsOf (callIndex tc) (fs ++ [tc])) := by
  have hcall := h.writes.calls (callIndex tc)
  refine ⟨?_, ?_, fun hstarted => ?_, fun hstarted => ?_⟩
  · simp only [AnthropicSseEncoder.absorbed, ToolCallState.absorb, named_concat, ← hcall.named]
    by_cases hname : callName tc = "" <;> simp [hname]
  · simp only [AnthropicSseEncoder.absorbed, ToolCallState.absorb,
      identified_concat, ← h.identified]
    by_cases hid : callId tc = "" <;> simp [hid]
  · obtain ⟨hpending, -⟩ := hcall.written hstarted
    simp [AnthropicSseEncoder.absorbed, ToolCallState.absorb, hpending]
  · have hpending := hcall.waiting hstarted
    simp [AnthropicSseEncoder.absorbed, ToolCallState.absorb, hpending, argumentsOf_concat]

theorem toolBlockOpen_iff (h : Streams s es T R fs) :
    s.toolBlockOpen = true ↔ ∃ k, Named fs k ∧ Identified fs k := by
  simp only [AnthropicSseEncoder.toolBlockOpen_iff, h.started]

theorem not_toolBlockOpen (h : Streams s es T R fs) (hunnamed : ∀ k, ¬Named fs k) :
    ¬s.toolBlockOpen = true := by
  rw [h.toolBlockOpen_iff]
  rintro ⟨k, hk, -⟩
  exact hunnamed k hk

theorem heldReasoning_eq (h : Streams s es T R fs) (hshut : ¬s.toolBlockOpen = true) :
    s.heldReasoning = "" := by
  by_contra hne
  exact hshut (h.held hne)

theorem setCall (h : Streams s es T R fs) {tc : Value} {t : ToolCallState} {n : Nat}
    {evs : List BlockEvent}
    (hwrites : Writes
      { s with toolCalls := s.toolCalls.insert (callIndex tc) t, nextBlockIndex := n }
        (es ++ evs) T R (fs ++ [tc]))
    (hid : t.id = (s.absorbed tc).id)
    (hstarted : t.started = true ↔ (s.absorbed tc).name ≠ "" ∧ (s.absorbed tc).id ≠ "") :
    Streams { s with toolCalls := s.toolCalls.insert (callIndex tc) t, nextBlockIndex := n }
      (es ++ evs) T R (fs ++ [tc]) := by
  obtain ⟨hname', hid', -⟩ := h.absorbed tc
  have hready : ∀ k, (AnthropicSseEncoder.call
      { s with toolCalls := s.toolCalls.insert (callIndex tc) t, nextBlockIndex := n } k).started =
        true ↔ Named (fs ++ [tc]) k ∧ Identified (fs ++ [tc]) k := by
    intro k
    rw [s.call_insert]
    split
    · next heq => rw [hstarted, hname', hid', heq]
    · next hne => simp [h.started, named_concat, identified_concat, Ne.symm hne]
  refine ⟨hwrites, fun k => ?_, hready, fun hheld => ?_⟩
  · rw [s.call_insert]
    split
    · next heq => rw [hid, hid', heq]
    · next hne => simp [h.identified, identified_concat, Ne.symm hne]
  · obtain ⟨k, hnamed, hidentified⟩ := h.toolBlockOpen_iff.mp (h.held hheld)
    exact AnthropicSseEncoder.toolBlockOpen_iff.mpr ⟨k, (hready k).mpr
      ⟨named_concat.mpr (.inl hnamed), identified_concat.mpr (.inl hidentified)⟩⟩

theorem readToolCall_started (h : Streams s es T R fs) {tc : Value}
    (hopen : (s.absorbed tc).started = true) :
    Writes
      { s with toolCalls := s.toolCalls.insert (callIndex tc) (s.absorbed tc).flushArguments.1 }
      (es ++ (s.absorbed tc).flushArguments.2) T R (fs ++ [tc]) := by
  obtain ⟨hname, -, hpending, -⟩ := h.absorbed tc
  obtain ⟨-, ⟨id, name, hstart⟩, hinput⟩ := (h.writes.calls (callIndex tc)).written hopen
  have hslot : s.slot (.call (callIndex tc)) = some (s.call (callIndex tc)).contentBlockIndex :=
    if_pos hopen
  refine h.writes.setCall ?_ (by simp) (by simp) ⟨?_, ?_, fun _ => ⟨?_, ?_, ?_⟩⟩ fun k hne => ?_
  · rw [ToolCallState.block?_flushArguments, s.slot_absorbed tc]
    exact reads_flushArguments h.writes.reads hslot
  · simpa [ToolCallState.flushArguments_fst] using hname
  · simp [ToolCallState.flushArguments_fst, hopen]
  · simp [ToolCallState.flushArguments_fst]
  · refine ⟨id, name, List.mem_append_left _ ?_⟩
    simpa [ToolCallState.flushArguments_fst] using hstart
  · simp [ToolCallState.flushArguments_fst, ToolCallState.inputIn_flushArguments, hpending hopen,
      argumentsOf_concat, hinput]
  · refine ((h.writes.calls k).fragment (Ne.symm hne)).append fun i hi => ?_
    rw [ToolCallState.inputIn_flushArguments, if_neg ?_]
    rintro rfl
    exact hne (Writer.call.inj (h.writes.reads.distinct (o := .call k) hi hslot))

theorem readToolCall (h : Streams s es T R fs) (tc : Value) :
    Streams (s.readToolCall tc).2 (es ++ (s.readToolCall tc).1) T R (fs ++ [tc]) := by
  obtain ⟨hname, hid, hpending, hargs⟩ := h.absorbed tc
  have hothers : ∀ k ≠ callIndex tc, CallTold es (fs ++ [tc]) k (s.call k) :=
    fun k hne => (h.writes.calls k).fragment (Ne.symm hne)
  by_cases hopen : (s.absorbed tc).started = true
  · rw [AnthropicSseEncoder.readToolCall_of_started hopen]
    refine h.setCall (h.readToolCall_started hopen) (by simp [ToolCallState.flushArguments_fst]) ?_
    have hknown : Named fs (callIndex tc) ∧ Identified fs (callIndex tc) :=
      (h.started (callIndex tc)).mp hopen
    simp [ToolCallState.flushArguments_fst, hopen, hname, hid,
      named_concat, identified_concat, hknown]
  · rw [Bool.not_eq_true] at hopen
    have hclosed : (s.call (callIndex tc)).started = false := hopen
    by_cases hready : (s.absorbed tc).id ≠ "" ∧ (s.absorbed tc).name ≠ ""
    · rw [AnthropicSseEncoder.readToolCall_of_ready ⟨hopen, hready⟩]
      refine h.setCall (h.writes.openCall hclosed hname (hargs hopen) hothers)
        (by simp [ToolCallState.flushArguments_fst, ToolCallState.start]) ?_
      simp [ToolCallState.flushArguments_fst, ToolCallState.start, hready]
    · rw [AnthropicSseEncoder.readToolCall_of_waiting hopen hready]
      refine h.setCall (h.writes.setCall ?_ (by simp) (by simp) ?_ (by simpa using hothers)) rfl ?_
      · rw [s.slot_absorbed tc, List.append_nil]
        exact h.writes.reads
      · exact ⟨hname, by simpa using hargs, by simp [hopen]⟩
      · simpa [hopen, and_comm] using hready

theorem readToolCalls (h : Streams s es T R fs) (tcs : List Value) :
    Streams (s.readToolCalls tcs).2 (es ++ (s.readToolCalls tcs).1) T R (fs ++ tcs) := by
  induction tcs generalizing s es fs with
  | nil => simpa [AnthropicSseEncoder.readToolCalls] using h
  | cons tc tcs ih =>
    simp only [AnthropicSseEncoder.readToolCalls]
    rw [← List.append_assoc, List.append_cons fs tc tcs]
    exact ih (h.readToolCall tc)

theorem of_toolCalls (h : Streams s es T R fs) {s' : AnthropicSseEncoder} {es' : List BlockEvent}
    {T' R' : String} (hwrites : Writes s' es' T' R' fs) (hcalls : s'.toolCalls = s.toolCalls)
    (hheld : s'.heldReasoning ≠ "" → s.toolBlockOpen = true) : Streams s' es' T' R' fs := by
  have hcall : ∀ k, s'.call k = s.call k := fun k => by simp [AnthropicSseEncoder.call, hcalls]
  have hopen : s'.toolBlockOpen = s.toolBlockOpen := by
    simp [AnthropicSseEncoder.toolBlockOpen, hcalls]
  refine ⟨hwrites, fun k => ?_, fun k => ?_, fun hne => ?_⟩
  · rw [hcall, h.identified]
  · rw [hcall, h.started]
  · rw [hopen, hheld hne]

theorem closeThinkingBlock (h : Streams s es T R fs) :
    Streams s.closeThinkingBlock.2 (es ++ s.closeThinkingBlock.1) T R fs := by
  have hsame : s.closeThinkingBlock.2.toolCalls = s.toolCalls ∧
      s.closeThinkingBlock.2.heldReasoning = s.heldReasoning := by
    simp only [AnthropicSseEncoder.closeThinkingBlock]
    split <;> exact ⟨rfl, rfl⟩
  exact h.of_toolCalls h.writes.closeThinkingBlock hsame.1 (hsame.2 ▸ h.held)

theorem readText (h : Streams s es T R fs) (text : String) :
    Streams (s.readText text).2 (es ++ (s.readText text).1) (T ++ text) R fs := by
  have hsame : (s.readText text).2.toolCalls = s.toolCalls ∧
      (s.readText text).2.heldReasoning = s.heldReasoning := by
    simp only [AnthropicSseEncoder.readText]
    split
    · exact ⟨rfl, rfl⟩
    · split <;> exact ⟨rfl, rfl⟩
  exact h.of_toolCalls (h.writes.readText text) hsame.1 (hsame.2 ▸ h.held)

/-- While no call is named, closing the open blocks closes the text and the thinking block only. -/
theorem closeOpenBlocks_of_unnamed (h : Streams s es T R fs) (hunnamed : ∀ k, ¬Named fs k) :
    Streams s.closeOpenBlocks.2 (es ++ s.closeOpenBlocks.1) T R fs ∧
      s.closeOpenBlocks.2.slot = fun _ => none := by
  have hname : ∀ k, (s.call k).name = "" := by
    intro k
    by_contra hne
    exact hunnamed k ((h.writes.calls k).named.mp hne)
  have hshut := h.not_toolBlockOpen hunnamed
  have hheld := h.heldReasoning_eq hshut
  have hstate :
      s.closeOpenBlocks.2 = { s with thinkingBlockIndex := none, textBlockIndex := none } := by
    simp only [AnthropicSseEncoder.closeOpenBlocks, AnthropicSseEncoder.writeHeld,
      AnthropicSseEncoder.openAllNamed_of_unnamed hname, hheld, if_pos]
  have hslot : s.closeOpenBlocks.2.slot = fun _ => none := by
    rw [hstate]
    funext w
    cases w with
    | thinking => rfl
    | text => rfl
    | call k =>
      have hclosed : ¬(s.call k).started = true :=
        fun hstarted => hshut (AnthropicSseEncoder.toolBlockOpen_iff.mpr ⟨k, hstarted⟩)
      exact if_neg hclosed
  have hcloses := h.writes.closeOpenBlocks
  refine ⟨h.of_toolCalls ⟨?_, hcloses.text, ?_, hcloses.calls⟩ ?_ ?_, hslot⟩
  · rw [hslot]
    exact hcloses.reads
  · rw [hstate]
    simpa [hheld] using hcloses.thinking
  · rw [hstate]
  · rw [hstate]
    exact h.held

theorem readReasoning (h : Streams s es T R fs) {reasoning : String}
    (hquiet : reasoning ≠ "" → (∃ k, Named fs k) → ∃ k, Named fs k ∧ Identified fs k) :
    Streams (s.readReasoning reasoning).2 (es ++ (s.readReasoning reasoning).1) T
      (R ++ reasoning) fs := by
  simp only [AnthropicSseEncoder.readReasoning]
  split
  · next hempty => simpa [hempty] using h
  · next hne =>
    split
    · next hopen =>
      rw [List.append_nil]
      refine h.of_toolCalls ⟨h.writes.reads, h.writes.text, ?_, h.writes.calls⟩ rfl fun _ => hopen
      simp [← h.writes.thinking, String.append_assoc]
    · next hshut =>
      have hheld := h.heldReasoning_eq hshut
      split
      · next idx hidx =>
        have hslot : s.slot .thinking = some idx := hidx
        refine h.of_toolCalls ⟨h.writes.reads.delta hslot _, by simp [h.writes.text], ?_,
          h.writes.calls_append (by simp)⟩ rfl h.held
        simp [← h.writes.thinking, hheld]
      · next hnone =>
        have hunnamed : ∀ k, ¬Named fs k :=
          fun k hk => hshut (h.toolBlockOpen_iff.mpr (hquiet hne ⟨k, hk⟩))
        obtain ⟨hclosed, hslot⟩ := h.closeOpenBlocks_of_unnamed hunnamed
        rw [← List.append_assoc]
        have hnothing : s.closeOpenBlocks.2.slot .thinking = none := by rw [hslot]
        have hstart := hclosed.writes.reads.start hnothing .thinking fun w => rfl
        have hdelta :=
          hstart.delta (o := .thinking) (i := s.closeOpenBlocks.2.nextBlockIndex) (by simp)
          (.thinkingDelta reasoning)
        have hheld' := hclosed.heldReasoning_eq (hclosed.not_toolBlockOpen hunnamed)
        refine hclosed.of_toolCalls ⟨?_, by simp [← hclosed.writes.text], ?_,
          hclosed.writes.calls_append (by simp)⟩ rfl hclosed.held
        · rw [List.append_cons, AnthropicSseEncoder.slot_openThinking]
          exact hdelta
        · have hthinking := hclosed.writes.thinking
          rw [hheld', String.append_empty] at hthinking
          simp [← hthinking, hheld', String.append_assoc]

theorem readDelta (h : Streams s es T R fs) {delta : ChatDelta}
    (hquiet : reasoningOf delta ≠ "" → (∃ k, Named fs k) → ∃ k, Named fs k ∧ Identified fs k) :
    Streams (s.readDelta delta).2 (es ++ (s.readDelta delta).1) (T ++ textOf delta)
      (R ++ reasoningOf delta)
      (fs ++ delta.toolCalls.getD []) := by
  have hthought := h.readReasoning hquiet
  simp only [AnthropicSseEncoder.readDelta]
  split
  · have htold := hthought.closeThinkingBlock.readText (textOf delta)
    simpa only [List.append_assoc] using htold.readToolCalls (delta.toolCalls.getD [])
  · have htold := hthought.readText (textOf delta)
    simpa only [List.append_assoc, List.append_nil] using htold.readToolCalls
      (delta.toolCalls.getD [])

end Streams

/-- The blocks as a client reads them: whole, with the text, the reasoning, and for each named call
a block of its own with its arguments. -/
structure Tells (es : List BlockEvent) (T R : String) (fs : List Value) : Prop where
  wellFormed : WellFormed es
  text : textIn es = T
  thinking : thinkingIn es = R
  calls : ∃ block : Nat → Nat, (∀ k k', Named fs k → Named fs k' → block k = block k' → k = k') ∧
    ∀ k, Named fs k → (∃ id name, .start (block k) (.toolUse id name) ∈ es) ∧
      inputIn (block k) es = argumentsOf k fs

theorem Writes.tells {s : AnthropicSseEncoder} {es : List BlockEvent} {T R : String}
    {fs : List Value} (h : Writes s es T R fs) : Tells (es ++ s.closeOpenBlocks.1) T R fs := by
  have hcloses := h.closeOpenBlocks
  have hopened := h.openAllNamed s.toolCalls.keys
  have hcall : ∀ k, s.closeOpenBlocks.2.call k = (s.openAllNamed s.toolCalls.keys).2.call k := by
    intro k
    simp only [AnthropicSseEncoder.closeOpenBlocks, AnthropicSseEncoder.writeHeld]
    split <;> rfl
  have hstarted : ∀ k, Named fs k → (s.closeOpenBlocks.2.call k).started = true := by
    intro k hk
    rw [hcall]
    exact s.settled_openAllNamed_keys k ((hopened.calls k).named.mpr hk)
  have hslot : ∀ k, Named fs k → (s.openAllNamed s.toolCalls.keys).2.slot (.call k) =
      some (s.closeOpenBlocks.2.call k).contentBlockIndex := by
    intro k hk
    rw [hcall]
    exact if_pos (hcall k ▸ hstarted k hk)
  refine ⟨hcloses.reads.wellFormed, hcloses.text, hcloses.thinking,
    fun k => (s.closeOpenBlocks.2.call k).contentBlockIndex,
    fun k k' hk hk' heq => ?_, fun k hk => ?_⟩
  · have hslot' := (hslot k' hk').trans (congrArg some heq.symm)
    exact Writer.call.inj (hopened.reads.distinct (hslot k hk) hslot')
  · obtain ⟨-, hstart, hinput⟩ := (hcloses.calls k).written (hstarted k hk)
    exact ⟨hstart, hinput⟩

end Anthropic
end Aisix
