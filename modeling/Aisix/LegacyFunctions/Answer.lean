import Aisix.LegacyFunctions

/-!
# Aisix.LegacyFunctions.Answer

A streamed answer written back is the whole one: merging the chunks and writing back commute
(`answerOf_replyStream`).
-/

namespace Aisix
namespace LegacyFunctions

open Json ChatMerge

/-- The chunks of one choice. -/
def ofChoice (k : Nat) (chunks : List ChatChunk) : List ChatChunk :=
  chunks.filter (·.choiceIndex == k)

/-- What a client has of a choice in the end, as a message. -/
def messageOf (m : Merged) : ChatMessage where
  role := .assistant
  content := some m.content
  contentBlocks := none
  name := none
  toolCallId := none
  extra := [("reasoning_content", .string m.reasoning), ("refusal", .string m.refusal)] ++
    (if m.toolCalls.isEmpty then [] else [("tool_calls", .array (m.toolCalls.map Prod.snd))]) ++
    optional "function_call" m.functionCall

def mergedChoice (chunks : List ChatChunk) (k : Nat) : ChatChoice :=
  let m := merge (ofChoice k chunks)
  ⟨k, messageOf m, m.finishReason.getD .stop, m.logprobs⟩

/-- The choices past the first, in the order in which they begin. -/
def moreIndices (chunks : List ChatChunk) : List Nat :=
  ((chunks.map (·.choiceIndex)).filter (· != 0)).eraseDups

/-- What a client has in the end, as a whole answer: each choice is merged of its own chunks, and
the usage and the tier are the answer's. -/
def answerOf (id model : String) (chunks : List ChatChunk) : ChatResponse where
  id := id
  model := model
  message := (mergedChoice chunks 0).message
  finishReason := (mergedChoice chunks 0).finishReason
  logprobs := (mergedChoice chunks 0).logprobs
  moreChoices := (moreIndices chunks).map (mergedChoice chunks)
  usage := (merge chunks).usage.getD .default
  serviceTier := (merge chunks).serviceTier

def deltaCalls (c : ChatChunk) : List Value := c.delta.toolCalls.getD []

def isFirst (call : Value) : Bool := callIndex call == 0

/-- Fragments of each choice's first call: it comes before the choice's others, one fragment a
chunk, each an object. -/
structure Regular (chunks : List ChatChunk) : Prop where
  first : ∀ k, ∀ call ∈ ((ofChoice k chunks).flatMap deltaCalls).head?, callIndex call = 0
  one : ∀ c ∈ chunks, ((deltaCalls c).filter isFirst).length ≤ 1
  object : ∀ c ∈ chunks, ∀ call ∈ deltaCalls c, callIndex call = 0 → ∃ fields, call = .object fields
  modern : ∀ c ∈ chunks, c.delta.functionCall = none ∧ c.delta.extra.lookup "function_call" = none

def functionOf (call : Value) : Option Value := call.get "function"

/-- The function of the first call so far. -/
def headFunction (calls : Calls) : Option Value := calls.head?.bind fun e => functionOf e.2

theorem functionOf_accumulate (old : Value) (fields : List (String × Value)) :
    functionOf (accumulate old (.object fields)) =
      grow (functionOf old) (functionOf (.object fields)) := by
  cases old with
  | object members => exact lookup_accumulateFields rfl members fields
  | _ =>
    cases h : functionOf (.object fields) <;>
      simp [accumulate, functionOf, Value.get, grow] at h ⊢ <;> exact h

theorem headFunction_addCall {calls : Calls} {e : Nat × Value} (hhead : calls.head? = some e)
    (hfirst : e.1 = 0) {call : Value}
    (hobject : callIndex call = 0 → ∃ fields, call = .object fields) :
    ∃ e', (addCall calls call).head? = some e' ∧ e'.1 = 0 ∧
      functionOf e'.2 = if isFirst call then grow (functionOf e.2)
        (functionOf call) else functionOf e.2 := by
  obtain ⟨rest, rfl⟩ : ∃ rest, calls = e :: rest := by
    cases calls with
    | nil => cases hhead
    | cons a rest => exact ⟨rest, by rw [List.head?_cons] at hhead; rw [Option.some.inj hhead]⟩
  by_cases hindex : callIndex call = 0
  · obtain ⟨fields, rfl⟩ := hobject hindex
    have hmem : callIndex (.object fields) ∈ (e :: rest).map Prod.fst := by
      rw [hindex, ← hfirst]
      exact List.mem_map_of_mem List.mem_cons_self
    rw [addCall, if_pos hmem, List.map_cons, if_pos (hfirst.trans hindex.symm)]
    refine ⟨_, rfl, hfirst, ?_⟩
    rw [functionOf_accumulate, if_pos (by rw [isFirst, hindex]; rfl)]
  · have hother : isFirst call = false := beq_eq_false_iff_ne.2 hindex
    rw [hother]
    refine ⟨e, ?_, hfirst, rfl⟩
    unfold addCall
    split
    · rw [List.map_cons, if_neg fun h => hindex (h.symm.trans hfirst), List.head?_cons]
    · rfl

theorem headFunction_foldl (fragments : List Value) {calls : Calls} {e : Nat × Value}
    (hhead : calls.head? = some e) (hfirst : e.1 = 0)
    (hobject : ∀ call ∈ fragments, callIndex call = 0 → ∃ fields, call = .object fields) :
    ∃ e', (fragments.foldl addCall calls).head? = some e' ∧ e'.1 = 0 ∧
      functionOf e'.2 = (fragments.filter isFirst).foldl (fun f call => grow f (functionOf call))
        (functionOf e.2) := by
  induction fragments generalizing calls e with
  | nil => exact ⟨e, hhead, hfirst, rfl⟩
  | cons call fragments ih =>
    obtain ⟨e₁, hhead₁, hfirst₁, hfunction₁⟩ :=
      headFunction_addCall hhead hfirst (hobject call List.mem_cons_self)
    obtain ⟨e₂, hhead₂, hfirst₂, hfunction₂⟩ :=
      ih hhead₁ hfirst₁ fun c hc => hobject c (List.mem_cons_of_mem call hc)
    refine ⟨e₂, hhead₂, hfirst₂, ?_⟩
    rw [hfunction₂, hfunction₁, List.filter_cons]
    cases isFirst call <;> rfl

theorem foldl_of_one {calls : List Value} (hone : (calls.filter isFirst).length ≤ 1)
    (f : Option Value) :
    (calls.filter isFirst).foldl (fun f call => grow f (functionOf call)) f =
      grow f ((calls.find? isFirst).bind functionOf) := by
  rw [← List.head?_filter]
  cases hfilter : calls.filter isFirst with
  | nil => cases f <;> rfl
  | cons call rest =>
    rw [hfilter, List.length_cons] at hone
    obtain rfl : rest = [] := List.length_eq_zero_iff.1 (by omega)
    rfl

theorem headFunction_chunk {c : ChatChunk} {calls : Calls} (hhead : ∀ e ∈ calls.head?, e.1 = 0)
    (hnew : calls = [] → ∀ call ∈ (deltaCalls c).head?, callIndex call = 0)
    (hone : ((deltaCalls c).filter isFirst).length ≤ 1)
    (hobject : ∀ call ∈ deltaCalls c, callIndex call = 0 → ∃ fields, call = .object fields) :
    (∀ e ∈ ((deltaCalls c).foldl addCall calls).head?, e.1 = 0) ∧
      headFunction ((deltaCalls c).foldl addCall calls) =
        grow (headFunction calls) (((deltaCalls c).find? isFirst).bind functionOf) := by
  rw [← foldl_of_one hone]
  cases hcalls : calls with
  | cons e rest =>
    subst hcalls
    obtain ⟨e', hhead', hfirst', hfunction'⟩ :=
      headFunction_foldl (deltaCalls c) List.head?_cons (hhead e rfl) hobject
    rw [headFunction, hhead', Option.bind_some, hfunction']
    exact ⟨fun a ha => Option.some.inj ha ▸ hfirst', rfl⟩
  | nil =>
    cases hdelta : deltaCalls c with
    | nil =>
      refine ⟨?_, rfl⟩
      intro e he
      cases he
    | cons call rest =>
      have hindex : callIndex call = 0 := hnew hcalls call (by rw [hdelta]; rfl)
      rw [hdelta] at hobject
      have hstart : (addCall [] call).head? = some (callIndex call, call) := rfl
      obtain ⟨e', hhead', hfirst', hfunction'⟩ := headFunction_foldl rest hstart hindex fun d hd =>
        hobject d (List.mem_cons_of_mem call hd)
      have hisFirst : isFirst call = true := beq_iff_eq.2 hindex
      rw [List.foldl_cons, headFunction, hhead', Option.bind_some, hfunction',
        List.filter_cons_of_pos hisFirst]
      refine ⟨fun a ha => Option.some.inj ha ▸ hfirst', ?_⟩
      rw [List.foldl_cons]
      congr 1

/-- A choice so far, of the chunks as they came and as they were rewritten. -/
structure Kept (m m' : Merged) : Prop where
  content : m'.content = m.content
  reasoning : m'.reasoning = m.reasoning
  refusal : m'.refusal = m.refusal
  modern : m.functionCall = none
  function : m'.functionCall = headFunction m.toolCalls
  bare : m'.toolCalls = []
  logprobs : m'.logprobs = m.logprobs
  finish : m'.finishReason = m.finishReason.map legacyFinish
  first : ∀ e ∈ m.toolCalls.head?, e.1 = 0

theorem functionFragment_legacyChunk {c : ChatChunk}
    (hmodern : c.delta.functionCall = none ∧ c.delta.extra.lookup "function_call" = none) :
    Merged.functionFragment (legacyChunk c).delta =
      ((deltaCalls c).find? isFirst).bind functionOf := by
  unfold Merged.functionFragment legacyChunk
  dsimp only
  rw [hmodern.1, Option.none_or]
  generalize hfirst : ((c.delta.toolCalls.getD []).find? fun call => callIndex call == 0).bind
    (fun call => call.get "function") = first
  have hfunction : ((deltaCalls c).find? isFirst).bind functionOf = first := hfirst
  rw [hfunction]
  cases first with
  | none => exact hmodern.2
  | some function => exact lookup_setMember ..

theorem refusal_legacyChunk (c : ChatChunk) :
    (legacyChunk c).delta.extra.lookup "refusal" = c.delta.extra.lookup "refusal" := by
  unfold legacyChunk
  dsimp only
  split
  · exact lookup_setMember_of_ne (by decide) ..
  · rfl

theorem Kept.add {m m' : Merged} (h : Kept m m') {c : ChatChunk}
    (hmodern : c.delta.functionCall = none ∧ c.delta.extra.lookup "function_call" = none)
    (hnew : m.toolCalls = [] → ∀ call ∈ (deltaCalls c).head?, callIndex call = 0)
    (hone : ((deltaCalls c).filter isFirst).length ≤ 1)
    (hobject : ∀ call ∈ deltaCalls c, callIndex call = 0 → ∃ fields, call = .object fields) :
    Kept (m.add c) (m'.add (legacyChunk c)) := by
  obtain ⟨hfirst, hfunction⟩ := headFunction_chunk h.first hnew hone hobject
  constructor
  · exact congrArg (· ++ _) h.content
  · exact congrArg (· ++ _) h.reasoning
  · rw [Merged.add, Merged.add, refusal_legacyChunk, h.refusal]
  · rw [Merged.add, h.modern, Merged.functionFragment, hmodern.1, hmodern.2]
    rfl
  · rw [Merged.add, functionFragment_legacyChunk hmodern, h.function]
    exact hfunction.symm
  · exact h.bare
  · exact congrArg (c.logprobs.or ·) h.logprobs
  · rw [Merged.add, Merged.add, h.finish]
    unfold legacyChunk
    cases c.finishReason <;> rfl
  · exact hfirst

theorem addCall_ne_nil (calls : Calls) (call : Value) : addCall calls call ≠ [] := by
  unfold addCall
  split
  · next h =>
    intro hnil
    rw [List.map_eq_nil_iff.1 hnil] at h
    exact absurd h List.not_mem_nil
  · exact List.concat_ne_nil _ _

theorem eq_nil_of_foldl_addCall {fragments : List Value} {calls : Calls}
    (h : fragments.foldl addCall calls = []) : calls = [] ∧ fragments = [] := by
  induction fragments generalizing calls with
  | nil => exact ⟨h, rfl⟩
  | cons call fragments ih => exact absurd (ih h).1 (addCall_ne_nil calls call)

theorem kept_foldl {chunks : List ChatChunk} {m m' : Merged} (h : Kept m m')
    (hnew : m.toolCalls = [] → ∀ call ∈ (chunks.flatMap deltaCalls).head?, callIndex call = 0)
    (hone : ∀ c ∈ chunks, ((deltaCalls c).filter isFirst).length ≤ 1)
    (hobject : ∀ c ∈ chunks, ∀ call ∈ deltaCalls c, callIndex call = 0 →
      ∃ fields, call = .object fields)
    (hmodern : ∀ c ∈ chunks, c.delta.functionCall = none ∧
      c.delta.extra.lookup "function_call" = none) :
    Kept (chunks.foldl Merged.add m) ((chunks.map legacyChunk).foldl Merged.add m') := by
  induction chunks generalizing m m' with
  | nil => exact h
  | cons c chunks ih =>
    have hhere : m.toolCalls = [] → ∀ call ∈ (deltaCalls c).head?, callIndex call = 0 := by
      intro hempty call hcall
      refine hnew hempty call ?_
      rw [List.flatMap_cons, List.head?_append, Option.mem_def.1 hcall]
      rfl
    have hlater : (m.add c).toolCalls = [] → ∀ call ∈ (chunks.flatMap deltaCalls).head?,
        callIndex call = 0 := by
      intro hempty
      obtain ⟨hcalls, hdelta⟩ := eq_nil_of_foldl_addCall hempty
      have hnone : deltaCalls c = [] := hdelta
      rw [List.flatMap_cons, hnone, List.nil_append] at hnew
      exact hnew hcalls
    exact ih (h.add (hmodern c List.mem_cons_self) hhere (hone c List.mem_cons_self)
      (hobject c List.mem_cons_self)) hlater (fun d hd => hone d (List.mem_cons_of_mem c hd))
      (fun d hd => hobject d (List.mem_cons_of_mem c hd))
      (fun d hd => hmodern d (List.mem_cons_of_mem c hd))

theorem Kept.message {m m' : Merged} (h : Kept m m') :
    messageOf m' = legacyMessage (messageOf m) := by
  have hcalls : (messageOf m).extra.lookup "tool_calls" =
      if m.toolCalls.isEmpty then none else some (.array (m.toolCalls.map Prod.snd)) := by
    rw [messageOf, h.modern]
    cases m.toolCalls <;> rfl
  have hplain : remove "tool_calls" (messageOf m).extra =
      [("reasoning_content", .string m.reasoning), ("refusal", .string m.refusal)] := by
    rw [messageOf, h.modern]
    cases m.toolCalls <;> rfl
  have hextra : (messageOf m').extra =
      [("reasoning_content", .string m.reasoning), ("refusal", .string m.refusal)] ++
        optional "function_call" (headFunction m.toolCalls) := by
    rw [messageOf, h.bare, h.function, h.reasoning, h.refusal]
    rfl
  have hlegacy : legacyMessage (messageOf m) =
      { messageOf m with extra := (messageOf m').extra } := by
    rw [legacyMessage, hcalls, hplain, hextra]
    cases m.toolCalls with
    | nil => rfl
    | cons e rest =>
      rw [headFunction, List.head?_cons, Option.bind_some, functionOf]
      simp only [List.isEmpty_cons, Bool.false_eq_true, if_false, List.map_cons]
      cases e.2.get "function" <;> rfl
  rw [hlegacy, messageOf, messageOf, h.content]

theorem mergedChoice_legacy {chunks : List ChatChunk} (h : Regular chunks) (k : Nat) :
    mergedChoice (chunks.map legacyChunk) k = legacyChoice (mergedChoice chunks k) := by
  have hmap : ofChoice k (chunks.map legacyChunk) = (ofChoice k chunks).map legacyChunk := by
    rw [ofChoice, List.filter_map]
    rfl
  have hstart : Kept .empty .empty :=
    ⟨rfl, rfl, rfl, rfl, rfl, rfl, rfl, rfl, fun _ he => by cases he⟩
  have hmem : ∀ {c}, c ∈ ofChoice k chunks → c ∈ chunks := List.mem_of_mem_filter
  have hkept : Kept (merge (ofChoice k chunks)) (merge ((ofChoice k chunks).map legacyChunk)) :=
    kept_foldl hstart (fun _ => h.first k) (fun c hc => h.one c (hmem hc))
      (fun c hc => h.object c (hmem hc)) fun c hc => h.modern c (hmem hc)
  have hstop : ((merge (ofChoice k chunks)).finishReason.map legacyFinish).getD .stop =
      legacyFinish ((merge (ofChoice k chunks)).finishReason.getD .stop) := by
    cases (merge (ofChoice k chunks)).finishReason <;> rfl
  rw [mergedChoice, hmap, hkept.message, hkept.finish, hkept.logprobs, hstop]
  rfl

theorem counted_legacy (chunks : List ChatChunk) :
    (merge (chunks.map legacyChunk)).usage = (merge chunks).usage ∧
      (merge (chunks.map legacyChunk)).serviceTier = (merge chunks).serviceTier := by
  suffices h : ∀ m m' : Merged, m'.usage = m.usage ∧ m'.serviceTier = m.serviceTier →
      ((chunks.map legacyChunk).foldl Merged.add m').usage = (chunks.foldl Merged.add m).usage ∧
        ((chunks.map legacyChunk).foldl Merged.add m').serviceTier =
          (chunks.foldl Merged.add m).serviceTier from h .empty .empty ⟨rfl, rfl⟩
  induction chunks with
  | nil => exact fun m m' h => h
  | cons c chunks ih =>
    intro m m' h
    exact ih _ _ ⟨congrArg (c.usage.or ·) h.1, congrArg (c.serviceTier.or ·) h.2⟩

/-- The rewritten chunks of a regular stream make the rewritten answer that the chunks make. -/
theorem answerOf_replyStream (l : LegacyFunctionCalling) {chunks : List ChatChunk}
    (h : Regular chunks) (id model : String) :
    answerOf id model (replyStream l chunks) = reply l (answerOf id model chunks) := by
  obtain ⟨legacy⟩ := l
  cases legacy with
  | false => rfl
  | true =>
    have hindices : moreIndices (chunks.map legacyChunk) = moreIndices chunks := by
      rw [moreIndices, List.map_map]
      rfl
    rw [replyStream, reply, if_pos rfl, if_pos rfl, answerOf, mergedChoice_legacy h 0, hindices,
      List.map_congr_left fun k _ => mergedChoice_legacy h k, (counted_legacy chunks).1,
      (counted_legacy chunks).2]
    simp only [answerOf, List.map_map]
    rfl

end LegacyFunctions
end Aisix
