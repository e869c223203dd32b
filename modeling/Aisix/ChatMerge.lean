import Aisix.Chat

/-!
# Aisix.ChatMerge

What a client makes of a stream of chunks: strings are joined, the calls of one index are one call,
and the last finish reason, usage and tier count.
-/

namespace Aisix
namespace ChatMerge

open Json

/-- Sets a member, in its place or at the end. -/
def setMember (key : String) (v : Value) (fields : List (String × Value)) : List (String × Value) :=
  if (fields.lookup key).isSome then Value.modifyField key (fun _ => v) fields
  else fields ++ [(key, v)]

theorem lookup_append_of_none {key : String} {fields : List (String × Value)}
    (h : fields.lookup key = none)
    (more : List (String × Value)) : (fields ++ more).lookup key = more.lookup key := by
  rw [List.lookup_append, h, Option.none_or]

@[simp] theorem lookup_setMember (key : String) (v : Value) (fields : List (String × Value)) :
    (setMember key v fields).lookup key = some v := by
  unfold setMember
  split
  · next h =>
    obtain ⟨old, hold⟩ := Option.isSome_iff_exists.1 h
    rw [Value.lookup_modifyField, hold, Option.map_some]
  · next h =>
    rw [lookup_append_of_none (Option.not_isSome_iff_eq_none.1 h), List.lookup_cons_self]

theorem lookup_setMember_of_ne {key key' : String} (h : key' ≠ key) (v : Value)
    (fields : List (String × Value)) :
    (setMember key v fields).lookup key' = fields.lookup key' := by
  unfold setMember
  split
  · exact Value.lookup_modifyField_of_ne h _ fields
  · have hne : (key' == key) = false := beq_eq_false_iff_ne.2 h
    rw [List.lookup_append, List.lookup_cons, hne, List.lookup_nil, Option.or_none]

/-- The members that are no text to be joined. -/
def isFixed (key : String) : Bool := key == "index" || key == "type"

mutual

/-- A streamed value grown by a fragment. -/
def accumulate : Value → Value → Value
  | .string a, .string s => .string (a ++ s)
  | .object members, .object fields => .object (accumulateFields members fields)
  | old, .null => old
  | _, v => v

def accumulateFields (members : List (String × Value)) :
    List (String × Value) → List (String × Value)
  | [] => members
  | (key, v) :: rest =>
    setMember key (match members.lookup key with
      | some old => if isFixed key then v else accumulate old v
      | none => v) (accumulateFields members rest)

end

/-- A member that may not have come yet, grown by a fragment. -/
def grow (old fragment : Option Value) : Option Value :=
  match old, fragment with
  | some a, some v => some (accumulate a v)
  | a, v => a.or v

theorem lookup_accumulateFields {key : String} (hkey : isFixed key = false)
    (members fields : List (String × Value)) :
    (accumulateFields members fields).lookup key = grow (members.lookup key)
    (fields.lookup key) := by
  induction fields with
  | nil => cases h : members.lookup key <;> rw [accumulateFields, h] <;> rfl
  | cons e rest ih =>
    obtain ⟨k, v⟩ := e
    rw [accumulateFields]
    by_cases hk : key = k
    · subst hk
      rw [lookup_setMember, List.lookup_cons_self]
      cases members.lookup key with
      | none => rfl
      | some old =>
        dsimp only
        rw [hkey]
        rfl
    · have hne : (key == k) = false := beq_eq_false_iff_ne.2 hk
      rw [lookup_setMember_of_ne hk, List.lookup_cons, hne, ih]

/-- The index of a call, the first one's where it has none. -/
abbrev Calls := List (Nat × Value)

def addCall (calls : Calls) (call : Value) : Calls :=
  if callIndex call ∈ calls.map Prod.fst then
    calls.map fun e => if e.1 = callIndex call then (e.1, accumulate e.2 call) else e
  else calls ++ [(callIndex call, call)]

/-- A choice as a client holds it. -/
structure Merged where
  content : String
  reasoning : String
  refusal : String
  functionCall : Option Value
  toolCalls : Calls
  logprobs : Option Value
  finishReason : Option FinishReason
  usage : Option UsageStats
  serviceTier : Option ServiceTier

namespace Merged

def empty : Merged := ⟨"", "", "", none, [], none, none, none, none⟩

/-- `function_call` as the delta is written. -/
def functionFragment (delta : ChatDelta) : Option Value :=
  delta.functionCall.or (delta.extra.lookup "function_call")

def add (m : Merged) (c : ChatChunk) : Merged :=
  { content := m.content ++ c.delta.content.getD ""
    reasoning := m.reasoning ++ c.delta.reasoningContent.getD ""
    refusal := m.refusal ++ ((c.delta.extra.lookup "refusal").bind Value.asStr?).getD ""
    functionCall := grow m.functionCall (functionFragment c.delta)
    toolCalls := (c.delta.toolCalls.getD []).foldl addCall m.toolCalls
    logprobs := c.logprobs.or m.logprobs
    finishReason := c.finishReason.or m.finishReason
    usage := c.usage.or m.usage
    serviceTier := c.serviceTier.or m.serviceTier }

end Merged

/-- The chunks of a choice, merged. -/
def merge (chunks : List ChatChunk) : Merged := chunks.foldl Merged.add .empty

/-! ### Calls by index -/

theorem map_fst_addCall_of_mem {calls : Calls} {call : Value}
    (h : callIndex call ∈ calls.map Prod.fst) :
    (addCall calls call).map Prod.fst = calls.map Prod.fst := by
  rw [addCall, if_pos h, List.map_map]
  refine List.map_congr_left fun e _ => ?_
  simp only [Function.comp_apply]
  split <;> rfl

theorem addCall_of_notMem {calls : Calls} {call : Value} (h : callIndex call ∉ calls.map Prod.fst) :
    addCall calls call = calls ++ [(callIndex call, call)] := if_neg h

theorem nodup_foldl_addCall (fragments : List Value) {calls : Calls}
    (h : (calls.map Prod.fst).Nodup) :
    ((fragments.foldl addCall calls).map Prod.fst).Nodup := by
  induction fragments generalizing calls with
  | nil => exact h
  | cons call fragments ih =>
    refine ih ?_
    by_cases hmem : callIndex call ∈ calls.map Prod.fst
    · rw [map_fst_addCall_of_mem hmem]
      exact h
    · rw [addCall_of_notMem hmem, List.map_append]
      exact List.nodup_append.2 ⟨h, List.pairwise_singleton _ _, fun i hi j hj heq => by
        obtain rfl : j = callIndex call := List.mem_singleton.1 hj
        exact hmem (heq ▸ hi)⟩

theorem foldl_addCall_of_nodup (fragments : List Value) {calls : Calls}
    (h : (calls.map Prod.fst ++ fragments.map callIndex).Nodup) :
    fragments.foldl addCall calls = calls ++ fragments.map fun c => (callIndex c, c) := by
  induction fragments generalizing calls with
  | nil => rw [List.foldl_nil, List.map_nil, List.append_nil]
  | cons call fragments ih =>
    have hnew : callIndex call ∉ calls.map Prod.fst := fun hmem =>
      (List.nodup_append.1 h).2.2 _ hmem _ List.mem_cons_self rfl
    rw [List.foldl_cons, addCall_of_notMem hnew, ih, List.append_assoc]
    · rfl
    · rw [List.map_append, List.append_assoc]
      exact h

/-- Calls come back as they are, each alone under its index, just when no two have one index. -/
theorem foldl_addCall_iff (fragments : List Value) :
    fragments.foldl addCall [] = (fragments.map fun c => (callIndex c, c)) ↔
      (fragments.map callIndex).Nodup := by
  constructor
  · intro h
    have hnodup := @nodup_foldl_addCall fragments [] List.nodup_nil
    rw [h, List.map_map] at hnodup
    exact hnodup
  · intro h
    exact foldl_addCall_of_nodup fragments (by rwa [List.map_nil, List.nil_append])

end ChatMerge
end Aisix
