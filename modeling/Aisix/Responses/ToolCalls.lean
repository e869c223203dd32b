import Aisix.Responses.Encoder

/-!
# Aisix.Responses.ToolCalls

One tool call, fragment by fragment. It waits until its id and its name are known, is announced with
the fragment that makes them so, and sends the arguments from there on.
-/

namespace Aisix
namespace Responses

open Json Anthropic

theorem join_filter (ts : List String) : String.join (ts.filter (· ≠ "")) = String.join ts := by
  induction ts with
  | nil => rfl
  | cons t ts ih =>
    by_cases ht : t = ""
    · rw [List.filter_cons_of_neg (by simp [ht]), ih, String.join_cons, ht, String.empty_append]
    · rw [List.filter_cons_of_pos (by simpa using ht), String.join_cons, String.join_cons, ih]

theorem eq_append_self_iff {s t : String} : t = s ++ t ↔ s = "" := by
  rw [← String.toList_inj, String.toList_append, List.self_eq_append_left, String.toList_eq_nil_iff]

/-- The last text that is not empty. -/
def latest (ts : List String) : String :=
  ts.foldl (fun current t => if t = "" then current else t) ""

theorem latest_concat (ts : List String) (t : String) :
    latest (ts ++ [t]) = if t = "" then latest ts else t := by
  simp [latest, List.foldl_append]

def latestId (tcs : List Value) : String := latest (tcs.map callId)

def latestName (tcs : List Value) : String := latest (tcs.map callName)

def argumentsOf (tcs : List Value) : String := String.join (tcs.map callArguments)

theorem latestId_concat (tcs : List Value) (tc : Value) :
    latestId (tcs ++ [tc]) = if callId tc = "" then latestId tcs else callId tc := by
  rw [latestId, List.map_append, List.map_singleton, latest_concat, latestId]

theorem latestName_concat (tcs : List Value) (tc : Value) :
    latestName (tcs ++ [tc]) = if callName tc = "" then latestName tcs else callName tc := by
  rw [latestName, List.map_append, List.map_singleton, latest_concat, latestName]

theorem argumentsOf_concat (tcs : List Value) (tc : Value) :
    argumentsOf (tcs ++ [tc]) = argumentsOf tcs ++ callArguments tc := by
  simp [argumentsOf]

theorem argumentsOf_append (tcs rest : List Value) :
    argumentsOf (tcs ++ rest) = argumentsOf tcs ++ argumentsOf rest := by
  simp [argumentsOf]

/-- Both the id and the name have come. -/
def Known (tcs : List Value) : Prop := latestId tcs ≠ "" ∧ latestName tcs ≠ ""

instance (tcs : List Value) : Decidable (Known tcs) := inferInstanceAs (Decidable (_ ∧ _))

theorem Known.concat {tcs : List Value} (h : Known tcs) (tc : Value) : Known (tcs ++ [tc]) := by
  rw [Known, latestId_concat, latestName_concat]
  refine ⟨?_, ?_⟩
  · split
    · exact h.1
    · next hne => exact hne
  · split
    · exact h.2
    · next hne => exact hne

theorem Known.append {tcs : List Value} (h : Known tcs) (rest : List Value) :
    Known (tcs ++ rest) := by
  induction rest using List.reverseRecOn with
  | nil => rwa [List.append_nil]
  | append_singleton rest tc ih =>
    rw [← List.append_assoc]
    exact ih.concat tc

theorem not_known_nil : ¬Known [] := fun h => h.1 rfl

theorem known_split_inj {before before' after after' : List Value} {tc tc' : Value}
    (heq : before ++ tc :: after = before' ++ tc' :: after') (hbefore : ¬Known before)
    (hknown : Known (before ++ [tc])) (hbefore' : ¬Known before')
    (hknown' : Known (before' ++ [tc'])) :
    before = before' ∧ tc = tc' ∧ after = after' := by
  rcases List.append_eq_append_iff.mp heq with ⟨cs, hcs, hrest⟩ | ⟨cs, hcs, hrest⟩
  · cases cs with
    | nil =>
      rw [List.append_nil] at hcs
      obtain ⟨htc, hafter⟩ := List.cons.inj hrest
      exact ⟨hcs.symm, htc, hafter⟩
    | cons c cs =>
      obtain ⟨htc, -⟩ := List.cons.inj hrest
      refine absurd ?_ hbefore'
      rw [hcs, ← htc, List.append_cons]
      exact hknown.append cs
  · cases cs with
    | nil =>
      rw [List.append_nil] at hcs
      obtain ⟨htc, hafter⟩ := List.cons.inj hrest
      exact ⟨hcs, htc.symm, hafter.symm⟩
    | cons c cs =>
      obtain ⟨htc, -⟩ := List.cons.inj hrest
      refine absurd ?_ hbefore
      rw [hcs, ← htc, List.append_cons]
      exact hknown'.append cs

namespace ReplyToolCall

/-- The name an item of this kind shows for a call of that name. -/
def shownName (name : String) : ReplyToolCall → String
  | function subName (some _) => subName
  | _ => name

/-- The call names a tool under a namespace. -/
def Named : ReplyToolCall → Prop
  | function _ (some _) => True
  | _ => False

theorem shownName_eq_iff {kind : ReplyToolCall} {name name' : String} :
    kind.shownName name = kind.shownName name' ↔ kind.Named ∨ name = name' := by
  cases kind with
  | custom => simp [shownName, Named]
  | function subName ns => cases ns <;> simp [shownName, Named]

end ReplyToolCall

namespace ToolCallState

/-- The call is of this kind. -/
def OfKind (t : ToolCallState) (kind : ReplyToolCall) : Prop :=
  t.custom = kind.isCustom ∧ t.namespace = kind.subTool

theorem name_doneItem (parse : String → Option Value) {t : ToolCallState} {kind : ReplyToolCall}
    (h : t.OfKind kind) : (t.doneItem parse).name = some (kind.shownName t.name) := by
  obtain ⟨hcustom, hns⟩ := h
  cases kind with
  | custom =>
    simp [doneItem, hcustom, OutputItem.name, ReplyToolCall.shownName, ReplyToolCall.isCustom]
  | function subName ns =>
    cases ns <;>
      simp [doneItem, hcustom, functionCallItem, hns, ReplyToolCall.subTool, OutputItem.name,
        ReplyToolCall.shownName, ReplyToolCall.isCustom]

theorem id_doneItem (parse : String → Option Value) (t : ToolCallState) :
    (t.doneItem parse).id = t.itemId := by
  unfold doneItem functionCallItem
  split
  · rfl
  · split <;> rfl

theorem type_doneItem (parse : String → Option Value) (t : ToolCallState) :
    (t.doneItem parse).type = if t.custom then "custom_tool_call" else "function_call" := by
  unfold doneItem functionCallItem
  split
  · rfl
  · split <;> rfl

theorem body_doneItem (parse : String → Option Value) (t : ToolCallState) :
    (t.doneItem parse).body =
    if t.custom then unwrapCustomToolInput parse t.arguments else t.arguments := by
  unfold doneItem functionCallItem
  split
  · rfl
  · split <;> rfl

theorem id_addedItem (t : ToolCallState) : t.addedItem.id = t.itemId := by
  unfold addedItem functionCallItem
  split
  · rfl
  · split <;> rfl

theorem type_addedItem (t : ToolCallState) :
    t.addedItem.type = if t.custom then "custom_tool_call" else "function_call" := by
  unfold addedItem functionCallItem
  split
  · rfl
  · split <;> rfl

theorem name_addedItem {t : ToolCallState} {kind : ReplyToolCall} (h : t.OfKind kind) :
    t.addedItem.name = some (kind.shownName t.name) := by
  obtain ⟨hcustom, hns⟩ := h
  cases kind with
  | custom =>
    simp [addedItem, hcustom, OutputItem.name, ReplyToolCall.shownName, ReplyToolCall.isCustom]
  | function subName ns =>
    cases ns <;>
      simp [addedItem, hcustom, functionCallItem, hns, ReplyToolCall.subTool, OutputItem.name,
        ReplyToolCall.shownName, ReplyToolCall.isCustom]

/-- Every fragment of one call. -/
def run (reply : ResponsesReplyContext) (t : ToolCallState) :
    List Value → List EventData × ToolCallState
  | [] => ([], t)
  | tc :: rest =>
    let (first, t) := t.read reply tc
    let (others, t) := t.run reply rest
    (first ++ others, t)

/-! ### One fragment -/

section Note

variable {reply : ResponsesReplyContext} {t : ToolCallState}

theorem note_kind_added (reply : ResponsesReplyContext) (h : t.itemAdded = true)
    (id name : String) :
    (t.note reply id name).custom = t.custom ∧ (t.note reply id name).namespace = t.namespace := by
  simp [note, h]

theorem note_kind_waiting (h : t.itemAdded = false)
    (hkind : t.name ≠ "" → t.OfKind (reply.toolCall t.name))
    (id name : String) (hname : (t.note reply id name).name ≠ "") :
    (t.note reply id name).OfKind (reply.toolCall (t.note reply id name).name) := by
  by_cases hempty : name = ""
  · have hsame : (t.note reply id name).name = t.name := by simp [note, hempty]
    rw [hsame] at hname ⊢
    simpa [note, OfKind, hempty] using hkind hname
  · simp [note, OfKind, hempty, h]

end Note

/-- The deltas of a call's arguments. A custom tool sends none before its close. -/
def deltas (t : ToolCallState) (tcs : List Value) : List EventData :=
  if t.custom then []
  else ((tcs.map callArguments).filter (· ≠ "")).map
    (.delta .functionCallArguments t.itemId t.outputIndex)

theorem deltas_concat (t : ToolCallState) (tcs : List Value) (tc : Value) :
    t.deltas (tcs ++ [tc]) = t.deltas tcs ++ t.deltas [tc] := by
  unfold deltas
  split
  · rfl
  · simp

theorem deltas_congr {t t' : ToolCallState} (hcustom : t'.custom = t.custom)
    (hid : t'.itemId = t.itemId) (hindex : t'.outputIndex = t.outputIndex) (tcs : List Value) :
    t'.deltas tcs = t.deltas tcs := by
  simp only [deltas, hcustom, hid, hindex]

theorem argue_added {t : ToolCallState} (h : t.itemAdded = true) (tc : Value) :
    t.argue (callArguments tc) =
      (t.deltas [tc], { t with arguments := t.arguments ++ callArguments tc }) := by
  unfold argue deltas
  by_cases hempty : callArguments tc = ""
  · simp [hempty]
  · by_cases hcustom : t.custom <;> simp [hempty, h, hcustom]

theorem argue_waiting {t : ToolCallState} (h : t.itemAdded = false) (arguments : String) :
    t.argue arguments = ([], { t with arguments := t.arguments ++ arguments }) := by
  unfold argue
  by_cases hempty : arguments = ""
  · simp [hempty]
  · simp [hempty, h]

/-- The call waits: it has sent nothing. -/
structure Waiting (reply : ResponsesReplyContext) (tcs : List Value) (evs : List EventData)
    (t : ToolCallState) : Prop where
  unknown : ¬Known tcs
  itemAdded : t.itemAdded = false
  silent : evs = []
  kind : t.name ≠ "" → t.OfKind (reply.toolCall t.name)

/-- The call was announced with `tc`: the announcement, then the deltas from `tc` on. -/
structure Announced (reply : ResponsesReplyContext) (before : List Value) (tc : Value)
    (after : List Value) (evs : List EventData) (t : ToolCallState) : Prop where
  unknown : ¬Known before
  known : Known (before ++ [tc])
  itemAdded : t.itemAdded = true
  kind : t.OfKind (reply.toolCall (latestName (before ++ [tc])))
  sent : ∃ added : OutputItem, added.id = t.itemId ∧
    added.type = (if t.custom then "custom_tool_call" else "function_call") ∧
    added.name =
      some
      ((reply.toolCall (latestName (before ++ [tc]))).shownName (latestName (before ++ [tc]))) ∧
    evs = .outputItemAdded t.outputIndex added :: t.deltas (tc :: after)

/-- A call after its fragments. -/
structure After (reply : ResponsesReplyContext) (itemUuid : String) (outputIndex : Nat)
    (tcs : List Value) (evs : List EventData) (t : ToolCallState) : Prop where
  itemUuid : t.itemUuid = itemUuid
  outputIndex : t.outputIndex = outputIndex
  callId : t.callId = latestId tcs
  name : t.name = latestName tcs
  arguments : t.arguments = argumentsOf tcs
  phase : Waiting reply tcs evs t ∨
    ∃ before tc after, tcs = before ++ tc :: after ∧ Announced reply before tc after evs t

theorem after_new (reply : ResponsesReplyContext) (itemUuid : String) (outputIndex : Nat) :
    After reply itemUuid outputIndex [] [] (.new itemUuid outputIndex) where
  itemUuid := rfl
  outputIndex := rfl
  callId := rfl
  name := rfl
  arguments := rfl
  phase := .inl ⟨not_known_nil, rfl, rfl, fun h => absurd rfl h⟩

theorem announce_known {t : ToolCallState} (hadded : t.itemAdded = false) (hid : t.callId ≠ "")
    (hname : t.name ≠ "") :
    t.announce = ([.outputItemAdded t.outputIndex t.addedItem], { t with itemAdded := true }) :=
  if_pos ⟨hadded, hid, hname⟩

theorem announce_of_not {t : ToolCallState}
    (h : ¬(t.itemAdded = false ∧ t.callId ≠ "" ∧ t.name ≠ "")) : t.announce = ([], t) :=
  if_neg h

theorem read_eq (reply : ResponsesReplyContext) (t : ToolCallState) (tc : Value) :
    t.read reply tc =
      ((t.note reply (Anthropic.callId tc) (callName tc)).announce.1 ++
        ((t.note reply (Anthropic.callId tc) (callName tc)).announce.2.argue (callArguments tc)).1,
        ((t.note reply (Anthropic.callId tc) (callName tc)).announce.2.argue
          (callArguments tc)).2) := rfl

section Read

variable {reply : ResponsesReplyContext} {itemUuid : String} {outputIndex : Nat} {tcs : List Value}
  {evs : List EventData} {t : ToolCallState}

theorem After.note_callId (h : After reply itemUuid outputIndex tcs evs t) (tc : Value) :
    (t.note reply (Anthropic.callId tc) (callName tc)).callId = latestId (tcs ++ [tc]) := by
  rw [latestId_concat, ← h.callId]
  rfl

theorem After.note_name (h : After reply itemUuid outputIndex tcs evs t) (tc : Value) :
    (t.note reply (Anthropic.callId tc) (callName tc)).name = latestName (tcs ++ [tc]) := by
  rw [latestName_concat, ← h.name]
  rfl

theorem After.read_waiting (h : After reply itemUuid outputIndex tcs evs t)
    (hw : Waiting reply tcs evs t) (tc : Value) :
    After reply itemUuid outputIndex (tcs ++ [tc]) (evs ++ (t.read reply tc).1)
      (t.read reply tc).2 := by
  have hid := h.note_callId tc
  have hname := h.note_name tc
  have hkind := note_kind_waiting hw.itemAdded hw.kind (Anthropic.callId tc) (callName tc)
  have hargs : (t.note reply (Anthropic.callId tc) (callName tc)).arguments ++ callArguments tc =
      argumentsOf (tcs ++ [tc]) := by
    rw [argumentsOf_concat, ← h.arguments]
    rfl
  have hadded : (t.note reply (Anthropic.callId tc) (callName tc)).itemAdded = false := hw.itemAdded
  have hread := read_eq reply t tc
  have huuid : (t.note reply (Anthropic.callId tc) (callName tc)).itemUuid = itemUuid := h.itemUuid
  have hindex : (t.note reply (Anthropic.callId tc) (callName tc)).outputIndex = outputIndex :=
    h.outputIndex
  generalize t.note reply (Anthropic.callId tc) (callName tc) = n at *
  by_cases hknown : Known (tcs ++ [tc])
  · have hannounce := announce_known hadded (hid ▸ hknown.1) (hname ▸ hknown.2)
    rw [hannounce, argue_added (t := { n with itemAdded := true }) rfl] at hread
    rw [hread, hw.silent]
    refine ⟨huuid, hindex, hid, hname, hargs, .inr ⟨tcs, tc, [], rfl, hw.unknown, hknown, rfl, ?_,
      n.addedItem, n.id_addedItem, n.type_addedItem, ?_, rfl⟩⟩
    · rw [← hname]
      exact hkind (hname ▸ hknown.2)
    · rw [← hname]
      exact name_addedItem (hkind (hname ▸ hknown.2))
  · have hannounce : n.announce = ([], n) :=
      announce_of_not fun hall => hknown ⟨hid ▸ hall.2.1, hname ▸ hall.2.2⟩
    rw [hannounce, argue_waiting hadded] at hread
    rw [hread, hw.silent]
    exact ⟨huuid, hindex, hid, hname, hargs, .inl ⟨hknown, hadded, rfl, hkind⟩⟩

theorem After.read_announced (h : After reply itemUuid outputIndex tcs evs t)
    {before after : List Value} {tc₀ : Value} (htcs : tcs = before ++ tc₀ :: after)
    (ha : Announced reply before tc₀ after evs t) (tc : Value) :
    After reply itemUuid outputIndex (tcs ++ [tc]) (evs ++ (t.read reply tc).1)
      (t.read reply tc).2 := by
  have hid := h.note_callId tc
  have hname := h.note_name tc
  obtain ⟨hcustom, hns⟩ := note_kind_added reply ha.itemAdded (Anthropic.callId tc) (callName tc)
  have hargs : (t.note reply (Anthropic.callId tc) (callName tc)).arguments ++ callArguments tc =
      argumentsOf (tcs ++ [tc]) := by
    rw [argumentsOf_concat, ← h.arguments]
    rfl
  have hadded : (t.note reply (Anthropic.callId tc) (callName tc)).itemAdded = true := ha.itemAdded
  have hread := read_eq reply t tc
  have huuid : (t.note reply (Anthropic.callId tc) (callName tc)).itemUuid = t.itemUuid := rfl
  have hindex : (t.note reply (Anthropic.callId tc) (callName tc)).outputIndex = t.outputIndex :=
    rfl
  generalize t.note reply (Anthropic.callId tc) (callName tc) = n at *
  have hitemId : n.itemId = t.itemId := by rw [itemId, itemId, hcustom, huuid]
  have hannounce : n.announce = ([], n) :=
    announce_of_not fun hall => Bool.noConfusion (hadded.symm.trans hall.1)
  rw [hannounce, argue_added hadded] at hread
  obtain ⟨added, haid, hatype, haname, hevs⟩ := ha.sent
  rw [hread]
  refine ⟨huuid.trans h.itemUuid, hindex.trans h.outputIndex, hid, hname, hargs,
    .inr ⟨before, tc₀, after ++ [tc], by rw [htcs, List.append_assoc, List.cons_append],
      ha.unknown, ha.known, hadded, ⟨hcustom.trans ha.kind.1, hns.trans ha.kind.2⟩, added,
      haid.trans hitemId.symm, ?_, haname, ?_⟩⟩
  · rw [hatype, ← hcustom]
  · have hsame : ∀ rest, deltas { n with arguments := n.arguments ++ callArguments tc } rest =
      t.deltas rest :=
      deltas_congr hcustom hitemId hindex
    rw [hevs, hsame, ← List.cons_append, deltas_concat t (tc₀ :: after) tc,
      ← deltas_congr hcustom hitemId hindex [tc], ← hindex]
    rfl

theorem After.read (h : After reply itemUuid outputIndex tcs evs t) (tc : Value) :
    After reply itemUuid outputIndex (tcs ++ [tc]) (evs ++ (t.read reply tc).1)
      (t.read reply tc).2 := by
  rcases h.phase with hw | ⟨before, tc₀, after, htcs, ha⟩
  · exact h.read_waiting hw tc
  · exact h.read_announced htcs ha tc

end Read

end ToolCallState

end Responses
end Aisix
