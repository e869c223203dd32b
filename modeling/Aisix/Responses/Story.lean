import Aisix.NumberedLogs
import Aisix.Responses.ToolCalls

/-!
# Aisix.Responses.Story

What a client may expect of a Responses stream: every item is announced once and closed once as the
same item, its deltas make up its text, and the terminal event repeats the items.
-/

namespace Aisix
namespace Responses

open Json Anthropic NumberedLogs

namespace EventData

/-- The index of an event of an item. -/
def outputIndex? : EventData → Option Nat
  | outputItemAdded i _ => some i
  | partAdded _ _ i => some i
  | delta _ _ i _ => some i
  | done _ _ i _ => some i
  | partDone _ _ i _ => some i
  | outputItemDone i _ => some i
  | _ => none

/-- The item an event is of, between the announcement and the close. -/
def itemId? : EventData → Option String
  | partAdded _ itemId _ => some itemId
  | delta _ itemId _ _ => some itemId
  | done _ itemId _ _ => some itemId
  | partDone _ itemId _ _ => some itemId
  | _ => none

def deltaText? : EventData → Option String
  | delta _ _ _ text => some text
  | _ => none

def doneText? : EventData → Option String
  | done _ _ _ text => some text
  | partDone _ _ _ text => some text
  | _ => none

/-- The Response object of a terminal event. -/
def terminal? : EventData → Option Response
  | completed response => some response
  | incomplete response => some response
  | _ => none

end EventData

/-- The events of one item: announced, told, and closed as the same item with the text that was
told. -/
def ItemStory (i : Nat) (item : OutputItem) (evs : List EventData) : Prop :=
  ∃ added mid, evs = .outputItemAdded i added :: (mid ++ [.outputItemDone i item]) ∧
    added.id = item.id ∧ added.type = item.type ∧ added.name = item.name ∧
    (∀ e ∈ mid, e.itemId? = some item.id) ∧
    String.join (mid.filterMap EventData.deltaText?) = item.body ∧
    ∀ e ∈ mid, ∀ text, e.doneText? = some text → text = item.body

/-- The items in the order of their indices, and nothing told but them. -/
structure ItemsStory (items : List EventData) (output : List OutputItem) : Prop where
  indexed : ∀ e ∈ items, e.outputIndex?.isSome
  told : ∃ told : List (Nat × OutputItem), told.Pairwise (fun p q => p.1 < q.1) ∧
    output = told.map (·.2) ∧ (∀ e ∈ items, ∀ i, e.outputIndex? = some i → i ∈ told.map (·.1)) ∧
    ∀ p ∈ told, ItemStory p.1 p.2 (log EventData.outputIndex? p.1 items)

/-- A whole stream. -/
structure Story (evs : List ResponsesSseEvent) : Prop where
  numbered : evs.map (·.sequenceNumber) = List.range evs.length
  typed : ∀ e ∈ evs, e.eventType = e.data.eventType
  told : ∃ (created inProgress response : Response) (items : List EventData) (last : EventData),
    evs.map (·.data) = .created created :: .inProgress inProgress :: (items ++ [last]) ∧
      last.terminal? = some response ∧ ItemsStory items response.output

/-! ### Sealing -/

section Sealing

variable (sealer : Seal)

@[simp] theorem outputIndex?_seal (e : EventData) :
    (sealResponsesEvent sealer e).outputIndex? = e.outputIndex? := by
  cases e <;> rfl

@[simp] theorem eventType_seal (e : EventData) :
    (sealResponsesEvent sealer e).eventType = e.eventType := by
  cases e <;> rfl

@[simp] theorem terminal?_seal (e : EventData) :
    (sealResponsesEvent sealer e).terminal? = e.terminal?.map (sealResponsesBody sealer) := by
  cases e <;> rfl

@[simp] theorem deltaText?_seal (e : EventData) :
    (sealResponsesEvent sealer e).deltaText? = e.deltaText? := by
  cases e <;> rfl

@[simp] theorem doneText?_seal (e : EventData) :
    (sealResponsesEvent sealer e).doneText? = e.doneText? := by
  cases e <;> rfl

@[simp] theorem itemId?_seal (e : EventData) :
    (sealResponsesEvent sealer e).itemId? = e.itemId?.map (sealId sealer .item) := by
  cases e <;> rfl

@[simp] theorem id_sealItem (item : OutputItem) :
    (sealItem sealer item).id = sealId sealer .item item.id := by
  cases item <;> rfl

@[simp] theorem type_sealItem (item : OutputItem) : (sealItem sealer item).type = item.type := by
  cases item <;> rfl

@[simp] theorem name_sealItem (item : OutputItem) : (sealItem sealer item).name = item.name := by
  cases item <;> rfl

@[simp] theorem body_sealItem (item : OutputItem) : (sealItem sealer item).body = item.body := by
  cases item with
  | message id status content =>
    cases content with
    | none => rfl
    | some part => cases part <;> rfl
  | _ => rfl

theorem itemStory_seal_iff (i : Nat) (added item : OutputItem) (mid : List EventData)
    (hid : added.id = item.id) (htype : added.type = item.type)
    (hmid : ∀ e ∈ mid, e.itemId? = some item.id)
    (hdone : ∀ e ∈ mid, ∀ text, e.doneText? = some text → text = item.body) :
    ItemStory i (sealItem sealer item)
        ((.outputItemAdded i added :: (mid ++ [.outputItemDone i item])).map
          (sealResponsesEvent sealer)) ↔
      added.name = item.name ∧ String.join (mid.filterMap EventData.deltaText?) = item.body := by
  have hdeltas : (mid.map (sealResponsesEvent sealer)).filterMap EventData.deltaText? =
      mid.filterMap EventData.deltaText? := by
    rw [List.filterMap_map]
    exact List.filterMap_congr fun e _ => deltaText?_seal sealer e
  have hmap : (EventData.outputItemAdded i added :: (mid ++ [.outputItemDone i item])).map
      (sealResponsesEvent sealer) = .outputItemAdded i (sealItem sealer added) ::
        (mid.map (sealResponsesEvent sealer) ++ [.outputItemDone i (sealItem sealer item)]) := by
    simp [sealResponsesEvent]
  rw [hmap]
  constructor
  · rintro ⟨added', mid', heq, -, -, hname, -, hjoined, -⟩
    obtain ⟨hadded, hrest⟩ := List.cons.inj heq
    obtain ⟨hmid', -⟩ := List.append_inj' hrest rfl
    injection hadded with _ hadded
    rw [← hadded, name_sealItem, name_sealItem] at hname
    rw [← hmid', hdeltas, body_sealItem] at hjoined
    exact ⟨hname, hjoined⟩
  · rintro ⟨hname, hjoined⟩
    refine ⟨sealItem sealer added, mid.map (sealResponsesEvent sealer), rfl, ?_, ?_, ?_, ?_, ?_, ?_⟩
    · rw [id_sealItem, id_sealItem, hid]
    · rw [type_sealItem, type_sealItem, htype]
    · rw [name_sealItem, name_sealItem, hname]
    · intro e he
      obtain ⟨e₀, he₀, rfl⟩ := List.mem_map.mp he
      rw [itemId?_seal, hmid e₀ he₀, id_sealItem]
      rfl
    · rw [hdeltas, hjoined, body_sealItem]
    · intro e he text htext
      obtain ⟨e₀, he₀, rfl⟩ := List.mem_map.mp he
      rw [doneText?_seal] at htext
      rw [hdone e₀ he₀ text htext, body_sealItem]

end Sealing

/-! ### Tool calls -/

/-- A call tells one story: some fragment makes it known, no arguments come before that one unless
the call is a custom tool's, and the name stays what it was unless the tool is under a namespace. -/
def Settled (reply : ResponsesReplyContext) (tcs : List Value) : Prop :=
  ∃ before tc after, tcs = before ++ tc :: after ∧ ¬Known before ∧ Known (before ++ [tc]) ∧
    (reply.toolCall (latestName (before ++ [tc])) = .custom ∨ argumentsOf before = "") ∧
    ((reply.toolCall (latestName (before ++ [tc]))).Named ∨
      latestName (before ++ [tc]) = latestName tcs)

namespace ToolCallState

variable {reply : ResponsesReplyContext} {itemUuid : String} {outputIndex : Nat} {tcs : List Value}
  {evs : List EventData} {t : ToolCallState}

theorem outputIndex?_deltas (t : ToolCallState) (tcs : List Value) :
    ∀ e ∈ t.deltas tcs, e.outputIndex? = some t.outputIndex := by
  intro e he
  unfold deltas at he
  split at he
  · cases he
  · obtain ⟨text, -, rfl⟩ := List.mem_map.mp he
    rfl

theorem outputIndex?_closing (parse : String → Option Value) (t : ToolCallState) :
    ∀ e ∈ t.closing parse, e.outputIndex? = some t.outputIndex := by
  intro e he
  unfold closing closingTexts at he
  split at he <;> simp only [List.mem_append, List.mem_cons, List.not_mem_nil, or_false] at he
  · rcases he with (rfl | rfl) | rfl <;> rfl
  · rcases he with rfl | rfl <;> rfl

theorem After.outputIndex?_evs (h : After reply itemUuid outputIndex tcs evs t) :
    ∀ e ∈ evs, e.outputIndex? = some t.outputIndex := by
  rcases h.phase with hw | ⟨before, tc, after, -, ha⟩
  · rw [hw.silent]
    intro e he
    cases he
  · obtain ⟨added, -, -, -, hevs⟩ := ha.sent
    rw [hevs]
    intro e he
    rcases List.mem_cons.mp he with rfl | he
    · rfl
    · exact t.outputIndex?_deltas _ e he

theorem itemId?_mid (parse : String → Option Value) (t : ToolCallState) (tcs : List Value) :
    ∀ e ∈ t.deltas tcs ++ t.closingTexts parse, e.itemId? = some t.itemId := by
  intro e he
  rcases List.mem_append.mp he with he | he
  · unfold deltas at he
    split at he
    · cases he
    · obtain ⟨text, -, rfl⟩ := List.mem_map.mp he
      rfl
  · unfold closingTexts at he
    split at he <;> simp only [List.mem_cons, List.not_mem_nil, or_false] at he
    · rcases he with rfl | rfl <;> rfl
    · rw [he]
      rfl

theorem doneText?_mid (parse : String → Option Value) (t : ToolCallState) (tcs : List Value) :
    ∀ e ∈ t.deltas tcs ++ t.closingTexts parse, ∀ text, e.doneText? = some text →
      text = (t.doneItem parse).body := by
  intro e he text htext
  rw [body_doneItem]
  rcases List.mem_append.mp he with he | he
  · unfold deltas at he
    split at he
    · cases he
    · obtain ⟨told, -, rfl⟩ := List.mem_map.mp he
      cases htext
  · unfold closingTexts at he
    split at he <;> simp only [List.mem_cons, List.not_mem_nil, or_false] at he
    · next hcustom =>
      rw [if_pos hcustom]
      rcases he with rfl | rfl
      · cases htext
      · exact (Option.some.inj htext).symm
    · next hcustom =>
      subst he
      rw [if_neg hcustom]
      exact (Option.some.inj htext).symm

/-- The deltas of a custom call are its input; those of a function call are what came after the
announcement. -/
theorem join_mid (parse : String → Option Value) (t : ToolCallState) (tcs : List Value) :
    String.join ((t.deltas tcs ++ t.closingTexts parse).filterMap EventData.deltaText?) =
      if t.custom then unwrapCustomToolInput parse t.arguments else argumentsOf tcs := by
  unfold deltas closingTexts
  by_cases hcustom : t.custom
  · simp [hcustom, EventData.deltaText?]
    rfl
  · have htexts : ∀ ts : List String, (ts.map (EventData.delta .functionCallArguments t.itemId
        t.outputIndex)).filterMap EventData.deltaText? = ts := fun ts => by
      rw [List.filterMap_map]
      exact List.filterMap_some
    simp only [hcustom, Bool.false_eq_true, if_false, List.filterMap_append, htexts,
      String.join_append, join_filter]
    simp [argumentsOf]
    rfl

theorem After.itemStory_iff (parse : String → Option Value) (sealer : Seal)
    (h : After reply itemUuid outputIndex tcs evs t) :
    ItemStory t.outputIndex (sealItem sealer (t.doneItem parse))
        ((evs ++ if t.itemAdded then t.closing parse else []).map (sealResponsesEvent sealer)) ↔
      Settled reply tcs := by
  rcases h.phase with hw | ⟨before, tc, after, htcs, ha⟩
  · rw [hw.silent, hw.itemAdded]
    constructor
    · rintro ⟨added, mid, heq, -⟩
      cases heq
    · rintro ⟨before, tc, after, htcs, -, hknown, -⟩
      refine absurd ?_ hw.unknown
      rw [htcs, List.append_cons]
      exact hknown.append after
  · obtain ⟨added, hid, htype, hname, hevs⟩ := ha.sent
    have hlog : (evs ++ if t.itemAdded then t.closing parse else []) =
        .outputItemAdded t.outputIndex added ::
          ((t.deltas (tc :: after) ++ t.closingTexts parse) ++
            [.outputItemDone t.outputIndex (t.doneItem parse)]) := by
      rw [ha.itemAdded, if_pos rfl, hevs, closing]
      simp
    rw [hlog, itemStory_seal_iff sealer t.outputIndex added (t.doneItem parse) _
      (hid.trans (id_doneItem parse t).symm) (htype.trans (type_doneItem parse t).symm)
      (by rw [id_doneItem]; exact t.itemId?_mid parse _) (t.doneText?_mid parse _), hname,
      name_doneItem parse ha.kind, Option.some.injEq, ReplyToolCall.shownName_eq_iff,
      h.name, join_mid, body_doneItem]
    have htold :
        (if t.custom then unwrapCustomToolInput parse t.arguments else argumentsOf (tc :: after)) =
        (if t.custom then unwrapCustomToolInput parse t.arguments else t.arguments) ↔
        reply.toolCall (latestName (before ++ [tc])) = .custom ∨ argumentsOf before = "" := by
      have hkind := ha.kind.1
      rw [h.arguments, htcs, argumentsOf_append]
      cases hcall : reply.toolCall (latestName (before ++ [tc])) with
      | custom => simp [hkind, hcall, ReplyToolCall.isCustom]
      | function subName ns =>
        simp only [hkind, hcall, ReplyToolCall.isCustom, Bool.false_eq_true, if_false,
          eq_append_self_iff, reduceCtorEq, false_or]
    rw [htold]
    constructor
    · rintro ⟨hsame, htold⟩
      exact ⟨before, tc, after, htcs, ha.unknown, ha.known, htold, hsame⟩
    · rintro ⟨before', tc', after', htcs', hunknown', hknown', htold', hsame'⟩
      obtain ⟨rfl, rfl, rfl⟩ :=
        known_split_inj (htcs.symm.trans htcs') ha.unknown ha.known hunknown' hknown'
      exact ⟨hsame', htold'⟩

end ToolCallState

end Responses
end Aisix
