import Aisix.HeldContent.Ledger

/-!
# Aisix.HeldContent.NeverUndercounts

What is charged of a Responses stream covers the texts that are held of it
(`held_never_undercounts`), unless the generic counter takes over where an event carries reasoning
of a type that it does not read.
-/

namespace Aisix
namespace HeldContent

open Json ToldTexts

/-! ### The generic counter -/

/-- The bytes of text that observations carry. -/
def carriedBy (os : List Observation) : Nat := (os.map fun o => o.text.elim 0 len).sum

/-- The bytes of text that an event carries. -/
def carried (event : Value) : Nat := carriedBy (observations event)

/-- A reasoning part of a type the generic counter does not read, with a text. -/
def Unread (part : Value) : Prop :=
  strLen (part.get "text") ≠ 0 ∧ (partType part = none ∨ partType part = some .refusal)

def reasoningPartsOf (item : Value) : List Value :=
  if itemType item = some .reasoning then [ReasoningGroup.content, .summary].flatMap fun group =>
    itemsOf (item.get group.name)
  else []

/-- The reasoning parts of an event, where the place says what they are. -/
def reasoningParts (event : Value) : List Value :=
  match eventType event with
  | some .outputItem => (event.get "item").elim [] reasoningPartsOf
  | some .response => (outputOf event).flatMap reasoningPartsOf
  | some .reasoningSummaryPart => (event.get "part").toList
  | _ => []

def Recognised (event : Value) : Prop := ∀ part ∈ reasoningParts event, ¬ Unread part

theorem carriedBy_append (os os' : List Observation) :
    carriedBy (os ++ os') = carriedBy os + carriedBy os' := by
  unfold carriedBy
  rw [List.map_append, List.sum_append]

theorem carriedBy_flatMap {α : Type} (l : List α) (f : α → List Observation) :
    carriedBy (l.flatMap f) = (l.map fun a => carriedBy (f a)).sum := by
  induction l with
  | nil => rfl
  | cons a l ih => rw [List.flatMap_cons, carriedBy_append, ih, List.map_cons, List.sum_cons]

theorem le_held_foldl {α : Type} {f : Parts → α → Parts} {size : α → Nat} {l : List α}
    (h : ∀ a ∈ l, ∀ p, p.held + size a ≤ (f p a).held) (p : Parts) :
    p.held + (l.map size).sum ≤ (l.foldl f p).held := by
  induction l generalizing p with
  | nil => exact Nat.le_refl _
  | cons a l ih =>
    obtain ⟨hhere, hrest⟩ := List.forall_mem_cons.mp h
    have hfirst := hhere p
    have hmore := ih hrest (f p a)
    rw [List.map_cons, List.sum_cons, List.foldl_cons]
    omega

theorem carried_zipIdx {α : Type} {f : Parts → α → Parts} {g : α × Nat → List Observation}
    {l : List α} (h : ∀ e, e.1 ∈ l → ∀ p, p.held + carriedBy (g e) ≤ (f p e.1).held) (p : Parts) :
    p.held + carriedBy (l.zipIdx.flatMap g) ≤ (l.foldl f p).held := by
  have hfold : l.foldl f p = l.zipIdx.foldl (fun p e => f p e.1) p := by
    have hfst : l.zipIdx.map Prod.fst = l := List.zipIdx_map_fst 0 l
    calc l.foldl f p = (l.zipIdx.map Prod.fst).foldl f p := by rw [hfst]
      _ = l.zipIdx.foldl (fun p e => f p e.1) p := List.foldl_map
  rw [carriedBy_flatMap, hfold]
  refine le_held_foldl ?_ p
  intro e he
  exact h e (List.fst_mem_of_mem_zipIdx he)

theorem held_part (p : Parts) (part : Value) :
    p.held + (responsesPartText part).elim 0 (fun found => len found.2) ≤
      (responsesPartParts p part false).held := by
  unfold responsesPartText responsesPartParts
  cases partType part with
  | none => exact Nat.le_refl _
  | some kind =>
    cases kind with
    | text =>
      dsimp only
      rw [if_neg Bool.false_ne_true, held_scanStr]
      unfold strLen asStr
      cases (part.get "text").bind Value.asStr? <;> exact Nat.le_refl _
    | refusal =>
      dsimp only
      rw [if_neg Bool.false_ne_true, held_scanStr]
      unfold strLen asStr
      cases (part.get "refusal").bind Value.asStr? <;> exact Nat.le_refl _
    | reasoning group =>
      dsimp only
      rw [held_reasoningStr]
      exact Nat.le_add_right _ _

theorem held_reasoningPart {part : Value} (h : ¬ Unread part) (p : Parts) :
    p.held + strLen (part.get "text") ≤ (responsesPartParts p part true).held := by
  unfold responsesPartParts
  cases hkind : partType part with
  | none =>
    have hempty : strLen (part.get "text") = 0 := by
      by_contra hne
      exact h ⟨hne, .inl hkind⟩
    rw [hempty]
    exact Nat.le_refl _
  | some kind =>
    cases kind with
    | text =>
      dsimp only
      rw [if_pos rfl, held_reasoningStr]
    | refusal =>
      have hempty : strLen (part.get "text") = 0 := by
        by_contra hne
        exact h ⟨hne, .inr hkind⟩
      dsimp only
      rw [if_pos rfl, held_reasoningStr, hempty]
      exact Nat.le_add_right _ _
    | reasoning group =>
      dsimp only
      rw [held_reasoningStr]

theorem carriedBy_part (slot : TextField → Option Slot) (part : Value)
    (mode : ResponsesCarrierMode) :
    carriedBy ((responsesPartText part).elim [] fun found => [⟨slot found.1, some found.2, mode⟩]) =
      (responsesPartText part).elim 0 fun found => len found.2 := by
  cases responsesPartText part <;> rfl

theorem carried_item {item : Value} (h : ∀ part ∈ reasoningPartsOf item, ¬ Unread part)
    (base : Option Base) (mode : ResponsesCarrierMode) (p : Parts) :
    p.held + carriedBy (observeItem item base mode) ≤ (responsesItemParts p item).held := by
  unfold observeItem responsesItemParts
  unfold reasoningPartsOf at h
  cases hkind : itemType item with
  | none => exact Nat.le_refl _
  | some kind =>
    cases kind with
    | message =>
      refine carried_zipIdx ?_ p
      intro e _ p
      rw [carriedBy_part fun field => base.map fun base => ⟨base, .content e.2 field⟩]
      exact held_part p e.1
    | reasoning =>
      rw [if_pos hkind] at h
      have hgroup : ∀ group ∈ [ReasoningGroup.content, .summary], ∀ p : Parts,
          p.held + carriedBy ((itemsOf (item.get group.name)).zipIdx.map fun e =>
            (⟨base.map fun base => ⟨base, .reasoning group e.2⟩, asStr (e.1.get "text"),
              mode⟩ : Observation)) ≤
          ((itemsOf (item.get group.name)).foldl
            (fun p part => responsesPartParts p part true) p).held := by
        intro group hgroup p
        rw [List.map_eq_flatMap]
        refine carried_zipIdx ?_ p
        intro e he p
        exact held_reasoningPart (h e.1 (List.mem_flatMap.mpr ⟨group, hgroup, he⟩)) p
      dsimp only
      rw [carriedBy_flatMap]
      exact le_held_foldl hgroup p
    | tool toolType =>
      dsimp only
      rw [List.map_eq_flatMap, carriedBy_flatMap]
      refine le_held_foldl ?_ p
      intro field _ p
      rw [held_scanStr]
      exact Nat.le_refl _

theorem carried_le {event : Value} (h : Recognised event) :
    carried event ≤ responsesEvent event := by
  have hempty : Parts.default.held = 0 := rfl
  have hsingle :
      ∀ (slot : Option Slot) (v : Option Value) (mode : ResponsesCarrierMode) (p : Parts),
      p.held + carriedBy [⟨slot, asStr v, mode⟩] ≤ (p.scanStr v).held := by
    intro slot v mode p
    rw [held_scanStr]
    exact Nat.le_refl _
  unfold Recognised reasoningParts at h
  unfold carried observations responsesEvent responsesEventParts
  rw [← Nat.zero_add (carriedBy _), ← hempty]
  dsimp only
  cases hkind : eventType event with
  | none => exact Nat.le_refl _
  | some kind =>
    rw [hkind] at h
    cases kind with
    | textDelta field => exact hsingle _ _ _ _
    | textDone field => exact hsingle _ _ _ _
    | argumentsDelta toolType => exact hsingle _ _ _ _
    | argumentsDone toolType =>
      dsimp only
      rw [carriedBy_flatMap]
      refine le_held_foldl ?_ _
      intro field _ p
      exact hsingle _ _ _ _
    | contentPart =>
      dsimp only
      cases event.get "part" with
      | none => exact Nat.le_refl _
      | some part =>
        rw [Option.elim_some, Option.elim_some]
        have hnamed : Parts.default.held + carriedBy ((responsesPartText part).elim [] fun found =>
            observeEventContent event found.1 (some found.2) .snapshot) ≤
              (responsesPartParts .default part false).held := by
          unfold observeEventContent
          rw [carriedBy_part fun field => (responseEventBase event).bind fun base =>
            (asU64 (event.get "content_index")).map fun index => ⟨base, .content index field⟩]
          exact held_part .default part
        unfold observeEventPart
        cases hpart : partType part with
        | none => exact hnamed
        | some kind =>
          cases kind with
          | text => exact hnamed
          | refusal => exact hnamed
          | reasoning group =>
            unfold responsesPartParts
            rw [hpart]
            dsimp only
            rw [held_reasoningStr]
            exact Nat.le_refl _
    | outputItem =>
      dsimp only at h ⊢
      cases hitem : event.get "item" with
      | none => exact Nat.le_refl _
      | some item =>
        rw [hitem] at h
        exact carried_item h _ _ _
    | response =>
      refine carried_zipIdx ?_ _
      intro e he p
      refine carried_item ?_ _ _ p
      intro part hpart
      exact h part (List.mem_flatMap.mpr ⟨e.1, he, hpart⟩)
    | reasoningDelta group =>
      dsimp only
      rw [held_reasoningStr]
      exact Nat.le_refl _
    | reasoningDone group =>
      dsimp only
      rw [held_reasoningStr]
      exact Nat.le_refl _
    | reasoningSummaryPart =>
      dsimp only at h ⊢
      cases hpart : event.get "part" with
      | none => exact Nat.le_refl _
      | some part =>
        rw [hpart] at h
        have hheld := held_reasoningPart (h part (List.mem_singleton_self part)) .default
        have hcarried :
            carriedBy ((asStr ((some part).bind fun part => part.get "text")).elim [] fun text =>
            observeEventReasoning event .summary (asU64 (event.get "summary_index"))
              (some text) .snapshot) =
            strLen (part.get "text") := by
          unfold strLen asStr
          dsimp only [Option.bind_some]
          cases (part.get "text").bind Value.asStr? <;> rfl
        rw [hcarried]
        exact hheld

/-! ### A whole stream -/

variable {δ : Type*} [DecidableEq δ] {digest : List UInt8 → δ}

theorem carriedBy_tellings (os : List Observation) :
    toldSize Char.utf8Size (tellings os) = carriedBy os := by
  induction os with
  | nil => rfl
  | cons o os ih =>
    have hcons : carriedBy (o :: os) = o.text.elim 0 len + carriedBy os := by
      unfold carriedBy
      rw [List.map_cons, List.sum_cons]
    unfold tellings at ih ⊢
    rw [List.filterMap_cons, hcons, ← ih]
    unfold told
    cases htext : o.text with
    | none =>
      dsimp only [Option.filter_none, Option.map_none, Option.elim_none]
      exact (Nat.zero_add _).symm
    | some text =>
      rw [Option.elim_some]
      cases hempty : text.isEmpty with
      | true =>
        have hlen : len text = 0 := by
          rw [String.isEmpty_iff.mp hempty]
          rfl
        have hnone : (some text).filter (fun text => !text.isEmpty) = none := by
          rw [Option.filter_some, hempty]
          rfl
        rw [hnone, hlen]
        exact (Nat.zero_add _).symm
      | false =>
        have hsome : (some text).filter (fun text => !text.isEmpty) = some text := by
          rw [Option.filter_some, hempty]
          rfl
        rw [hsome, Option.map_some]
        dsimp only
        rw [toldSize, len_eq]
        cases o.mode <;> rfl

/-- Where an event makes the slots more than the ledger has room for, or comes behind one that did,
the generic counter reads all of its reasoning. -/
def Meets (events : List Value) : Prop :=
  ∀ before event, before ++ [event] <+: events →
    MAX_RESPONSES_HELD_CARRIERS < (addressed (before ++ [event])).card → Recognised event

/-- The texts of all slots. -/
def heldTexts (events : List Value) : Nat := total Char.utf8Size (texts events) (addressed events)

/-- At every point of the stream what has been charged covers the texts that are held. -/
structure NeverUndercounts (digest : List UInt8 → δ) (events : List Value) : Prop where
  covers : ∀ before, before <+: events → heldTexts before ≤ charged digest before
  repeated : ∀ before event, before ++ [event] <+: events →
    (ledgerAfter digest before).saturated = false →
    (∀ t ∈ tellings (observations event), Repeats (texts before) t) →
      charge digest (ledgerAfter digest before) event = 0
  extended : ∀ before event, before ++ [event] <+: events →
    (ledgerAfter digest before).saturated = false → ContinuesAll (texts before)
    (tellings (observations event)) →
      heldTexts (before ++ [event]) = heldTexts before +
        charge digest (ledgerAfter digest before) event
  saturated : ∀ before event, before ++ [event] <+: events →
    (ledgerAfter digest before).saturated = true →
    carried event ≤ charge digest (ledgerAfter digest before) event

theorem heldTexts_concat_le (hdigest : Function.Injective digest) {before : List Value}
    {event : Value}
    (h : MAX_RESPONSES_HELD_CARRIERS < (addressed (before ++ [event])).card → Recognised event) :
    heldTexts (before ++ [event]) ≤ heldTexts before +
      charge digest (ledgerAfter digest before) event := by
  have htotal : total Char.utf8Size (tellAll (texts before) (tellings (observations event)))
        (addressed before ∪ keys (tellings (observations event))) ≤
      total Char.utf8Size (texts before) (addressed before) +
        owedAll Char.utf8Size (texts before) (tellings (observations event)) :=
          total_le (unknown_texts before)
  unfold heldTexts
  rw [texts_concat, addressed_concat]
  by_cases hroom : (addressed (before ++ [event])).card ≤ MAX_RESPONSES_HELD_CARRIERS
  · rw [charge_of_room hdigest hroom]
    exact htotal
  · have hover := Nat.lt_of_not_le hroom
    have howed := owedAll_le (w := Char.utf8Size) (texts before) (tellings (observations event))
    have hcarried := carried_le (h hover)
    rw [charge_of_over hdigest hover]
    rw [carriedBy_tellings] at howed
    unfold carried at hcarried
    omega

theorem tellings_ne_nil (os : List Observation) : ∀ t ∈ tellings os, t.telling.text ≠ [] := by
  intro t ht
  obtain ⟨o, -, hold⟩ := List.mem_filterMap.mp ht
  obtain ⟨text, htext, rfl⟩ := Option.map_eq_some_iff.mp hold
  have hempty : (!text.isEmpty) = true := (Option.filter_eq_some_iff.mp htext).2
  intro hnil
  have hlist : text.toList = [] := by
    cases hmode : o.mode <;> rw [hmode] at hnil <;> exact hnil
  rw [String.toList_eq_nil_iff.mp hlist] at hempty
  cases hempty

theorem room_of_continues (hdigest : Function.Injective digest) {before : List Value}
    {event : Value} (hrunning : (ledgerAfter digest before).saturated = false)
    (h : ContinuesAll (texts before) (tellings (observations event))) :
    addressed (before ++ [event]) = addressed before ∧
      charge digest (ledgerAfter digest before) event =
        owedAll Char.utf8Size (texts before) (tellings (observations event)) := by
  obtain ⟨hkeys, -⟩ := total_eq (w := Char.utf8Size) (unknown_texts before) h
  have hsame : addressed (before ++ [event]) = addressed before := by
    rw [addressed_concat]
    exact Finset.union_eq_left.mpr hkeys
  have hroom : ¬ MAX_RESPONSES_HELD_CARRIERS < (addressed before).card := by
    rw [← saturated_iff hdigest, hrunning]
    exact Bool.false_ne_true
  refine ⟨hsame, charge_of_room hdigest ?_⟩
  rw [hsame]
  exact Nat.le_of_not_lt hroom

/-- **What is charged covers what is held, at every point of every stream whose reasoning the
generic counter can read where it takes over.** -/
theorem held_never_undercounts (hdigest : Function.Injective digest) (events : List Value)
    (h : Meets events) : NeverUndercounts digest events where
  covers before hbefore := by
    induction before using List.reverseRecOn with
    | nil => exact Nat.le_refl _
    | append_singleton before event ih =>
      have hstep := heldTexts_concat_le hdigest (h before event hbefore)
      have hcovered := ih ((List.prefix_append _ _).trans hbefore)
      rw [charged_concat]
      omega
  repeated before event _ hrunning hrepeats := by
    have hcontinues := continuesAll_of_repeats hrepeats (tellings_ne_nil _)
    rw [(room_of_continues hdigest hrunning hcontinues).2]
    exact owedAll_repeats hrepeats
  extended before event _ hrunning hcontinues := by
    obtain ⟨hsame, hcharge⟩ := room_of_continues hdigest hrunning hcontinues
    have htotal := (total_eq (w := Char.utf8Size) (unknown_texts before) hcontinues).2
    unfold heldTexts
    rw [hsame, hcharge, texts_concat]
    exact htotal
  saturated before event hbefore hstopped := by
    have hover := (saturated_iff hdigest before).mp hstopped
    have hmono := card_addressed_le before event
    rw [charge_of_over hdigest (by omega)]
    exact carried_le (h before event hbefore (by omega))

/-! ### Streams -/

/-- One letter of a part of its own. -/
def letterAt (i : Nat) : Value :=
  .object [("type", .string "response.output_text.delta"), ("item_id", .string "m"),
    ("output_index", .number (.posInt 0)), ("content_index", .number (.posInt (UInt64.ofNat i))),
    ("delta", .string "a")]

/-- A reasoning item with one part. -/
def reasoningItem (type : String) : Value :=
  .object [("type", .string "response.output_item.done"), ("output_index", .number (.posInt 1)),
    ("item", .object [("type", .string "reasoning"), ("id", .string "r"),
      ("content", .array [.object [("type", .string type), ("text", .string "abc")]])])]

theorem held_never_undercounts_reasoning :
    NeverUndercounts (id : List UInt8 → List UInt8)
      [letterAt 0, reasoningItem "reasoning_text", reasoningItem "reasoning_text"] := by
  refine held_never_undercounts Function.injective_id _ ?_
  intro before event hbefore _
  have hmem :
      event ∈ [letterAt 0, reasoningItem "reasoning_text", reasoningItem "reasoning_text"] :=
    hbefore.subset (List.mem_append_right _ (List.mem_singleton_self _))
  have hletter : Recognised (letterAt 0) := by
    intro part hpart
    cases hpart
  have hreasoning : Recognised (reasoningItem "reasoning_text") := by
    rintro part hpart ⟨-, hkind⟩
    obtain rfl := List.mem_singleton.mp hpart
    rcases hkind with hkind | hkind <;> exact absurd hkind (by decide)
  rcases List.mem_cons.mp hmem with rfl | hmem
  · exact hletter
  · rcases List.mem_cons.mp hmem with rfl | hmem
    · exact hreasoning
    · obtain rfl := List.mem_singleton.mp hmem
      exact hreasoning

def letterSlot (i : Nat) : Slot := ⟨⟨"m", 0⟩, .content i .text⟩

theorem tellings_letterAt {i : Nat} (hi : i < 2 ^ 64) :
    tellings (observations (letterAt i)) = [⟨some (letterSlot i), .piece ['a']⟩] := by
  have hobserved :
      observations (letterAt i) = [⟨some (letterSlot (UInt64.ofNat i).toNat), some "a", .delta⟩] :=
      rfl
  rw [hobserved, UInt64.toNat_ofNat', Nat.mod_eq_of_lt hi]
  rfl

theorem addressed_letters (n : Nat) (hn : n ≤ 2 ^ 64) :
    addressed ((List.range n).map letterAt) = (Finset.range n).image letterSlot := by
  induction n with
  | zero => rfl
  | succ n ih =>
    rw [List.range_succ, List.map_append, List.map_singleton, addressed_concat, ih (by omega),
      tellings_letterAt (by omega), keys_singleton_some rfl, Finset.range_add_one,
      Finset.image_insert, Finset.union_comm, Finset.singleton_union]

/-- Reasoning of another type behind more texts than the ledger has room for. -/
theorem unknown_reasoning_uncharged :
    ¬ ∀ (digest : List UInt8 → List UInt8), Function.Injective digest →
      ∀ events, NeverUndercounts digest events := by
  intro h
  have hevents :=
    h id Function.injective_id ((List.range 1025).map letterAt ++ [reasoningItem "thinking"])
  have hcard : (addressed ((List.range 1025).map letterAt)).card = 1025 := by
    rw [addressed_letters 1025 (by omega), Finset.card_image_of_injective, Finset.card_range]
    intro i j hij
    unfold letterSlot at hij
    injection hij with _ hplace
    injection hplace
  have hover : MAX_RESPONSES_HELD_CARRIERS < (addressed ((List.range 1025).map letterAt)).card := by
    rw [hcard]
    decide
  have hstopped :
      (ledgerAfter (id : List UInt8 → List UInt8) ((List.range 1025).map letterAt)).saturated =
      true :=
    (saturated_iff Function.injective_id _).mpr hover
  have hcharged := hevents.saturated _ _ (List.prefix_refl _) hstopped
  have hmono := card_addressed_le ((List.range 1025).map letterAt) (reasoningItem "thinking")
  rw [charge_of_over Function.injective_id (by omega)] at hcharged
  exact absurd hcharged (by decide)

end HeldContent
end Aisix
