import Aisix.Responses.Stream

/-!
# Aisix.Responses.Terminal

What the terminal event repeats. Every item of a channel tells its story, and a call does when it is
settled; the output lists a call that was never announced all the same, so one such call spoils the
whole list.
-/

namespace Aisix
namespace Responses

open Json Anthropic NumberedLogs

theorem ascending_unique {ns ms : List Nat} (hns : ns.Pairwise (· < ·)) (hms : ms.Pairwise (· < ·))
    (hsub : ns ⊆ ms) (hlength : ms.length ≤ ns.length) : ns = ms := by
  have hnodup : ns.Nodup := hns.imp fun h => Nat.ne_of_lt h
  have hperm : ns.Perm ms := (List.subperm_of_subset hnodup hsub).perm_of_length_le hlength
  exact hperm.eq_of_pairwise
    (fun a b _ _ hab hba => absurd (Nat.lt_trans hab hba) (Nat.lt_irrefl a)) hns hms

namespace ToolCallState

theorem log_closings_absent (parse : String → Option Value) {i : Nat} {ts : List ToolCallState}
    (h : i ∉ ts.map (·.outputIndex)) :
    log EventData.outputIndex? i (ts.flatMap (closing parse)) = [] := by
  refine log_eq_nil _ fun e he heq => h ?_
  obtain ⟨t, ht, he⟩ := List.mem_flatMap.mp he
  rw [outputIndex?_closing parse t e he, Option.some.injEq] at heq
  exact List.mem_map.mpr ⟨t, ht, heq⟩

theorem log_closings (parse : String → Option Value) {t : ToolCallState} {ts : List ToolCallState}
    (hnodup : (ts.map (·.outputIndex)).Nodup) (ht : t ∈ ts) :
    log EventData.outputIndex? t.outputIndex (ts.flatMap (closing parse)) = t.closing parse := by
  induction ts with
  | nil => cases ht
  | cons u us ih =>
    rw [List.map_cons, List.nodup_cons] at hnodup
    rw [List.flatMap_cons]
    rcases List.mem_cons.mp ht with rfl | ht
    · rw [log_append, log_eq_self _ (t.outputIndex?_closing parse),
        log_closings_absent parse hnodup.1, List.append_nil]
    · have hne : t.outputIndex ≠ u.outputIndex := fun heq =>
        hnodup.1 (heq ▸ List.mem_map.mpr ⟨t, ht, rfl⟩)
      have hnil : log EventData.outputIndex? t.outputIndex (u.closing parse) = [] :=
        log_eq_nil _ fun e he heq => by
          rw [u.outputIndex?_closing parse e he, Option.some.injEq] at heq
          exact hne heq.symm
      rw [log_append, hnil, List.nil_append]
      exact ih hnodup.2 ht

end ToolCallState

namespace ResponsesSseEncoder

variable {parse : String → Option Value} {s : ResponsesSseEncoder} {es items : List EventData}
    {tcs : List Value}

/-! ### The indices -/

theorem mem_outputItems {p : Nat × OutputItem} :
    p ∈ s.outputItems parse ↔
      (∃ c, ∃ o ∈ (s.channels c).items, p = (o.outputIndex, c.doneItem o)) ∨
        ∃ key t, s.toolCalls.get? key = some t ∧ p = (t.outputIndex, t.doneItem parse) := by
  simp only [outputItems, List.mem_append, List.mem_map, SortedMap.mem_values_iff]
  constructor
  · rintro (((⟨o, ho, rfl⟩ | ⟨o, ho, rfl⟩) | ⟨o, ho, rfl⟩) | ⟨t, ⟨key, ht⟩, rfl⟩)
    · exact .inl ⟨.reasoning, o, ho, rfl⟩
    · exact .inl ⟨.text, o, ho, rfl⟩
    · exact .inl ⟨.refusal, o, ho, rfl⟩
    · exact .inr ⟨key, t, ht, rfl⟩
  · rintro (⟨c, o, ho, rfl⟩ | ⟨key, t, ht, rfl⟩)
    · cases c with
      | reasoning => exact .inl (.inl (.inl ⟨o, ho, rfl⟩))
      | text => exact .inl (.inl (.inr ⟨o, ho, rfl⟩))
      | refusal => exact .inl (.inr ⟨o, ho, rfl⟩)
    · exact .inr ⟨t, ⟨key, ht⟩, rfl⟩

theorem number_item {c : Channel} {o : OpenItem} (h : o ∈ (s.channels c).items) :
    ∃ n, s.number (.item c n) = some o.outputIndex := by
  obtain ⟨n, hn, rfl⟩ := List.mem_iff_getElem.mp h
  exact ⟨n, by simp [number, List.getElem?_eq_getElem hn]⟩

theorem nodup_items (h : Shelved EventData.outputIndex? s.number s.nextOutputIndex es)
    (c : Channel) :
    ((s.channels c).items.map (·.outputIndex)).Nodup := by
  rw [List.Nodup, List.pairwise_iff_getElem]
  intro i j hi hj hij heq
  simp only [List.getElem_map] at heq
  rw [List.length_map] at hi hj
  have hnumber : ∀ (n : Nat) (hn : n < (s.channels c).items.length),
      s.number (.item c n) = some ((s.channels c).items[n]).outputIndex := fun n hn => by
    simp [number, List.getElem?_eq_getElem hn]
  have hsame := h.inj (hnumber i hi) ((hnumber j hj).trans (by rw [heq]))
  cases hsame
  exact Nat.lt_irrefl _ hij

theorem nodup_calls (h : Shelved EventData.outputIndex? s.number s.nextOutputIndex es) :
    (s.toolCalls.values.map (·.outputIndex)).Nodup := by
  rw [SortedMap.values, List.map_map, List.Nodup, List.pairwise_map]
  refine s.toolCalls.sorted.imp_of_mem fun {e e'} he he' hlt heq => ?_
  have hget := number_call (SortedMap.mem_entries_iff.mp he)
  have hget' := number_call (SortedMap.mem_entries_iff.mp he')
  have hsame := h.inj hget (hget'.trans (congrArg some heq.symm))
  rw [Writer.call.inj hsame] at hlt
  exact lt_irrefl _ hlt

theorem disjoint_items (h : Shelved EventData.outputIndex? s.number s.nextOutputIndex es)
    {c c' : Channel} (hne : c ≠ c') : List.Disjoint ((s.channels c).items.map (·.outputIndex))
      ((s.channels c').items.map (·.outputIndex)) := by
  intro i hi hi'
  obtain ⟨o, ho, rfl⟩ := List.mem_map.mp hi
  obtain ⟨o', ho', heq⟩ := List.mem_map.mp hi'
  obtain ⟨n, hn⟩ := number_item ho
  obtain ⟨n', hn'⟩ := number_item ho'
  have hsame := h.inj hn (hn'.trans (congrArg some heq))
  exact hne (Writer.item.inj hsame).1

theorem disjoint_calls (h : Shelved EventData.outputIndex? s.number s.nextOutputIndex es)
    (c : Channel) :
    List.Disjoint ((s.channels c).items.map (·.outputIndex))
      (s.toolCalls.values.map (·.outputIndex)) := by
  intro i hi hi'
  obtain ⟨o, ho, rfl⟩ := List.mem_map.mp hi
  obtain ⟨t, ht, heq⟩ := List.mem_map.mp hi'
  obtain ⟨n, hn⟩ := number_item ho
  obtain ⟨key, hkey⟩ := SortedMap.mem_values_iff.mp ht
  cases h.inj hn ((number_call hkey).trans (congrArg some heq))

theorem nodup_outputItems (h : Shelved EventData.outputIndex? s.number s.nextOutputIndex es) :
    ((s.outputItems parse).map (·.1)).Nodup := by
  have hmap : (s.outputItems parse).map (·.1) =
      (s.channels .reasoning).items.map (·.outputIndex) ++ (s.channels .text).items.map
        (·.outputIndex) ++ (s.channels .refusal).items.map (·.outputIndex) ++ s.toolCalls.values.map
        (·.outputIndex) := by
    simp [outputItems, Function.comp_def]
  rw [hmap]
  refine List.Nodup.append
    (List.Nodup.append (List.Nodup.append (nodup_items h _) (nodup_items h _) ?_)
      (nodup_items h _) ?_) (nodup_calls h) ?_
  · exact disjoint_items h (by decide)
  · exact List.disjoint_append_left.mpr ⟨disjoint_items h (by decide), disjoint_items h (by decide)⟩
  · exact List.disjoint_append_left.mpr
      ⟨List.disjoint_append_left.mpr ⟨disjoint_calls h _, disjoint_calls h _⟩, disjoint_calls h _⟩

/-- The items in the order of their indices. -/
def sortedItems (parse : String → Option Value) (s : ResponsesSseEncoder) :
    List (Nat × OutputItem) :=
  (s.outputItems parse).insertionSort (·.1 ≤ ·.1)

theorem mem_sortedItems {p : Nat × OutputItem} :
    p ∈ s.sortedItems parse ↔ p ∈ s.outputItems parse :=
  List.mem_insertionSort _

theorem ascending_sortedItems (h : Shelved EventData.outputIndex? s.number s.nextOutputIndex es) :
    ((s.sortedItems parse).map (·.1)).Pairwise (· < ·) := by
  have hle : (s.sortedItems parse).Pairwise (·.1 ≤ ·.1) := List.pairwise_insertionSort _ _
  have hnodup : ((s.sortedItems parse).map (·.1)).Nodup :=
    (((List.perm_insertionSort _ _).map _).nodup_iff).mpr (nodup_outputItems h)
  rw [List.Nodup, List.pairwise_map] at hnodup
  rw [List.pairwise_map]
  exact hle.imp₂ (fun _ _ hle hne => Nat.lt_of_le_of_ne hle hne) hnodup

/-! ### The whole log of an item -/

theorem itemStory_channel (sealer : Seal) {c : Channel} {o : OpenItem} {l : List EventData}
    (h : Written c o l) : ItemStory o.outputIndex (sealItem sealer (c.doneItem o))
      ((l ++ c.closing o).map (sealResponsesEvent sealer)) := by
  obtain ⟨ds, hds, rfl⟩ := h
  have hlog :
      c.opening o.itemId o.outputIndex ++ ds.map (.delta (.channel c) o.itemId o.outputIndex) ++
      c.closing o = .outputItemAdded o.outputIndex (c.addedItem o.itemId) ::
        ((.partAdded c o.itemId o.outputIndex ::
          ds.map (.delta (.channel c) o.itemId o.outputIndex) ++
          [.done (.channel c) o.itemId o.outputIndex o.text,
            .partDone c o.itemId o.outputIndex o.text]) ++
            [.outputItemDone o.outputIndex (c.doneItem o)]) := by
    simp [Channel.opening, Channel.closing]
  have hid : (c.doneItem o).id = o.itemId := by cases c <;> rfl
  have hbody : (c.doneItem o).body = o.text := by cases c <;> rfl
  have hdeltas : (ds.map (EventData.delta (.channel c) o.itemId o.outputIndex)).filterMap
      EventData.deltaText? = ds := by
    rw [List.filterMap_map]
    exact List.filterMap_some
  rw [hlog]
  refine (itemStory_seal_iff sealer _ _ _ _ ?_ ?_ ?_ ?_).mpr ⟨?_, ?_⟩
  · cases c <;> rfl
  · cases c <;> rfl
  · intro e he
    rw [hid]
    simp only [List.cons_append, List.mem_cons, List.mem_append, List.mem_map,
      List.not_mem_nil, or_false] at he
    rcases he with rfl | ⟨d, -, rfl⟩ | rfl | rfl <;> rfl
  · intro e he text htext
    rw [hbody]
    simp only [List.cons_append, List.mem_cons, List.mem_append, List.mem_map,
      List.not_mem_nil, or_false] at he
    rcases he with rfl | ⟨d, -, rfl⟩ | rfl | rfl
    · cases htext
    · cases htext
    · exact (Option.some.inj htext).symm
    · exact (Option.some.inj htext).symm
  · cases c <;> rfl
  · rw [hbody, ← hds, List.filterMap_append, List.filterMap_cons_none rfl, hdeltas,
      String.join_append]
    exact String.append_empty

theorem Closed.indexed (h : Closed parse s items tcs) :
    ∀ e ∈ items, ∃ i, e.outputIndex? = some i ∧ i ∈ (s.outputItems parse).map (·.1) := by
  obtain ⟨es, hlogs, -, -, rfl⟩ := h
  intro e he
  rcases List.mem_append.mp he with he | he
  · obtain ⟨k, i, hk, hi⟩ := hlogs.shelved.owned e he
    refine ⟨i, hi, List.mem_map.mpr ?_⟩
    cases k with
    | item c n =>
      obtain ⟨o, ho, rfl⟩ := Option.map_eq_some_iff.mp hk
      exact ⟨(o.outputIndex, c.doneItem o),
        mem_outputItems.mpr (.inl ⟨c, o, List.mem_of_getElem? ho, rfl⟩), rfl⟩
    | call key =>
      obtain ⟨t, ht, rfl⟩ := Option.map_eq_some_iff.mp hk
      exact ⟨(t.outputIndex, t.doneItem parse), mem_outputItems.mpr (.inr ⟨key, t, ht, rfl⟩), rfl⟩
  · obtain ⟨t, ht, he⟩ := List.mem_flatMap.mp he
    obtain ⟨key, hkey⟩ := SortedMap.mem_values_iff.mp (List.mem_filter.mp ht).1
    refine ⟨t.outputIndex, t.outputIndex?_closing parse e he, List.mem_map.mpr ?_⟩
    exact ⟨(t.outputIndex, t.doneItem parse), mem_outputItems.mpr (.inr ⟨key, t, hkey, rfl⟩), rfl⟩

theorem Closed.log_item (h : Closed parse s items tcs) {c : Channel} {o : OpenItem}
    (ho : o ∈ (s.channels c).items) :
    ∃ l, Written c o l ∧ log EventData.outputIndex? o.outputIndex items = l ++ c.closing o := by
  obtain ⟨es, hlogs, -, hopened, rfl⟩ := h
  have hclosed : o ∈ (s.channels c).closed := by simpa [ChannelState.items, hopened c] using ho
  obtain ⟨l, hl, hlog⟩ := hlogs.closed c o hclosed
  have habsent : o.outputIndex ∉ (s.toolCalls.values.filter (·.itemAdded)).map (·.outputIndex) := by
    intro hmem
    obtain ⟨t, ht, heq⟩ := List.mem_map.mp hmem
    exact disjoint_calls hlogs.shelved c (List.mem_map.mpr ⟨o, ho, rfl⟩)
      (List.mem_map.mpr ⟨t, (List.mem_filter.mp ht).1, heq⟩)
  refine ⟨l, hl, ?_⟩
  rw [log_append, ToolCallState.log_closings_absent parse habsent, List.append_nil, hlog]

/-- The log of a call: what its fragments sent, then its close if it was announced. -/
theorem Closed.log_call (h : Closed parse s items tcs) {key : Nat} {t : ToolCallState}
    (ht : s.toolCalls.get? key = some t) :
    ∃ itemUuid evs, ToolCallState.After s.reply itemUuid t.outputIndex (fragmentsOf key tcs) evs t ∧
      log EventData.outputIndex? t.outputIndex items = evs ++
        if t.itemAdded then t.closing parse else [] := by
  obtain ⟨es, hlogs, -, -, rfl⟩ := h
  obtain ⟨itemUuid, hafter⟩ := hlogs.calls key t ht
  refine ⟨itemUuid, _, hafter, ?_⟩
  have hmem : t ∈ s.toolCalls.values := SortedMap.mem_values_iff.mpr ⟨key, ht⟩
  have hnodup := nodup_calls hlogs.shelved
  rw [log_append]
  split
  · next hadded =>
    have hsub :=
      (List.filter_sublist (p := (·.itemAdded)) (l := s.toolCalls.values)).map (·.outputIndex)
    rw [ToolCallState.log_closings parse (hnodup.sublist hsub) (List.mem_filter.mpr ⟨hmem, hadded⟩)]
  · next hadded =>
    rw [ToolCallState.log_closings_absent parse]
    intro hin
    obtain ⟨u, hu, heq⟩ := List.mem_map.mp hin
    obtain ⟨hu, huadded⟩ := List.mem_filter.mp hu
    obtain rfl : u = t := List.inj_on_of_nodup_map hnodup hu hmem heq
    exact hadded huadded

theorem Closed.itemStory_iff (sealer : Seal) (h : Closed parse s items tcs) {p : Nat × OutputItem}
    (hp : p ∈ s.outputItems parse) :
    ItemStory p.1 (sealItem sealer p.2)
        (log EventData.outputIndex? p.1 (items.map (sealResponsesEvent sealer))) ↔
      ∀ key t, s.toolCalls.get? key = some t → t.outputIndex = p.1 →
        Settled s.reply (fragmentsOf key tcs) := by
  obtain ⟨es, hlogs, -⟩ := id h
  rw [log_map _ (outputIndex?_seal sealer)]
  rcases mem_outputItems.mp hp with ⟨c, o, ho, rfl⟩ | ⟨key, t, ht, rfl⟩
  · obtain ⟨l, hl, hlog⟩ := h.log_item ho
    rw [hlog]
    refine iff_of_true (itemStory_channel sealer hl) fun key t ht heq => ?_
    obtain ⟨n, hn⟩ := number_item ho
    cases hlogs.shelved.inj hn ((number_call ht).trans (congrArg some heq))
  · obtain ⟨itemUuid, evs, hafter, hlog⟩ := h.log_call ht
    rw [hlog, hafter.itemStory_iff parse sealer]
    constructor
    · intro hsettled key' t' ht' heq
      have hsame :=
        hlogs.shelved.inj (number_call ht') ((number_call ht).trans (congrArg some heq.symm))
      rw [Writer.call.inj hsame]
      exact hsettled
    · intro hall
      exact hall key t ht rfl

theorem Closed.itemsStory_iff (sealer : Seal) (h : Closed parse s items tcs) :
    ItemsStory (items.map (sealResponsesEvent sealer))
      ((s.finalOutputItems parse).map (sealItem sealer)) ↔ ∀ key, fragmentsOf key tcs ≠ [] →
      Settled s.reply (fragmentsOf key tcs) := by
  obtain ⟨es, hlogs, hheard, -⟩ := id h
  have hasc : ((s.sortedItems parse).map (·.1)).Pairwise (· < ·) :=
    ascending_sortedItems hlogs.shelved
  have houtput : (s.finalOutputItems parse).map (sealItem sealer) =
      ((s.sortedItems parse).map fun p => (p.1, sealItem sealer p.2)).map (·.2) := by
    rw [finalOutputItems, sortedItems, List.map_map, List.map_map]
    rfl
  have hfirst : ((s.sortedItems parse).map fun p => (p.1, sealItem sealer p.2)).map (·.1) =
      (s.sortedItems parse).map (·.1) := by
    rw [List.map_map]
    rfl
  have hindexed : ∀ e ∈ items.map (sealResponsesEvent sealer),
      ∃ i, e.outputIndex? = some i ∧ i ∈ (s.sortedItems parse).map (·.1) := by
    intro e he
    obtain ⟨e₀, he₀, rfl⟩ := List.mem_map.mp he
    obtain ⟨i, hi, hmem⟩ := h.indexed e₀ he₀
    exact ⟨i, (outputIndex?_seal sealer e₀).trans hi,
      (((List.perm_insertionSort _ _).map _).mem_iff).mpr hmem⟩
  constructor
  · rintro ⟨-, told, htold, hsame, -, hstories⟩ key hkey
    -- every item told of has an event, and there are as many as the output has items
    have hsub : told.map (·.1) ⊆ (s.sortedItems parse).map (·.1) := by
      intro i hi
      obtain ⟨p, hp, rfl⟩ := List.mem_map.mp hi
      obtain ⟨added, mid, hlog, -⟩ := hstories p hp
      have hmem : EventData.outputItemAdded p.1 added ∈
          log EventData.outputIndex? p.1 (items.map (sealResponsesEvent sealer)) := by simp [hlog]
      obtain ⟨j, hj, hin⟩ := hindexed _ ((mem_log _).mp hmem).1
      cases hj
      exact hin
    have hlength : ((s.sortedItems parse).map (·.1)).length ≤ (told.map (·.1)).length := by
      have hcount := congrArg List.length (houtput.symm.trans hsame)
      simp only [List.length_map] at hcount ⊢
      exact Nat.le_of_eq hcount
    have hnumbers := ascending_unique (List.pairwise_map.mpr htold) hasc hsub hlength
    have htolds : told = (s.sortedItems parse).map fun p => (p.1, sealItem sealer p.2) :=
      (List.zip_of_prod hnumbers (hsame.symm.trans houtput)).trans
        (List.zip_of_prod hfirst rfl).symm
    cases hget : s.toolCalls.get? key with
    | none => exact absurd ((hheard key).mp hget) hkey
    | some t =>
      have hp : (t.outputIndex, t.doneItem parse) ∈ s.outputItems parse :=
        mem_outputItems.mpr (.inr ⟨key, t, hget, rfl⟩)
      have hstory := hstories (t.outputIndex, sealItem sealer (t.doneItem parse)) (by
        rw [htolds]
        exact List.mem_map.mpr ⟨_, mem_sortedItems.mpr hp, rfl⟩)
      exact (h.itemStory_iff sealer hp).mp hstory key t hget rfl
  · intro hall
    refine ⟨fun e he => ?_, (s.sortedItems parse).map fun p => (p.1, sealItem sealer p.2), ?_,
      houtput, ?_, ?_⟩
    · obtain ⟨i, hi, -⟩ := hindexed e he
      rw [hi]
      rfl
    · rw [List.pairwise_map]
      exact List.pairwise_map.mp hasc
    · intro e he i hi
      obtain ⟨j, hj, hmem⟩ := hindexed e he
      rw [hfirst, ← Option.some.inj (hj.symm.trans hi)]
      exact hmem
    · intro q hq
      obtain ⟨p, hp, rfl⟩ := List.mem_map.mp hq
      refine (h.itemStory_iff sealer (mem_sortedItems.mp hp)).mpr fun key t ht _ =>
        hall key fun hnil => ?_
      rw [(hheard key).mpr hnil] at ht
      cases ht

/-! ### The stream -/

theorem sequenceNumber_events (sealer : Seal) (number : Nat) (raw : List EventData) :
    (events sealer number raw).map (·.sequenceNumber) = List.range' number raw.length := by
  induction raw generalizing number with
  | nil => rfl
  | cons d raw ih => simp [events, ih, List.range'_succ]

theorem length_events (sealer : Seal) (number : Nat) (raw : List EventData) :
    (events sealer number raw).length = raw.length := by
  induction raw generalizing number with
  | nil => rfl
  | cons d raw ih => simp [events, ih]

theorem data_events (sealer : Seal) (number : Nat) (raw : List EventData) :
    (events sealer number raw).map (·.data) = raw.map (sealResponsesEvent sealer) := by
  induction raw generalizing number with
  | nil => rfl
  | cons d raw ih => simp [events, ih]

theorem eventType_events (sealer : Seal) (number : Nat) (raw : List EventData) :
    ∀ e ∈ events sealer number raw, e.eventType = e.data.eventType := by
  induction raw generalizing number with
  | nil =>
    intro e he
    cases he
  | cons d raw ih =>
    intro e he
    rcases List.mem_cons.mp he with rfl | he
    · exact (eventType_seal sealer d).symm
    · exact ih (number + 1) e he

theorem Told.story_iff {raw : List EventData} (sealer : Seal) (h : Told parse s raw tcs) :
    Story (events sealer 0 raw) ↔
      ∀ key, fragmentsOf key tcs ≠ [] → Settled s.reply (fragmentsOf key tcs) := by
  obtain ⟨items, last, response, hclosed, hterminal, houtput, created, inProgress, hraw⟩ := h
  have hlast :
      (sealResponsesEvent sealer last).terminal? = some (sealResponsesBody sealer response) := by
    rw [terminal?_seal, hterminal]
    rfl
  have hout : (sealResponsesBody sealer response).output =
      (s.finalOutputItems parse).map (sealItem sealer) :=
        congrArg (List.map (sealItem sealer)) houtput
  have hdata : (events sealer 0 raw).map (·.data) =
      .created (sealResponsesBody sealer created) ::
        .inProgress (sealResponsesBody sealer inProgress) ::
        (items.map (sealResponsesEvent sealer) ++ [sealResponsesEvent sealer last]) := by
    rw [data_events, hraw]
    simp [sealResponsesEvent]
  rw [← hclosed.itemsStory_iff sealer, ← hout]
  constructor
  · rintro ⟨-, -, created', inProgress', response', items', last', hdata', hlast', hstory⟩
    obtain ⟨-, hrest⟩ := List.cons.inj (hdata.symm.trans hdata')
    obtain ⟨-, hrest⟩ := List.cons.inj hrest
    obtain ⟨hitems, hlasts⟩ := List.append_inj' hrest rfl
    rw [← List.singleton_inj.mp hlasts, hlast, Option.some.injEq] at hlast'
    rw [hitems, hlast']
    exact hstory
  · intro hstory
    refine ⟨?_, eventType_events sealer 0 raw, _, _, _, _, _, hdata, hlast, hstory⟩
    rw [sequenceNumber_events, length_events, List.range_eq_range']

/-- The events of any stream within the assembly limit, once it has output. -/
theorem stream_story_iff (parse : String → Option Value) (uuid : Nat → String)
    (responseId modelDisplayName : String) (createdAt : Int) (reply : ResponsesReplyContext)
    (sealer : Seal) (chunks : List ChatChunk)
    (hfits : (((new responseId modelDisplayName createdAt reply).sealingIds sealer).encode parse
      uuid chunks).2.overflowed = false)
    (hout : (((new responseId modelDisplayName createdAt reply).sealingIds sealer).encode parse uuid
      chunks).2.hasOutput = true) :
    Story (((new responseId modelDisplayName createdAt reply).sealingIds sealer).stream
        parse uuid chunks) ↔
      ∀ key, fragmentsOf key (fragmentsRead chunks) ≠ [] →
        Settled reply (fragmentsOf key (fragmentsRead chunks)) := by
  obtain ⟨s, raw, htold, hstream, hreply⟩ :=
    stream_told parse uuid responseId modelDisplayName createdAt reply sealer chunks hfits hout
  rw [hstream, ← hreply]
  exact htold.story_iff sealer

def fragmentChunk (tc : Value) (finishReason : Option FinishReason) : ChatChunk :=
  saying { ChatDelta.default with toolCalls := some [tc] } finishReason

/-- A call whose arguments come behind its name. -/
theorem stream_story_call :
    Story (((new "resp_1" "m" 0 ⟨[], [], []⟩).sealingIds none).stream (fun _ => none)
      (fun n => toString n)
      [fragmentChunk (fragment "call_1" "lookup" "1") none,
        fragmentChunk (fragment "" "" "2") (some .toolCalls)]) := by
  refine (stream_story_iff (fun _ => none) (fun n => toString n) "resp_1" "m" 0 ⟨[], [], []⟩ none _
    (by decide +kernel) (by decide +kernel)).mpr fun key hkey => ?_
  by_cases hzero : key = 0
  · subst hzero
    exact ⟨[], fragment "call_1" "lookup" "1", [fragment "" "" "2"], rfl,
      not_known_nil, by decide, .inr rfl, .inr (by decide)⟩
  · refine absurd (List.filter_eq_nil_iff.mpr fun tc htc => ?_) hkey
    have hindex : callIndex tc = 0 := by
      rcases List.mem_cons.mp htc with rfl | htc
      · rfl
      · rw [List.mem_singleton.mp htc]
        rfl
    rw [hindex, decide_eq_true_eq]
    exact fun h => hzero h.symm

/-- A name that is sent in two fragments: the item is announced as `look` and closed as `up`. -/
theorem stream_story_split_name :
    ¬ ∀ (parse : String → Option Value) (uuid : Nat → String) (responseId modelDisplayName : String)
      (createdAt : Int) (reply : ResponsesReplyContext) (sealer : Seal) (chunks : List ChatChunk),
      (((new responseId modelDisplayName createdAt reply).sealingIds sealer).encode parse uuid
        chunks).2.overflowed = false →
      (((new responseId modelDisplayName createdAt reply).sealingIds sealer).encode parse uuid
        chunks).2.hasOutput = true →
      Story (((new responseId modelDisplayName createdAt reply).sealingIds sealer).stream parse uuid
        chunks) := by
  intro hall
  obtain ⟨s, raw, htold, hstream, hreply⟩ :=
    stream_told (fun _ => none) (fun n => toString n) "resp_1" "m" 0
    ⟨[], [], []⟩ none [fragmentChunk (fragment "call_1" "look" "") none,
      fragmentChunk (fragment "" "up" "1") (some .toolCalls)] (by
        decide +kernel) (by decide +kernel)
  have hstory := hall (fun _ => none) (fun n => toString n) "resp_1" "m" 0 ⟨[], [], []⟩ none
    [fragmentChunk (fragment "call_1" "look" "") none,
      fragmentChunk (fragment "" "up" "1") (some .toolCalls)] (by
        decide +kernel) (by decide +kernel)
  rw [hstream] at hstory
  obtain ⟨before, tc, after, htcs, hunknown, hknown, -, hname⟩ :=
    (htold.story_iff none).mp hstory 0 (by decide +kernel)
  have hsplit : [] ++ fragment "call_1" "look" "" :: [fragment "" "up" "1"] = before ++
      tc :: after := htcs
  obtain ⟨rfl, rfl, rfl⟩ := known_split_inj hsplit not_known_nil (by decide) hunknown hknown
  rw [hreply] at hname
  rcases hname with hname | hname
  · exact hname
  · exact absurd hname (by decide)

end ResponsesSseEncoder

end Responses
end Aisix
