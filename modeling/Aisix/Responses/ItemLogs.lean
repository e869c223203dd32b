import Aisix.Responses.Story

/-!
# Aisix.Responses.ItemLogs

The log of every item while the encoder runs. Each step writes for one item only, so what the others
have written stays.
-/

namespace Aisix
namespace Responses

open Json Anthropic NumberedLogs

/-- Who writes: the nth item of a channel, or the call of a chat index. -/
inductive Writer where
  | item (c : Channel) (n : Nat)
  | call (key : Nat)
  deriving DecidableEq, Repr

/-- The fragments of one call. -/
def fragmentsOf (key : Nat) (tcs : List Value) : List Value :=
  tcs.filter fun tc => callIndex tc = key

theorem fragmentsOf_concat_self (tcs : List Value) (tc : Value) :
    fragmentsOf (callIndex tc) (tcs ++ [tc]) = fragmentsOf (callIndex tc) tcs ++ [tc] := by
  simp [fragmentsOf]

theorem fragmentsOf_concat_ne {key : Nat} {tc : Value} (h : key ≠ callIndex tc) (tcs : List Value) :
    fragmentsOf key (tcs ++ [tc]) = fragmentsOf key tcs := by
  simp [fragmentsOf, h.symm]

/-- The log of an item that is open: its announcement, and deltas that make up its text. -/
def Written (c : Channel) (o : OpenItem) (l : List EventData) : Prop :=
  ∃ ds, String.join ds = o.text ∧
    l = c.opening o.itemId o.outputIndex ++ ds.map (.delta (.channel c) o.itemId o.outputIndex)

namespace ResponsesSseEncoder

/-- The index of a writer's item. -/
def number (s : ResponsesSseEncoder) : Writer → Option Nat
  | .item c n => ((s.channels c).items[n]?).map (·.outputIndex)
  | .call key => (s.toolCalls.get? key).map (·.outputIndex)

variable {s s' : ResponsesSseEncoder} {es fs : List EventData} {tcs : List Value}

theorem number_opened {c : Channel} {o : OpenItem} (h : (s.channels c).opened = some o) :
    s.number (.item c (s.channels c).closed.length) = some o.outputIndex := by
  simp [number, ChannelState.items, h]

theorem number_closed {c : Channel} {o : OpenItem} (h : o ∈ (s.channels c).closed) :
    ∃ n < (s.channels c).closed.length, s.number (.item c n) = some o.outputIndex := by
  obtain ⟨n, hn, rfl⟩ := List.mem_iff_getElem.mp h
  exact ⟨n,
    hn, by
    simp [number, ChannelState.items, List.getElem?_append_left hn, List.getElem?_eq_getElem hn]⟩

theorem number_call {key : Nat} {t : ToolCallState} (h : s.toolCalls.get? key = some t) :
    s.number (.call key) = some t.outputIndex := by
  simp [number, h]

/-- What has been written for every item, `tcs` being the fragments read so far. -/
structure Logs (s : ResponsesSseEncoder) (es : List EventData) (tcs : List Value) : Prop where
  shelved : Shelved EventData.outputIndex? s.number s.nextOutputIndex es
  opened : ∀ c o, (s.channels c).opened = some o →
    Written c o (log EventData.outputIndex? o.outputIndex es)
  closed : ∀ c, ∀ o ∈ (s.channels c).closed,
    ∃ l, Written c o l ∧ log EventData.outputIndex? o.outputIndex es = l ++ c.closing o
  calls : ∀ key t, s.toolCalls.get? key = some t → ∃ itemUuid,
    ToolCallState.After s.reply itemUuid t.outputIndex (fragmentsOf key tcs)
      (log EventData.outputIndex? t.outputIndex es) t

/-- Calls are known by their fragments. -/
def Heard (s : ResponsesSseEncoder) (tcs : List Value) : Prop :=
  ∀ key, s.toolCalls.get? key = none ↔ fragmentsOf key tcs = []

/-- A step that writes for one item of a channel keeps the logs when it keeps that item's. -/
theorem Logs.channel {c : Channel} {st : ChannelState} (h : Logs s es tcs)
    (hchannels : s'.channels = Function.update s.channels c st)
    (hcalls : s'.toolCalls = s.toolCalls) (hreply : s'.reply = s.reply)
    (hshelved : Shelved EventData.outputIndex? s'.number s'.nextOutputIndex (es ++ fs))
    (hothers : ∀ k j, s.number k = some j → k ≠ .item c (s.channels c).closed.length →
      log EventData.outputIndex? j (es ++ fs) = log EventData.outputIndex? j es)
    (hopened : ∀ o, st.opened = some o →
      Written c o (log EventData.outputIndex? o.outputIndex (es ++ fs)))
    (hclosed : ∀ o ∈ st.closed, o ∉ (s.channels c).closed →
      ∃ l, Written c o l ∧ log EventData.outputIndex? o.outputIndex (es ++ fs) = l ++ c.closing o) :
    Logs s' (es ++ fs) tcs where
  shelved := hshelved
  opened c' o ho := by
    rw [hchannels] at ho
    by_cases hc : c' = c
    · subst hc
      rw [Function.update_self] at ho
      exact hopened o ho
    · rw [Function.update_of_ne hc] at ho
      rw [hothers _ _ (number_opened ho) fun heq => hc (Writer.item.inj heq).1]
      exact h.opened c' o ho
  closed c' o ho := by
    rw [hchannels] at ho
    by_cases hold : o ∈ (s.channels c').closed
    · obtain ⟨n, hn, hnumber⟩ := number_closed hold
      rw [hothers _ _ hnumber fun heq => by
        obtain ⟨rfl, rfl⟩ := Writer.item.inj heq
        exact absurd hn (Nat.lt_irrefl _)]
      exact h.closed c' o hold
    · by_cases hc : c' = c
      · subst hc
        rw [Function.update_self] at ho
        exact hclosed o ho hold
      · rw [Function.update_of_ne hc] at ho
        exact absurd ho hold
  calls key t ht := by
    rw [hcalls] at ht
    rw [hothers _ _ (number_call ht) (by simp), hreply]
    exact h.calls key t ht

theorem Logs.call {tc : Value} {t : ToolCallState} (h : Logs s es tcs)
    (hchannels : s'.channels = s.channels)
    (hcalls : ∀ key, s'.toolCalls.get? key =
      if key = callIndex tc then some t else s.toolCalls.get? key)
    (hreply : s'.reply = s.reply)
    (hshelved : Shelved EventData.outputIndex? s'.number s'.nextOutputIndex (es ++ fs))
    (hothers : ∀ k j, s.number k = some j → k ≠ .call (callIndex tc) →
      log EventData.outputIndex? j (es ++ fs) = log EventData.outputIndex? j es)
    (hafter : ∃ itemUuid, ToolCallState.After s.reply itemUuid t.outputIndex
      (fragmentsOf (callIndex tc) tcs ++ [tc])
      (log EventData.outputIndex? t.outputIndex (es ++ fs)) t) :
    Logs s' (es ++ fs) (tcs ++ [tc]) where
  shelved := hshelved
  opened c o ho := by
    rw [hchannels] at ho
    rw [hothers _ _ (number_opened ho) (by simp)]
    exact h.opened c o ho
  closed c o ho := by
    rw [hchannels] at ho
    obtain ⟨n, -, hnumber⟩ := number_closed ho
    rw [hothers _ _ hnumber (by simp)]
    exact h.closed c o ho
  calls key t' ht' := by
    rw [hcalls] at ht'
    split at ht'
    · next hkey =>
      cases ht'
      rw [hkey, hreply, fragmentsOf_concat_self]
      exact hafter
    · next hkey =>
      rw [hothers _ _ (number_call ht') (by simpa using hkey), hreply, fragmentsOf_concat_ne hkey]
      exact h.calls key t' ht'

/-! ### The steps on a channel -/

theorem number_eq (hchannels : ∀ c, (s'.channels c).items.map (·.outputIndex) =
      (s.channels c).items.map (·.outputIndex))
    (hcalls : ∀ key, (s'.toolCalls.get? key).map (·.outputIndex) = (s.toolCalls.get? key).map
      (·.outputIndex)) :
    s'.number = s.number := by
  funext k
  cases k with
  | item c n => rw [number, number, ← List.getElem?_map, ← List.getElem?_map, hchannels]
  | call key => exact hcalls key

theorem setChannel_channels (s : ResponsesSseEncoder) (c : Channel) (st : ChannelState) :
    (s.setChannel c st).channels = Function.update s.channels c st := rfl

theorem openItem_channels (s : ResponsesSseEncoder) (uuid : Nat → String) (c : Channel) :
    (s.openItem uuid c).2.channels = Function.update s.channels c
      ⟨some ⟨c.idPrefix ++ "_" ++ uuid s.minted, s.nextOutputIndex, ""⟩, (s.channels c).closed⟩ :=
  rfl

theorem number_setChannel (s : ResponsesSseEncoder) (c : Channel) (st : ChannelState)
    (h : st.items.map (·.outputIndex) = (s.channels c).items.map (·.outputIndex)) :
    (s.setChannel c st).number = s.number := by
  refine number_eq (fun c' => ?_) fun _ => rfl
  by_cases hc : c' = c
  · subst hc
    rw [setChannel_channels, Function.update_self, h]
  · rw [setChannel_channels, Function.update_of_ne hc]

theorem Logs.openItem {c : Channel} (h : Logs s es tcs) (hopen : (s.channels c).opened = none)
    (uuid : Nat → String) : Logs (s.openItem uuid c).2 (es ++ (s.openItem uuid c).1) tcs := by
  have hitems : (s.channels c).items = (s.channels c).closed := by simp [ChannelState.items, hopen]
  have hfree : s.number (.item c (s.channels c).closed.length) = none := by
    simp [number, hitems]
  have hnumber : (s.openItem uuid c).2.number =
      Function.update s.number (.item c (s.channels c).closed.length) (some s.nextOutputIndex) := by
    funext k
    by_cases hk : k = .item c (s.channels c).closed.length
    · subst hk
      rw [Function.update_self]
      simp [number, openItem_channels, ChannelState.items]
    · rw [Function.update_of_ne hk]
      cases k with
      | call key => rfl
      | item c' n =>
        by_cases hc : c' = c
        · subst hc
          have hn : n ≠ (s.channels c').closed.length := fun heq => hk (by rw [heq])
          simp only [number, openItem_channels, Function.update_self, ChannelState.items, hopen,
            Option.toList_some, Option.toList_none, List.append_nil]
          rcases Nat.lt_or_gt_of_ne hn with hlt | hgt
          · rw [List.getElem?_append_left hlt]
          · rw [List.getElem?_eq_none (by simp; omega), List.getElem?_eq_none (by omega)]
        · simp [number, openItem_channels, Function.update_of_ne hc]
  have hindex : ∀ e ∈ (s.openItem uuid c).1, e.outputIndex? = some s.nextOutputIndex := by
    intro e he
    simp only [ResponsesSseEncoder.openItem, Channel.opening, List.mem_cons,
      List.not_mem_nil, or_false] at he
    rcases he with rfl | rfl <;> rfl
  have htake := h.shelved.take hfree
  rw [← hnumber] at htake
  have hself : (s.openItem uuid c).2.number (.item c (s.channels c).closed.length) =
      some s.nextOutputIndex := by
    rw [hnumber, Function.update_self]
  refine h.channel (c := c) rfl rfl rfl (htake.write hself hindex) ?_ ?_ ?_
  · intro k j hk hne
    refine htake.log_write_ne hself ?_ hne hindex
    rw [hnumber, Function.update_of_ne hne]
    exact hk
  · intro o ho
    cases ho
    refine ⟨[], rfl, ?_⟩
    rw [log_append_self _ hindex, h.shelved.log_next]
    simp [ResponsesSseEncoder.openItem]
  · intro o ho hnot
    exact absurd ho hnot

theorem Logs.appendText {c : Channel} (h : Logs s es tcs) (text : String) :
    Logs (s.appendText c text).2 (es ++ (s.appendText c text).1) tcs := by
  unfold ResponsesSseEncoder.appendText
  cases hopen : (s.channels c).opened with
  | none => simpa using h
  | some o =>
    have hself := number_opened hopen
    have hindex : ∀ e ∈ [EventData.delta (.channel c) o.itemId o.outputIndex text],
        e.outputIndex? = some o.outputIndex := by simp [EventData.outputIndex?]
    have hnumber := number_setChannel s c
      ⟨some { o with text := o.text ++ text }, (s.channels c).closed⟩
        (by simp [ChannelState.items, hopen])
    refine h.channel (c := c) rfl rfl rfl ?_ ?_ ?_ ?_
    · rw [hnumber]
      exact h.shelved.write hself hindex
    · intro k j hk hne
      exact h.shelved.log_write_ne hself hk hne hindex
    · intro o' ho'
      cases ho'
      obtain ⟨ds, hds, hlog⟩ := h.opened c o hopen
      refine ⟨ds ++ [text], by simp [hds], ?_⟩
      rw [log_append_self _ hindex, hlog]
      simp
    · intro o' ho' hnot
      exact absurd ho' hnot

theorem Logs.closeChannel (h : Logs s es tcs) (c : Channel) :
    Logs (s.closeChannel c).2 (es ++ (s.closeChannel c).1) tcs := by
  unfold ResponsesSseEncoder.closeChannel
  cases hopen : (s.channels c).opened with
  | none => simpa using h
  | some o =>
    have hself := number_opened hopen
    have hindex : ∀ e ∈ c.closing o, e.outputIndex? = some o.outputIndex := by
      simp [Channel.closing, EventData.outputIndex?]
    have hnumber := number_setChannel s c ⟨none, (s.channels c).closed ++ [o]⟩
      (by simp [ChannelState.items, hopen])
    refine h.channel (c := c) rfl rfl rfl ?_ ?_ ?_ ?_
    · rw [hnumber]
      exact h.shelved.write hself hindex
    · intro k j hk hne
      exact h.shelved.log_write_ne hself hk hne hindex
    · intro o' ho'
      cases ho'
    · intro o' ho' hnot
      obtain rfl : o' = o := by simpa [hnot] using ho'
      exact ⟨_, h.opened c o' hopen, log_append_self _ hindex⟩

/-! ### The steps on a call -/

theorem Heard.insert {tc : Value} {t : ToolCallState} (h : Heard s tcs)
    (hcalls : ∀ key, s'.toolCalls.get? key =
      if key = callIndex tc then some t else s.toolCalls.get? key) :
    Heard s' (tcs ++ [tc]) := by
  intro key
  rw [hcalls]
  by_cases hkey : key = callIndex tc
  · subst hkey
    simp [fragmentsOf_concat_self]
  · rw [if_neg hkey, fragmentsOf_concat_ne hkey]
    exact h key

theorem Logs.readFragment {tc : Value} {t : ToolCallState} (h : Logs s es tcs)
    (ht : s.toolCalls.get? (callIndex tc) = some t) :
    Logs (s.readFragment tc).2 (es ++ (s.readFragment tc).1) (tcs ++ [tc]) := by
  obtain ⟨itemUuid, hafter⟩ := h.calls _ t ht
  have hread := hafter.read tc
  have hindex : ∀ e ∈ (t.read s.reply tc).1, e.outputIndex? = some t.outputIndex := by
    intro e he
    rw [← hread.outputIndex]
    exact hread.outputIndex?_evs e (List.mem_append_right _ he)
  have hself := number_call ht
  have hcalls : ∀ key, (s.toolCalls.insert (callIndex tc) (t.read s.reply tc).2).get? key =
      if key = callIndex tc then some (t.read s.reply tc).2 else s.toolCalls.get? key :=
    fun key => SortedMap.get?_insert _ _ _ _
  have hnumber : ({ s with toolCalls := s.toolCalls.insert (callIndex tc) (t.read s.reply tc).2 } :
      ResponsesSseEncoder).number = s.number := by
    refine number_eq (fun _ => rfl) fun key => ?_
    rw [hcalls]
    split
    · next hkey =>
      rw [hkey, ht, Option.map_some, hread.outputIndex]
      rfl
    · rfl
  rw [ResponsesSseEncoder.readFragment, ht]
  refine h.call rfl hcalls rfl ?_ ?_ ⟨itemUuid, ?_⟩
  · rw [hnumber]
    exact h.shelved.write hself hindex
  · intro k j hk hne
    exact h.shelved.log_write_ne hself hk hne hindex
  · rw [hread.outputIndex, log_append_self _ hindex]
    exact hread

theorem Logs.openCall {key : Nat} (h : Logs s es tcs) (hheard : Heard s tcs)
    (hkey : s.toolCalls.get? key = none) (uuid : Nat → String) :
    Logs (s.openCall uuid key) es tcs := by
  have hfree : s.number (.call key) = none := by simp [number, hkey]
  have hopened : s.openCall uuid key =
      { s with
        toolCalls := s.toolCalls.insert key (.new (uuid s.minted) s.nextOutputIndex)
        minted := s.minted + 1
        nextOutputIndex := s.nextOutputIndex + 1 } := by
    simp only [ResponsesSseEncoder.openCall, hkey]
  have hcalls :
      ∀ key', (s.toolCalls.insert key (.new (uuid s.minted) s.nextOutputIndex)).get? key' =
      if key' = key then some (.new (uuid s.minted) s.nextOutputIndex) else s.toolCalls.get? key' :=
    fun key' => SortedMap.get?_insert _ _ _ _
  rw [hopened]
  have htake := h.shelved.take hfree
  refine ⟨?_, h.opened, h.closed, ?_⟩
  · convert htake using 1
    funext k
    cases k with
    | item c n => rfl
    | call key' =>
      by_cases hk : key' = key
      · subst hk
        rw [Function.update_self, number, hcalls, if_pos rfl]
        rfl
      · rw [Function.update_of_ne (by simpa using hk), number, hcalls, if_neg hk]
        rfl
  · intro key' t ht
    rw [hcalls] at ht
    split at ht
    · next hk =>
      cases ht
      refine ⟨uuid s.minted, ?_⟩
      have hlog : log EventData.outputIndex? s.nextOutputIndex es = [] := h.shelved.log_next
      rw [hk, (hheard key).mp hkey]
      simp only [ToolCallState.new, hlog]
      exact ToolCallState.after_new _ _ _
    · exact h.calls key' t ht

theorem openCall_known {key : Nat} {t : ToolCallState} (h : s.toolCalls.get? key = some t)
    (uuid : Nat → String) : s.openCall uuid key = s := by
  simp only [openCall, h]

theorem Logs.readToolCall (h : Logs s es tcs) (hheard : Heard s tcs) (uuid : Nat → String)
    (tc : Value) : Logs ((s.openCall uuid (callIndex tc)).readFragment tc).2
      (es ++ ((s.openCall uuid (callIndex tc)).readFragment tc).1) (tcs ++ [tc]) ∧
    Heard ((s.openCall uuid (callIndex tc)).readFragment tc).2 (tcs ++ [tc]) := by
  have hcall : ∃ t, (s.openCall uuid (callIndex tc)).toolCalls.get? (callIndex tc) = some t ∧
      Logs (s.openCall uuid (callIndex tc)) es tcs ∧
      ∀ key, key ≠ callIndex tc → (s.openCall uuid (callIndex tc)).toolCalls.get? key =
        s.toolCalls.get? key := by
    cases hget : s.toolCalls.get? (callIndex tc) with
    | some t =>
      rw [openCall_known hget]
      exact ⟨t, hget, h, fun _ _ => rfl⟩
    | none =>
      refine ⟨.new (uuid s.minted) s.nextOutputIndex, ?_, h.openCall hheard hget uuid,
        fun key hkey => ?_⟩
      · simp only [ResponsesSseEncoder.openCall, hget, SortedMap.get?_insert_self]
      · simp only [ResponsesSseEncoder.openCall, hget, SortedMap.get?_insert_ne hkey]
  obtain ⟨t, hget, hlogs, hsame⟩ := hcall
  refine ⟨hlogs.readFragment hget,
    hheard.insert (t := (t.read (s.openCall uuid (callIndex tc)).reply tc).2) ?_⟩
  intro key
  simp only [ResponsesSseEncoder.readFragment, hget, SortedMap.get?_insert]
  split
  · rfl
  · next hkey => exact hsame key hkey

end ResponsesSseEncoder

end Responses
end Aisix
