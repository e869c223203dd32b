import Aisix.Responses.Turns

/-!
# Aisix.Responses.Settle

The second pass, which moves reasoning onto the turn that follows it. The messages are turns that
say what the items do, once and in order (`kept_chatMessages`).
-/

namespace Aisix
namespace Responses
namespace History

open Json ChatMerge Anthropic

variable (F : FloatText)

/-! ### What is said has content -/

theorem intercalate_cons_ne {t : String} (ht : t ≠ "") (ts : List String) :
    "\n".intercalate (t :: ts) ≠ "" := by
  induction ts generalizing t with
  | nil => exact ht
  | cons t' ts ih =>
    have hjoin : "\n".intercalate (t :: t' :: ts) = "\n".intercalate ((t ++ "\n" ++ t') :: ts) :=
      rfl
    rw [hjoin]
    refine ih fun h => ht ?_
    rw [String.append_eq_empty_iff, String.append_eq_empty_iff] at h
    exact h.1.1

theorem partsText_ne {skipOpaque : Bool} {parts : Value} {t : String}
    (h : partsText skipOpaque parts = some t) : t ≠ "" := by
  unfold partsText at h
  cases parts with
  | array parts =>
    dsimp only at h
    split at h
    · cases h
    · next hne =>
      cases h
      cases htexts : ((parts.filter fun p => !skipOpaque || !isOpaque p).filterMap fun p =>
          (strField p "text").map fun t => String.ofList (Sse.trim t.toList)).filter (· ≠ "") with
      | nil => rw [htexts] at hne; exact absurd rfl hne
      | cons t ts =>
        have ht : t ∈ t :: ts := List.mem_cons_self
        rw [← htexts, List.mem_filter] at ht
        exact intercalate_cons_ne (of_decide_eq_true ht.2) ts
  | _ => cases h

theorem replayedReasoningText_ne {item : Value} {t : String}
    (h : replayedReasoningText item = some t) : t ≠ "" := by
  unfold replayedReasoningText at h
  rcases Option.or_eq_some_iff.1 h with h | ⟨-, h⟩
  all_goals
    obtain ⟨parts, -, hparts⟩ := Option.bind_eq_some_iff.1 h
    exact partsText_ne hparts

theorem isReasoningPart_media {part block : Value} (h : partContent part = some (.media block)) :
    isReasoningPart block = false := by
  have himage : ∀ part block, inputImageBlock part = some block →
      isReasoningPart block = false := by
    intro part block h
    obtain ⟨url, -, rfl⟩ := Option.map_eq_some_iff.1 h
    rfl
  have hfile : ∀ part block, inputFileBlock part = some block → isReasoningPart block = false := by
    intro part block h
    unfold inputFileBlock at h
    dsimp only at h
    split at h
    · cases h
    · cases h
      rfl
  have haudio : ∀ part block, inputAudioBlock part = some block →
      isReasoningPart block = false := by
    intro part block h
    unfold inputAudioBlock at h
    dsimp only at h
    split at h
    · cases h
    · cases h
      rfl
  unfold partContent at h
  split at h
  · cases h
  · split at h
    · obtain ⟨block', hblock, heq⟩ := Option.map_eq_some_iff.1 h
      cases heq
      exact himage _ _ hblock
    · obtain ⟨block', hblock, heq⟩ := Option.map_eq_some_iff.1 h
      cases heq
      exact hfile _ _ hblock
    · obtain ⟨block', hblock, heq⟩ := Option.map_eq_some_iff.1 h
      cases heq
      exact haudio _ _ hblock
    · obtain ⟨t, -, heq⟩ := Option.map_eq_some_iff.1 h
      cases heq

theorem telling_content {v : Value} (h : (responsesContentToChat v).isEmpty = false) :
    (Event.spoke (responsesContentToChat v)).Telling := by
  by_cases htext : (responsesContentToChat v).text = ""
  · cases v with
    | array parts =>
      unfold responsesContentToChat ChatContent.isEmpty at h
      unfold responsesContentToChat at htext ⊢
      dsimp only at h htext ⊢
      by_cases hmedia : (parts.filterMap partContent).any PartContent.isMedia = true
      · refine .inr ⟨_, if_pos hmedia, ?_⟩
        obtain ⟨c, hc, hcm⟩ := List.any_eq_true.1 hmedia
        cases c with
        | text t => cases hcm
        | media block =>
          obtain ⟨part, -, hpart⟩ := List.mem_filterMap.1 hc
          exact List.all_eq_false.2 ⟨block, List.mem_map_of_mem (f := PartContent.block) hc,
            by rw [isReasoningPart_media hpart]; exact Bool.false_ne_true⟩
      · rw [htext, if_neg hmedia] at h
        cases h
    | string s =>
      obtain rfl : s = "" := htext
      cases h
    | _ => cases h
  · exact .inl htext

theorem telling_eventOf {item : Value} {e : Event} (h : eventOf F item = some e) : e.Telling := by
  have hmessage : ∀ (role : Role) (c : ChatContent), (Event.spoke c).Telling →
      (messageEvent role c).Telling := by
    intro role c hc
    cases role <;> first | exact hc | trivial
  unfold eventOf at h
  split at h
  · split at h
    · cases h
    · cases h
      trivial
  · split at h
    · cases h
      trivial
    · cases htype : itemType item with
      | output =>
        rw [htype] at h
        cases h
        trivial
      | reasoning =>
        rw [htype] at h
        obtain ⟨t, ht, rfl⟩ := Option.map_eq_some_iff.1 h
        exact replayedReasoningText_ne ht
      | message =>
        rw [htype] at h
        cases hcontent : item.get "content" with
        | none =>
          rw [hcontent] at h
          cases h
        | some v =>
          rw [hcontent] at h
          dsimp only [Option.map_some, Option.getD_some] at h
          split at h
          · cases h
          · next hne =>
            cases h
            exact hmessage _ _ (telling_content (Bool.eq_false_iff.2 hne))

theorem telling_eventsOf (items : List Value) : ∀ e ∈ eventsOf F items, e.Telling := by
  intro e he
  obtain ⟨item, -, hitem⟩ := List.mem_filterMap.1 he
  exact telling_eventOf F hitem

/-! ### The second pass -/

/-- Reasoning that is alone waits for the assistant's next turn. -/
def settle (pending : List String) : List Turn → List Turn
  | [] => pending.map .alone
  | .alone t :: turns => settle (pending ++ [t]) turns
  | .spoke ts c calls :: turns => .spoke (pending ++ ts) c calls :: settle [] turns
  | .said who c :: turns => pending.map .alone ++ .said who c :: settle [] turns
  | .answered id output :: turns => pending.map .alone ++ .answered id output :: settle [] turns

theorem isReasoningOnly_alone {t : String} (ht : t ≠ "") :
    ((Turn.alone t).message none).isReasoningOnly = true := by
  have htext : ((Turn.alone t).message none).reasoningText = some t := by
    have hlookup : ((Turn.alone t).message none).extra.lookup "reasoning_content" =
        some (.string t) := rfl
    unfold ChatMessage.reasoningText
    have hfilter : Option.filter (fun s : String => decide (s ≠ "")) (some t) = some t := by
      simp [ht]
    rw [hlookup, Option.bind_some, Value.asStr?, hfilter]
  unfold ChatMessage.isReasoningOnly
  rw [htext]
  rfl

theorem messageCalls_spoke (standing : Option String) (ts : List String) (c : Option ChatContent)
    (calls : List Value) : messageCalls ((Turn.spoke ts c calls).message standing) = calls := by
  unfold messageCalls Turn.message
  dsimp only
  rw [lookup_callsMember]
  cases calls <;> rfl

theorem isReasoningOnly_spoke {ts : List String} {c : Option ChatContent} {calls : List Value}
    (hspeaks : (Turn.spoke ts c calls).Speaks) (htelling : ∀ c' ∈ c, (Event.spoke c').Telling) :
    ((Turn.spoke ts c calls).message none).isReasoningOnly = false := by
  unfold ChatMessage.isReasoningOnly
  rw [messageCalls_spoke]
  cases calls with
  | cons tc calls => simp
  | nil =>
    cases c with
    | none => exact absurd rfl (hspeaks.resolve_right fun h => h rfl)
    | some c =>
      have hcontent : ((Turn.spoke ts (some c) []).message none).contentStr = c.text :=
        contentStr_intoMessage c .assistant
      have hblocks : ((Turn.spoke ts (some c) []).message none).contentBlocks = c.blocks :=
        contentBlocks_intoMessage c .assistant
      rw [hcontent, hblocks]
      rcases htelling c rfl with htext | ⟨blocks, hblocks', hall⟩
      · simp [htext]
      · rw [hblocks', Option.getD_some, hall]
        simp

theorem setMember_thoughts (calls : List Value) (ts : List String) (v : Value) :
    setMember REASONING_CONTENT v (callsMember calls ++ thoughtsMember ts) = callsMember calls ++
      [(REASONING_CONTENT, v)] := by
  cases calls <;> cases ts <;> rfl

theorem takeReasoning_spoke {pending : List String} (hpending : pending ≠ []) {o : Option String}
    (ho : ∀ t ∈ o, t ≠ "")
    (c : Option ChatContent) (calls : List Value) :
    takeReasoning pending ((Turn.spoke o.toList c calls).message none) =
      (Turn.spoke (pending ++ o.toList) c calls).message (some "") := by
  have hexisting :
      ((((Turn.spoke o.toList c calls).message none).extra.lookup REASONING_CONTENT).bind
      Value.asStr?).filter (· ≠ "") = o := by
    unfold Turn.message
    dsimp only
    rw [lookup_thoughtsMember]
    cases o with
    | none => rfl
    | some t =>
      simp [Value.asStr?, ho t rfl]
  unfold takeReasoning
  dsimp only
  rw [hexisting]
  unfold Turn.message
  dsimp only
  rw [setMember_thoughts]
  unfold thoughtsMember
  rw [if_neg (by simp [hpending])]

theorem attachFrom_messages {turns : List Turn} (hspeaks : ∀ t ∈ turns, t.Speaks)
    (hsingle : ∀ ts c calls, .spoke ts c calls ∈ turns → ∃ o : Option String, ts = o.toList)
    (htelling : ∀ e ∈ turns.flatMap Turn.events, e.Telling) (pending : List String) :
    attachFrom pending (turns.map (Turn.message none)) = (settle pending turns).map
      (Turn.message (some "")) := by
  have hflush : ∀ pending : List String,
      flushStandalone pending = (pending.map Turn.alone).map
      (Turn.message (some "")) := by
    intro pending
    rw [List.map_map]
    rfl
  induction turns generalizing pending with
  | nil => exact hflush pending
  | cons t turns ih =>
    have hrest := ih (fun t' ht' => hspeaks t' (List.mem_cons_of_mem _ ht'))
      (fun ts c calls ht' => hsingle ts c calls (List.mem_cons_of_mem _ ht'))
      (fun e he => htelling e (by rw [List.flatMap_cons]; exact List.mem_append_right _ he))
    have hevents : ∀ e ∈ t.events, e.Telling := fun e he =>
      htelling e (by rw [List.flatMap_cons]; exact List.mem_append_left _ he)
    -- a turn that is not the assistant's
    have hother : ∀ t : Turn, (t.message none).role ≠ .assistant →
        t.message none = t.message (some "") →
        attachFrom pending (t.message none :: turns.map (Turn.message none)) =
          (pending.map Turn.alone ++ t :: settle [] turns).map (Turn.message (some "")) := by
      intro t hrole hstanding
      rw [attachFrom, ChatMessage.isReasoningOnly_of_ne hrole, if_neg Bool.false_ne_true,
        if_neg hrole, hrest, hflush, List.map_append, List.map_cons, hstanding]
      cases pending <;> rfl
    rw [List.map_cons]
    cases t with
    | said who c =>
      refine hother (.said who c) ?_ rfl
      rw [Turn.message, role_intoMessage]
      cases who <;> decide
    | answered id output => exact hother (.answered id output) (fun h => by cases h) rfl
    | alone t =>
      have ht : t ≠ "" := hevents (.thought t) List.mem_cons_self
      rw [attachFrom, isReasoningOnly_alone ht, if_pos rfl]
      exact hrest (pending ++ [t])
    | spoke ts c calls =>
      obtain ⟨o, rfl⟩ := hsingle ts c calls List.mem_cons_self
      have hcontent : ∀ c' ∈ c, (Event.spoke c').Telling := fun c' hc' => hevents (.spoke c') (by
        rw [Option.mem_def.1 hc']
        simp [Turn.events])
      have hthoughts : ∀ t ∈ o, t ≠ "" := fun t ht => hevents (.thought t) (by
        rw [Option.mem_def.1 ht]
        simp [Turn.events])
      rw [attachFrom, isReasoningOnly_spoke (hspeaks _ List.mem_cons_self) hcontent,
        if_neg Bool.false_ne_true, settle, List.map_cons, hrest, role_spoke, if_pos rfl]
      cases pending with
      | nil => rfl
      | cons p pending =>
        rw [takeReasoning_spoke (List.cons_ne_nil p pending) hthoughts]
        rfl

theorem events_settle (pending : List String) (turns : List Turn) :
    (settle pending turns).flatMap Turn.events = pending.map .thought ++
    turns.flatMap Turn.events := by
  have hpending : ∀ pending : List String, (pending.map Turn.alone).flatMap Turn.events =
      pending.map .thought := by
    intro pending
    rw [List.flatMap_map]
    induction pending with
    | nil => rfl
    | cons t pending ih => rw [List.flatMap_cons, ih, List.map_cons]; rfl
  induction pending, turns using settle.induct with
  | case1 pending => rw [settle, hpending, List.flatMap_nil, List.append_nil]
  | case2 pending t turns ih =>
    rw [settle, ih, List.map_append, List.append_assoc, List.flatMap_cons]
    rfl
  | case3 pending ts c calls turns ih =>
    rw [settle, List.flatMap_cons, ih, List.flatMap_cons, Turn.events, Turn.events, List.map_append]
    simp only [List.map_nil, List.nil_append, List.append_assoc]
  | case4 pending who c turns ih =>
    rw [settle, List.flatMap_append, hpending, List.flatMap_cons, ih, List.flatMap_cons]
    rfl
  | case5 pending id output turns ih =>
    rw [settle, List.flatMap_append, hpending, List.flatMap_cons, ih, List.flatMap_cons]
    rfl

theorem speaks_settle (pending : List String) {turns : List Turn} (h : ∀ t ∈ turns, t.Speaks) :
    ∀ t ∈ settle pending turns, t.Speaks := by
  have hpending : ∀ (pending : List String), ∀ t ∈ pending.map Turn.alone, t.Speaks := by
    intro pending t ht
    obtain ⟨thought, -, rfl⟩ := List.mem_map.1 ht
    trivial
  induction pending, turns using settle.induct with
  | case1 pending => exact hpending pending
  | case2 pending t turns ih => exact ih fun t' ht' => h t' (List.mem_cons_of_mem _ ht')
  | case3 pending ts c calls turns ih =>
    exact List.forall_mem_cons.2 ⟨h (.spoke ts c calls) List.mem_cons_self,
      ih fun t' ht' => h t' (List.mem_cons_of_mem _ ht')⟩
  | case4 pending who c turns ih =>
    refine List.forall_mem_append.2
      ⟨hpending pending, List.forall_mem_cons.2 ⟨trivial, ih fun t' ht' => ?_⟩⟩
    exact h t' (List.mem_cons_of_mem _ ht')
  | case5 pending id output turns ih =>
    refine List.forall_mem_append.2
      ⟨hpending pending, List.forall_mem_cons.2 ⟨trivial, ih fun t' ht' => ?_⟩⟩
    exact h t' (List.mem_cons_of_mem _ ht')

theorem head_settle {pending : List String} {turns : List Turn} :
    ∀ t ∈ (settle pending turns).head?, t.Headless → pending = [] ∧ t ∈ turns.head? := by
  have hpending : ∀ (pending : List String) (t' : Turn) (rest : List Turn), ¬ t'.Headless →
      ∀ t ∈ (pending.map Turn.alone ++ t' :: rest).head?, ¬ t.Headless := by
    intro pending t' rest h t ht
    cases pending with
    | nil => exact Option.some.inj ht ▸ h
    | cons p pending => exact Option.some.inj ht ▸ id
  intro t ht hheadless
  induction pending, turns using settle.induct with
  | case1 pending =>
    cases pending with
    | nil => cases ht
    | cons p pending =>
      obtain rfl := Option.some.inj ht
      cases hheadless
  | case2 pending t' turns ih => exact absurd (ih ht).1 (by simp)
  | case3 pending ts c calls turns ih =>
    obtain rfl := Option.some.inj ht
    cases pending with
    | nil => exact ⟨rfl, rfl⟩
    | cons p pending => cases hheadless
  | case4 pending who c turns ih => exact absurd hheadless (hpending pending _ _ id t ht)
  | case5 pending id' output turns ih => exact absurd hheadless (hpending pending _ _ id t ht)

theorem follows_of_notAssistant {t : Turn} (h : ¬ t.IsAssistant) (t' : Turn) : Follows t t' :=
  ⟨fun ha => absurd ha h, fun _ ht => absurd (ht ▸ trivial) h⟩

theorem follows_of_ne (t : Turn) {t' : Turn} (h : ∀ ts c calls, t' ≠ .spoke ts c calls) :
    Follows t t' := by
  refine ⟨fun _ hheadless => ?_, fun _ _ => h⟩
  cases t' with
  | spoke ts c calls => exact h ts c calls rfl
  | _ => exact hheadless

theorem follows_settle (pending : List String) {turns : List Turn}
    (h : turns.IsChain fun t t' => t.IsAssistant → ¬ t'.Headless) :
    (settle pending turns).IsChain Follows := by
  have hpending : ∀ (pending : List String) (t : Turn) (rest : List Turn),
      (∀ ts c calls, t ≠ .spoke ts c calls) → (t :: rest).IsChain Follows →
      (pending.map Turn.alone ++ t :: rest).IsChain Follows := by
    intro pending t rest ht hrest
    induction pending with
    | nil => exact hrest
    | cons p pending ih =>
      refine ih.cons fun t' ht' => follows_of_ne _ ?_
      cases pending with
      | nil => exact Option.some.inj ht' ▸ ht
      | cons p' pending => exact Option.some.inj ht' ▸ fun _ _ _ h => by cases h
  induction pending, turns using settle.induct with
  | case1 pending =>
    induction pending with
    | nil => exact .nil
    | cons p pending ih =>
      refine ih.cons fun t' ht' => follows_of_ne _ ?_
      cases pending with
      | nil => cases ht'
      | cons p' pending => exact Option.some.inj ht' ▸ fun _ _ _ h => by cases h
  | case2 pending t turns ih => exact ih h.tail
  | case3 pending ts c calls turns ih =>
    refine (ih h.tail).cons fun t ht => ⟨fun _ hheadless => ?_, fun _ h => by cases h⟩
    exact h.rel_head? (head_settle t ht hheadless).2 trivial hheadless
  | case4 pending who c turns ih =>
    exact hpending pending _ _ (fun _ _ _ h => by cases h)
      ((ih h.tail).cons fun t _ => follows_of_notAssistant id t)
  | case5 pending id' output turns ih =>
    exact hpending pending _ _ (fun _ _ _ h => by cases h)
      ((ih h.tail).cons fun t _ => follows_of_notAssistant id t)

/-- What holds of the turns a history is told in. -/
structure Kept (items : List Value) (turns : List Turn) : Prop where
  messages : chatMessages F items = turns.map (Turn.message (some ""))
  events : turns.flatMap Turn.events = eventsOf F items
  follows : turns.IsChain Follows
  speaks : ∀ t ∈ turns, t.Speaks

/-- Every history is told in turns: whatever the items say, once and in order. -/
theorem kept_chatMessages (items : List Value) : ∃ turns, Kept F items turns := by
  have htold : Told ((eventsOf F items).foldl tell []) := told_foldl _ .nil
  have hevents : ((eventsOf F items).foldl tell []).flatMap Turn.events = eventsOf F items :=
    events_foldl _ []
  refine ⟨settle [] ((eventsOf F items).foldl tell []), ?_, ?_, follows_settle [] htold.headed,
    speaks_settle [] htold.speaks⟩
  · have htelling := telling_eventsOf F items
    rw [← hevents] at htelling
    have hfirst : items.foldl (appendInputItem F) [] = _ := foldl_appendInputItem F items []
    unfold chatMessages attachReplayedReasoning
    rw [hfirst]
    exact attachFrom_messages htold.speaks htold.single htelling []
  · rw [events_settle, hevents]
    rfl

end History
end Responses
end Aisix
