import Aisix.Past
import Aisix.Responses.Settle

/-!
# Aisix.Responses.Adjoining

When a tool's result follows its call: each output of the input needs a call of its id in its turn
that no readable reasoning parts from the outputs (`faithful_iff_unparted`).
-/

namespace Aisix
namespace Responses
namespace History

open Json Anthropic

/-! ### Messages, items, events -/

/-- An assistant message that holds a call of this id. -/
def Holds (id : Option String) (m : ChatMessage) : Prop :=
  m.role = .assistant ∧ ∃ tc ∈ messageCalls m, some (callId tc) = id

/-- Between a result and the message that holds its call are results only. -/
def Adjoins (messages : List ChatMessage) : Prop :=
  ∀ pre m post, messages = pre ++ m :: post → m.role = .tool →
    Past (·.role = .tool) (EndsIn (Holds m.toolCallId)) pre

/-- The results are said after calls of their turn; no reasoning is said between. -/
def Unparted (events : List Event) : Prop :=
  ∀ pre id output post, events = pre ++ .answered id output :: post →
    Past Event.IsAnswer (Past Event.IsCall (EndsIn (Event.Calls id))) pre

def outputId (item : Value) : String := (strField item "call_id").getD ""

section Items

variable (F : FloatText)

/-- What may stand among a turn's calls. -/
def InTurn (item : Value) : Prop := (replayedCall F item).isSome ∨ itemType item = .reasoning

def CallsFor (id : String) (item : Value) : Prop :=
  ∃ tc, replayedCall F item = some tc ∧ callId tc = id

/-- Each turn's calls, and the reasoning among them, come first and its outputs follow. -/
def Orderly (items : List Value) : Prop :=
  ∀ pre item post, items = pre ++ item :: post → itemType item = .output →
    Past (itemType · = .output) (Past (InTurn F) (EndsIn (CallsFor F (outputId item)))) pre

/-- Nothing is lost, and the results of an orderly input adjoin their calls. -/
def Faithful (items : List Value) : Prop :=
  (∃ turns, Kept F items turns) ∧ (Orderly F items → Adjoins (chatMessages F items))

end Items

/-! ### A turn's calls -/

theorem holds_message (standing : Option String) (id : String) (t : Turn) :
    Holds (some id) (t.message standing) ↔ t.Holds id := by
  cases t with
  | said who c =>
    refine ⟨fun h => ?_, False.elim⟩
    have hrole : who.role = .assistant := (role_intoMessage c who.role).symm.trans h.1
    cases who <;> cases hrole
  | answered id' output => exact ⟨fun h => (by cases h.1), False.elim⟩
  | alone t => exact ⟨fun h => absurd h.2.choose_spec.1 List.not_mem_nil, False.elim⟩
  | spoke ts c calls =>
    unfold Holds Turn.Holds
    rw [messageCalls_spoke, role_spoke]
    simp only [true_and, Option.some.injEq]

theorem role_message_tool (standing : Option String) (t : Turn) :
    (t.message standing).role = .tool ↔ t.IsAnswer := by
  cases t with
  | said who c =>
    refine ⟨fun h => ?_, False.elim⟩
    have hrole : who.role = .tool := (role_intoMessage c who.role).symm.trans h
    cases who <;> cases hrole
  | answered id output => exact ⟨fun _ => trivial, fun _ => rfl⟩
  | alone t => exact ⟨fun h => (by cases h), False.elim⟩
  | spoke ts c calls =>
    rw [role_spoke]
    exact ⟨fun h => (by cases h), False.elim⟩

theorem flatMap_events_eq {turns : List Turn} {pre post : List Event} {id : String}
    {output : ChatContent} (h : turns.flatMap Turn.events = pre ++ .answered id output :: post) :
    ∃ before after, turns = before ++ .answered id output :: after ∧
      before.flatMap Turn.events = pre := by
  induction turns generalizing pre with
  | nil => exact absurd h.symm (by simp)
  | cons t turns ih =>
    rw [List.flatMap_cons, List.append_eq_append_iff] at h
    have hlater : ∀ pre', pre = t.events ++ pre' →
        turns.flatMap Turn.events = pre' ++ .answered id output :: post →
        ∃ before after, t :: turns = before ++ .answered id output :: after ∧
          before.flatMap Turn.events = pre := by
      rintro pre' rfl hrest
      obtain ⟨before, after, rfl, rfl⟩ := ih hrest
      exact ⟨t :: before, after, rfl, List.flatMap_cons⟩
    rcases h with ⟨pre', hpre, hrest⟩ | ⟨own, hown, hrest⟩
    · exact hlater pre' hpre hrest
    · cases own with
      | nil => exact hlater [] (by rw [hown, List.append_nil, List.append_nil]) hrest.symm
      | cons e own =>
        obtain ⟨rfl, -⟩ := List.cons.inj hrest
        have hmem : Event.answered id output ∈ t.events := by
          rw [hown]
          exact List.mem_append_right _ List.mem_cons_self
        cases t with
        | answered id' output' =>
          obtain ⟨rfl, rfl⟩ : id = id' ∧ output = output' := by simpa [Turn.events] using hmem
          have hpre : pre = [] := by
            cases pre with
            | nil => rfl
            | cons e pre =>
              obtain ⟨-, htail⟩ := List.cons.inj hown
              exact absurd htail.symm (by simp)
          exact ⟨[], turns, rfl, hpre.symm⟩
        | said who c => simp [Turn.events] at hmem
        | alone t => simp [Turn.events] at hmem
        | spoke ts c calls => simp [Turn.events] at hmem

theorem not_past_quiet (id : String) (events : List Event) {m : List Event} (hm : m ≠ [])
    (h : ∀ e ∈ m, ¬ e.IsAnswer ∧ ¬ e.IsCall) :
    ¬ Past Event.IsAnswer (Past Event.IsCall (EndsIn (Event.Calls id))) (events ++ m) := by
  rw [past_append_of_neg hm fun e he => (h e he).1]
  refine not_past_endsIn_append hm fun e he => ⟨(h e he).2, fun hcalls => (h e he).2 ?_⟩
  cases e with
  | called tc => trivial
  | _ => exact hcalls

theorem not_past_headless {turns : List Turn} (hlast : ∀ last ∈ turns.getLast?, ¬ last.IsAssistant)
    (id : String) : ¬ Past Event.IsCall (EndsIn (Event.Calls id)) (turns.flatMap Turn.events) := by
  rcases List.eq_nil_or_concat turns with rfl | ⟨rest, last, rfl⟩
  · rw [List.flatMap_nil, past_nil]
    exact not_endsIn_nil
  · rw [List.concat_eq_append] at hlast ⊢
    have hother := hlast last List.getLast?_concat
    rw [List.flatMap_append, List.flatMap_singleton]
    cases last with
    | said who c =>
      exact not_past_endsIn_append (List.cons_ne_nil _ _)
        (by simp [Event.IsCall, Event.Calls, Turn.events])
    | answered id' output =>
      exact not_past_endsIn_append (List.cons_ne_nil _ _)
        (by simp [Event.IsCall, Event.Calls, Turn.events])
    | alone t => exact absurd trivial hother
    | spoke ts c calls => exact absurd trivial hother

theorem past_spoke {turns : List Turn} {ts : List String} {c : Option ChatContent}
    {calls : List Value}
    (hlast : ∀ last ∈ turns.getLast?, last.IsAssistant → ¬ (Turn.spoke ts c calls).Headless)
    (hspeaks : (Turn.spoke ts c calls).Speaks) (id : String) :
    Past Event.IsAnswer (Past Event.IsCall (EndsIn (Event.Calls id)))
      (turns.flatMap Turn.events ++ (Turn.spoke ts c calls).events) ↔
      (Turn.spoke ts c calls).Holds id := by
  have hne : (Turn.spoke ts c calls).events ≠ [] := by
    intro h
    have hparts := List.append_eq_nil_iff.1 h
    obtain ⟨hcontent, hcalls⟩ := List.append_eq_nil_iff.1 hparts.2
    rcases hspeaks with hc | hc
    · cases c with
      | none => exact hc rfl
      | some c => cases hcontent
    · exact hc (List.map_eq_nil_iff.1 hcalls)
  have hbefore : ¬ Past Event.IsCall (EndsIn (Event.Calls id))
      (turns.flatMap Turn.events ++ (ts.map .thought ++ (c.map .spoke).toList)) := by
    by_cases hhead : (ts.map Event.thought ++ (c.map Event.spoke).toList) = []
    · obtain ⟨hts, hc⟩ := List.append_eq_nil_iff.1 hhead
      obtain rfl := List.map_eq_nil_iff.1 hts
      obtain rfl : c = none := by
        cases c with
        | none => rfl
        | some c => cases hc
      rw [hhead, List.append_nil]
      exact not_past_headless (fun last hl ha => hlast last hl ha trivial) id
    · refine not_past_endsIn_append hhead fun e he => ?_
      rcases List.mem_append.1 he with he | he
      · obtain ⟨t, -, rfl⟩ := List.mem_map.1 he
        exact ⟨fun h => h, fun h => h⟩
      · obtain ⟨c', -, rfl⟩ := Option.map_eq_some_iff.1 (Option.mem_toList.1 he)
        exact ⟨fun h => h, fun h => h⟩
  rw [past_append_of_neg hne, Turn.events, ← List.append_assoc (ts.map Event.thought),
    ← List.append_assoc (turns.flatMap _), past_endsIn_append, or_iff_left hbefore]
  · unfold Turn.Holds
    simp [Event.Calls]
  · simp [Event.IsCall]
  · intro e he
    simp only [Turn.events, List.mem_append, List.mem_map, Option.mem_toList,
      Option.map_eq_some_iff] at he
    rcases he with ⟨t, -, rfl⟩ | ⟨c', -, rfl⟩ | ⟨tc, -, rfl⟩
    all_goals exact fun h => h

theorem past_events {turns : List Turn} (hfollows : turns.IsChain Follows)
    (hspeaks : ∀ t ∈ turns, t.Speaks) (id : String) :
    Past Turn.IsAnswer (EndsIn (Turn.Holds id)) turns ↔
      Past Event.IsAnswer (Past Event.IsCall (EndsIn (Event.Calls id)))
        (turns.flatMap Turn.events) := by
  induction turns using List.reverseRecOn with
  | nil =>
    rw [List.flatMap_nil, past_nil, past_nil, past_nil]
    exact iff_of_false not_endsIn_nil not_endsIn_nil
  | append_singleton turns t ih =>
    specialize ih hfollows.left_of_append fun t' ht' => hspeaks t' (List.mem_append_left _ ht')
    rw [List.flatMap_append, List.flatMap_singleton]
    cases t with
    | answered id' output =>
      have hturn : ¬ EndsIn (Turn.Holds id) (turns ++ [.answered id' output]) := by
        rw [endsIn_snoc]
        exact fun h => h
      have hevent :
          ¬ Past Event.IsCall (EndsIn (Event.Calls id))
          (turns.flatMap Turn.events ++ [.answered id' output]) :=
        not_past_endsIn_append (List.cons_ne_nil _ _) (by simp [Event.IsCall, Event.Calls])
      rw [past_snoc_of_pos trivial hturn, ih, Turn.events, past_snoc_of_pos trivial hevent]
    | said who c =>
      rw [past_snoc_of_neg fun h => h, endsIn_snoc]
      exact iff_of_false (fun h => h)
        (not_past_quiet id _ (List.cons_ne_nil _ _)
          (by simp [Event.IsAnswer, Event.IsCall, Turn.events]))
    | alone thought =>
      rw [past_snoc_of_neg fun h => h, endsIn_snoc]
      exact iff_of_false (fun h => h)
        (not_past_quiet id _ (List.cons_ne_nil _ _)
          (by simp [Event.IsAnswer, Event.IsCall, Turn.events]))
    | spoke ts c calls =>
      rw [past_snoc_of_neg fun h => h, endsIn_snoc,
        past_spoke _ (hspeaks _ (List.mem_append_right _ List.mem_cons_self))]
      exact fun last hl => ((List.isChain_append.1 hfollows).2.2 last hl _ rfl).headed

section Claims

variable {F : FloatText}

theorem adjoins_iff {items : List Value} {turns : List Turn} (h : Kept F items turns) :
    Adjoins (chatMessages F items) ↔ Unparted (eventsOf F items) := by
  have hturns : ∀ (id : String) {before after : List Turn}, turns = before ++ after →
      (Past (·.role = .tool) (EndsIn (Holds (some id))) (before.map (Turn.message (some ""))) ↔
        Past Event.IsAnswer (Past Event.IsCall (EndsIn (Event.Calls id)))
          (before.flatMap Turn.events)) := by
    intro id before after hsplit
    have hfollows := h.follows
    rw [hsplit] at hfollows
    have hspeaks : ∀ t ∈ before, t.Speaks :=
      fun t ht => h.speaks t (hsplit ▸ List.mem_append_left _ ht)
    rw [← past_events hfollows.left_of_append hspeaks, past_map]
    refine past_congr (role_message_tool _) fun l => ?_
    rw [endsIn_map]
    exact endsIn_congr (holds_message _ id)
  rw [h.messages, ← h.events]
  constructor
  · intro hadjoins pre id output post hpre
    obtain ⟨before, after, hsplit, rfl⟩ := flatMap_events_eq hpre
    rw [← hturns id hsplit]
    exact hadjoins _ _ (after.map (Turn.message (some "")))
      (by rw [hsplit, List.map_append, List.map_cons]) rfl
  · intro hunparted pre m post hpre hrole
    obtain ⟨before, rest, hsplit, rfl, hrest⟩ := List.map_eq_append_iff.1 hpre
    obtain ⟨t, after, rfl, rfl, rfl⟩ := List.map_eq_cons_iff.1 hrest
    have ht := (role_message_tool _ t).1 hrole
    cases t with
    | answered id output =>
      rw [Turn.message, toolMessage, hturns id hsplit]
      refine hunparted _ id output (after.flatMap Turn.events) ?_
      rw [hsplit, List.flatMap_append, List.flatMap_cons]
      rfl
    | said who c => exact False.elim ht
    | alone thought => exact False.elim ht
    | spoke ts c calls => exact False.elim ht

end Claims

/-- A history is replayed faithfully just when no readable reasoning parts the calls of an orderly
turn from its outputs. -/
theorem faithful_iff_unparted (F : FloatText) (items : List Value) :
    Faithful F items ↔ (Orderly F items → Unparted (eventsOf F items)) := by
  obtain ⟨turns, hkept⟩ := kept_chatMessages F items
  unfold Faithful
  rw [adjoins_iff hkept]
  exact and_iff_right ⟨turns, hkept⟩

/-! Two parallel calls with reasoning between them. -/

def callItem (id : String) : Value :=
  .object [("type", .string "function_call"), ("call_id", .string id), ("name", .string "look"),
    ("arguments", .string "{}")]

def reasoningItem (text : String) : Value :=
  .object [("type", .string "reasoning"), ("summary", .array [.object [("text", .string text)]])]

def outputItem (id text : String) : Value :=
  .object [("type", .string "function_call_output"), ("call_id", .string id),
    ("output", .string text)]

def parted : List Value :=
  [callItem "a", reasoningItem "And b.", callItem "b", outputItem "a" "sun", outputItem "b" "rain"]

theorem orderly_parted : Orderly bitsText parted := by
  have hcall : ∀ id, CallsFor bitsText id (callItem id) := fun id => ⟨_, rfl, rfl⟩
  have hin : ∀ id, InTurn bitsText (callItem id) := fun id => .inl rfl
  have hreasoning : InTurn bitsText (reasoningItem "And b.") := .inr (by decide)
  refine forall_places_cons.2 ⟨fun h => absurd h (by decide),
    forall_places_cons.2 ⟨fun h => absurd h (by decide),
    forall_places_cons.2 ⟨fun h => absurd h (by decide), forall_places_cons.2 ⟨fun _ => ?_,
      forall_places_cons.2 ⟨fun _ => ?_, fun pre y post h => absurd h (by simp)⟩⟩⟩⟩⟩
  · refine Past.of ⟨[callItem "a"], [reasoningItem "And b.", callItem "b"], rfl, ?_, [],
      callItem "a", rfl, hcall "a"⟩
    exact List.forall_mem_cons.2 ⟨hreasoning, List.forall_mem_singleton.2 (hin "b")⟩
  · refine ⟨[callItem "a", reasoningItem "And b.", callItem "b"],
      [outputItem "a" "sun"], rfl, ?_, ?_⟩
    · exact List.forall_mem_singleton.2 (by decide)
    · exact Past.of ⟨[callItem "a", reasoningItem "And b."], callItem "b", rfl, hcall "b"⟩

theorem not_faithful_parted : ¬ Faithful bitsText parted := by
  obtain ⟨turns, hkept⟩ := kept_chatMessages bitsText parted
  rintro ⟨-, hadjoins⟩
  have hunparted := (adjoins_iff hkept).1 (hadjoins orderly_parted)
  have hevents : eventsOf bitsText parted = [.called (chatCall "a" "look" "{}"), .thought "And b.",
      .called (chatCall "b" "look" "{}"), .answered "a" ⟨"sun", none⟩,
      .answered "b" ⟨"rain", none⟩] := rfl
  have hpast :=
    hunparted ([.called (chatCall "a" "look" "{}"), .thought "And b."] ++
      [.called (chatCall "b" "look" "{}")])
    "a" ⟨"sun", none⟩ _ hevents
  rw [past_snoc_of_neg fun h => h, past_snoc, endsIn_snoc] at hpast
  rcases hpast with hother | ⟨-, hpast⟩
  · exact absurd hother (by decide : callId (chatCall "b" "look" "{}") ≠ "a")
  · have hpast : Past Event.IsCall (EndsIn (Event.Calls "a"))
        ([.called (chatCall "a" "look" "{}")] ++ [.thought "And b."]) := hpast
    exact not_past_endsIn_append (List.cons_ne_nil _ _)
      (List.forall_mem_singleton.2 ⟨fun h => h, fun h => h⟩) hpast

end History
end Responses
end Aisix
