import Aisix.Occurrence
import Aisix.Redact.SseFrames

/-!
# Aisix.Responses.GuardrailText

The one text that is scanned of a held Responses stream: every visible carrier in the order of
arrival, deltas that follow one another without a break between them. A channel's text can be read
in it when nothing comes between its deltas or an event shows it whole, and a channel whose letters
are its own can be read in no other way (`reads_of_whole`).
-/

namespace Aisix
namespace Responses

open Json

/-! ### The carriers -/

def responsesVisiblePartText (part : Value) : Option String :=
  match strField part "type" with
  | some "output_text" | some "text" | some "input_text" => strField part "text"
  | some "refusal" => strField part "refusal"
  | _ => none

def DELTA_TYPES : List String :=
  ["response.output_text.delta", "response.refusal.delta", "response.function_call_arguments.delta",
    "response.mcp_call_arguments.delta", "response.custom_tool_call_input.delta"]

/-- The event carries a piece of one string. -/
def responsesEventIsDelta (event : Value) : Bool :=
  (strField event "type").any (DELTA_TYPES.contains ·)

/-- The texts that are not empty, line by line. -/
def joinLines (texts : List (List Char)) : List Char := ['\n'].intercalate (texts.filter (· ≠ []))

def textFields (event : Value) (names : List String) : List (List Char) :=
  (names.filterMap (strField event)).map String.toList

section Text

-- `itemText` is the visible text of an output item
variable (itemText : Value → List Char)

def itemTexts (response : Value) : List (List Char) := (arrayField response "output").map itemText

def responsesOutputText (response : Value) : List Char := joinLines (itemTexts itemText response)

/-- Where an event has its text. -/
inductive CarrierKind where
  | fields (names : List String)
  | part
  | item
  | terminal
  | none

def carrierKind (event : Value) : CarrierKind :=
  match strField event "type" with
  | some "response.output_text.delta" | some "response.refusal.delta" | some
      "response.function_call_arguments.delta"
  | some "response.mcp_call_arguments.delta" | some "response.custom_tool_call_input.delta" =>
    .fields ["delta"]
  | some "response.output_text.done" => .fields ["text"]
  | some "response.refusal.done" => .fields ["refusal"]
  | some "response.function_call_arguments.done" | some "response.mcp_call_arguments.done" =>
    .fields ["name", "arguments"]
  | some "response.custom_tool_call_input.done" => .fields ["name", "input"]
  | some "response.content_part.added" | some "response.content_part.done" => .part
  | some "response.output_item.added" | some "response.output_item.done" => .item
  | some "response.completed" | some "response.incomplete" | some "response.failed" => .terminal
  | _ => .none

def partText (event : Value) : List Char :=
  (((event.get "part").bind responsesVisiblePartText).getD "").toList

def responsesStreamCarrierText (event : Value) : List Char :=
  match carrierKind event with
  | .fields names => joinLines (textFields event names)
  | .part => partText event
  | .item => (event.get "item").elim [] itemText
  | .terminal => (event.get "response").elim [] (responsesOutputText itemText)
  | .none => []

/-- The text so far, and whether it ends with a delta. -/
structure Scan where
  text : List Char
  previousWasDelta : Bool

namespace Scan

def read (s : Scan) (event : Value) : Scan :=
  let isDelta := responsesEventIsDelta event
  let eventText := responsesStreamCarrierText itemText event
  if eventText = [] then s
  else
    let text := if s.text = [] ∨ s.previousWasDelta ∧ isDelta then s.text else s.text ++ ['\n']
    ⟨text ++ eventText, isDelta⟩

end Scan

def guardrailText (events : List Value) : List Char :=
  (events.foldl (Scan.read itemText) ⟨[], false⟩).text

section Body

-- `fromSlice` is `serde_json::from_slice`
variable (fromSlice : Sse.Bytes → Option Value)

def isAsciiWhitespace (b : UInt8) : Bool :=
  b == 0x20 || b == 0x09 || b == 0x0A || b == 0x0C || b == 0x0D

def trimAscii (bytes : Sse.Bytes) : Sse.Bytes :=
  ((bytes.dropWhile isAsciiWhitespace).reverse.dropWhile isAsciiWhitespace).reverse

def DONE : Sse.Bytes := [0x5B, 0x44, 0x4F, 0x4E, 0x45, 0x5D]

def readSseEvent (frame : Sse.Bytes) : Option Value :=
  let payload := trimAscii ((Sse.parseFrame frame).data.getD [])
  if payload = [] ∨ payload = DONE then none else fromSlice payload

/-- The events of a body, a last one without its end included. -/
def parseSseJsonStream (raw : Sse.Bytes) : List Value :=
  let frames := Redact.terminated raw
  (frames.1.map (·.1) ++ [frames.2]).filterMap (readSseEvent fromSlice)

def responsesSseGuardrailText (raw : Sse.Bytes) : List Char :=
  guardrailText itemText (parseSseJsonStream fromSlice raw)

end Body

end Text

/-! ### The text as a scan of carriers -/

/-- An event with its text. -/
structure Carrier where
  event : Value
  text : List Char

namespace Carrier

def isDelta (c : Carrier) : Bool := responsesEventIsDelta c.event

end Carrier

section Carriers

variable (itemText : Value → List Char)

/-- The events that have a text. -/
def carriers (events : List Value) : List Carrier :=
  (events.map fun event => ⟨event, responsesStreamCarrierText itemText event⟩).filter
    fun c => c.text ≠ []

/-- What is read behind an earlier carrier. -/
def behind : Bool → List Carrier → List Char
  | _, [] => []
  | previousWasDelta, c :: cs =>
    (if previousWasDelta ∧ c.isDelta then c.text else '\n' :: c.text) ++ behind c.isDelta cs

def scanned : List Carrier → List Char
  | [] => []
  | c :: cs => c.text ++ behind c.isDelta cs

variable {itemText}

theorem foldl_read (events : List Value) {s : Scan} (h : s.text ≠ []) :
    (events.foldl (Scan.read itemText) s).text = s.text ++ behind s.previousWasDelta
    (carriers itemText events) := by
  induction events generalizing s with
  | nil => exact (List.append_nil _).symm
  | cons event events ih =>
    rw [List.foldl_cons, carriers, List.map_cons]
    by_cases htext : responsesStreamCarrierText itemText event = []
    · rw [List.filter_cons_of_neg (by simp [htext])]
      have hread : s.read itemText event = s := by
        unfold Scan.read
        exact if_pos htext
      rw [hread]
      exact ih h
    · rw [List.filter_cons_of_pos (by simp [htext]), behind]
      have hread : s.read itemText event =
          ⟨(if s.previousWasDelta ∧
            responsesEventIsDelta event then s.text else s.text ++ ['\n']) ++
            responsesStreamCarrierText itemText event, responsesEventIsDelta event⟩ := by
        unfold Scan.read
        dsimp only
        rw [if_neg htext]
        simp only [h, false_or]
      have hne : (s.read itemText event).text ≠ [] := by
        rw [hread]
        exact List.append_ne_nil_of_right_ne_nil _ htext
      rw [ih hne, hread]
      by_cases hboth : s.previousWasDelta ∧ responsesEventIsDelta event
      · rw [if_pos hboth, if_pos (show s.previousWasDelta ∧ Carrier.isDelta ⟨event, _⟩ from hboth),
          List.append_assoc]
        rfl
      · rw [if_neg hboth,
          if_neg (show ¬ (s.previousWasDelta ∧ Carrier.isDelta ⟨event, _⟩) from hboth),
          List.append_assoc, List.append_assoc]
        rfl

theorem guardrailText_eq (events : List Value) :
    guardrailText itemText events = scanned (carriers itemText events) := by
  unfold guardrailText
  induction events with
  | nil => rfl
  | cons event events ih =>
    rw [List.foldl_cons, carriers, List.map_cons]
    by_cases htext : responsesStreamCarrierText itemText event = []
    · rw [List.filter_cons_of_neg (by simp [htext])]
      have hread : Scan.read itemText ⟨[], false⟩ event = ⟨[], false⟩ := by
        unfold Scan.read
        exact if_pos htext
      rw [hread]
      exact ih
    · rw [List.filter_cons_of_pos (by simp [htext])]
      have hread : Scan.read itemText ⟨[], false⟩ event =
          ⟨responsesStreamCarrierText itemText event, responsesEventIsDelta event⟩ := by
        unfold Scan.read
        dsimp only
        rw [if_neg htext, if_pos (.inl rfl), List.nil_append]
      rw [hread, foldl_read events htext]
      rfl

theorem scanned_suffix (pre cs : List Carrier) : scanned cs <:+ scanned (pre ++ cs) := by
  induction pre with
  | nil => exact List.suffix_refl _
  | cons c pre ih =>
    refine ih.trans ?_
    rw [List.cons_append]
    cases pre ++ cs with
    | nil => exact List.nil_suffix
    | cons c' rest =>
      rw [scanned, scanned, behind]
      split
      · exact List.suffix_append _ _
      · exact (List.suffix_cons _ _).trans (List.suffix_append _ _)

theorem flatMap_prefix_scanned {mid : List Carrier} (h : ∀ c ∈ mid, c.isDelta = true)
    (post : List Carrier) : mid.flatMap Carrier.text <+: scanned (mid ++ post) := by
  induction mid with
  | nil => exact List.nil_prefix
  | cons c mid ih =>
    obtain ⟨hc, hmid⟩ := List.forall_mem_cons.1 h
    rw [List.flatMap_cons, List.cons_append, scanned, List.prefix_append_right_inj]
    cases mid with
    | nil => exact List.nil_prefix
    | cons c' mid =>
      have hboth : c.isDelta = true ∧ c'.isDelta = true := ⟨hc, hmid c' List.mem_cons_self⟩
      rw [List.cons_append, behind, if_pos hboth]
      exact ih hmid

theorem infix_scanned {c : Carrier} {cs : List Carrier} (h : c ∈ cs) : c.text <:+: scanned cs := by
  obtain ⟨pre, post, rfl⟩ := List.append_of_mem h
  exact (List.prefix_append _ _).isInfix.trans (scanned_suffix pre (c :: post)).isInfix

/-- What is scanned starts with one carrier or with a run of deltas. -/
theorem scanned_cons (c : Carrier) (cs : List Carrier) :
    ∃ run rest, c :: cs = run ++ rest ∧ run ≠ [] ∧
      ((∃ c, run = [c]) ∨ ∀ c ∈ run, c.isDelta = true) ∧
      scanned (c :: cs) =
        run.flatMap Carrier.text ++ if rest = [] then [] else '\n' :: scanned rest := by
  induction cs generalizing c with
  | nil =>
    refine ⟨[c], [], rfl, List.cons_ne_nil _ _, .inl ⟨c, rfl⟩, ?_⟩
    rw [if_pos rfl, scanned, behind, List.flatMap_singleton]
  | cons c' cs ih =>
    by_cases hboth : c.isDelta = true ∧ c'.isDelta = true
    · obtain ⟨run, rest, hsplit, -, hrun, htext⟩ := ih c'
      have hdeltas : ∀ d ∈ run, d.isDelta = true := by
        rcases hrun with ⟨d, rfl⟩ | hrun
        · obtain ⟨rfl, -⟩ := List.cons.inj hsplit
          exact List.forall_mem_singleton.2 hboth.2
        · exact hrun
      refine ⟨c :: run, rest, by rw [hsplit, List.cons_append], List.cons_ne_nil _ _,
        .inr (List.forall_mem_cons.2 ⟨hboth.1, hdeltas⟩), ?_⟩
      rw [List.flatMap_cons, List.append_assoc, ← htext]
      show c.text ++ behind c.isDelta (c' :: cs) = _
      rw [behind, if_pos hboth]
      rfl
    · refine ⟨[c], c' :: cs, rfl, List.cons_ne_nil _ _, .inl ⟨c, rfl⟩, ?_⟩
      rw [scanned, behind, if_neg hboth, if_neg (List.cons_ne_nil _ _), List.flatMap_singleton,
        scanned, List.cons_append]

theorem exists_run_of_infix_scanned {word : List Char} (hword : word ≠ []) (hbreak : '\n' ∉ word)
    (cs : List Carrier) (h : word <:+: scanned cs) :
    ∃ pre mid post, cs = pre ++ (mid ++ post) ∧
      ((∃ c, mid = [c]) ∨ ∀ c ∈ mid, c.isDelta = true) ∧ word <:+: mid.flatMap Carrier.text := by
  cases cs with
  | nil => exact absurd h (Occurrence.infix_nil_iff hword)
  | cons c cs =>
    obtain ⟨run, rest, hsplit, hne, hrun, htext⟩ := scanned_cons c cs
    rw [htext] at h
    rcases eq_or_ne rest [] with rfl | hrest
    · rw [if_pos rfl, List.append_nil] at h
      exact ⟨[], run, [], hsplit, hrun, h⟩
    · rw [if_neg hrest] at h
      -- the line break cuts the run off from what comes behind it
      rcases (Occurrence.infix_append_cons_iff hbreak).mp h with h | h
      · exact ⟨[], run, rest, hsplit, hrun, h⟩
      · have hshorter : rest.length < (c :: cs).length := by
          rw [hsplit, List.length_append]
          exact Nat.lt_add_of_pos_left (List.length_pos_iff.mpr hne)
        obtain ⟨pre, mid, post, rfl, hmid, hin⟩ := exists_run_of_infix_scanned hword hbreak rest h
        exact ⟨run ++ pre, mid, post, by rw [hsplit, List.append_assoc], hmid, hin⟩
  termination_by cs.length

end Carriers

/-! ### What is visible -/

section Visible

variable (itemText : Value → List Char)

/-- The texts that an event shows. -/
def visibleTexts (event : Value) : List (List Char) :=
  match carrierKind event with
  | .fields names => textFields event names
  | .part => [partText event]
  | .item => (event.get "item").elim [] fun item => [itemText item]
  | .terminal => (event.get "response").elim [] (itemTexts itemText)
  | .none => []

theorem infix_joinLines {t : List Char} {texts : List (List Char)} (h : t ∈ texts) :
    t <:+: joinLines texts := by
  rcases eq_or_ne t [] with rfl | ht
  · exact List.nil_infix
  · have hmem : t ∈ texts.filter (· ≠ []) := List.mem_filter.mpr ⟨h, decide_eq_true ht⟩
    exact Occurrence.infix_intercalate_of_mem hmem

theorem exists_of_infix_joinLines {word : List Char} (hword : word ≠ []) (hbreak : '\n' ∉ word)
    {texts : List (List Char)} (h : word <:+: joinLines texts) : ∃ t ∈ texts, word <:+: t := by
  obtain ⟨t, ht, hin⟩ := (Occurrence.infix_intercalate_iff hword hbreak).mp h
  exact ⟨t, (List.mem_filter.mp ht).1, hin⟩

variable {itemText}

theorem visibleText_isInfix {event : Value} {t : List Char} (h : t ∈ visibleTexts itemText event) :
    t <:+: responsesStreamCarrierText itemText event := by
  unfold visibleTexts at h
  unfold responsesStreamCarrierText
  cases hkind : carrierKind event with
  | fields names =>
    rw [hkind] at h
    exact infix_joinLines h
  | part =>
    rw [hkind] at h
    exact List.mem_singleton.mp h ▸ List.infix_refl _
  | item =>
    rw [hkind] at h
    cases hitem : event.get "item" with
    | none =>
      rw [hitem] at h
      cases h
    | some item =>
      rw [hitem] at h
      exact List.mem_singleton.mp h ▸ List.infix_refl _
  | terminal =>
    rw [hkind] at h
    cases hresponse : event.get "response" with
    | none =>
      rw [hresponse] at h
      cases h
    | some response =>
      rw [hresponse] at h
      exact infix_joinLines h
  | none =>
    rw [hkind] at h
    cases h

theorem exists_visible_of_infix {word : List Char} (hword : word ≠ []) (hbreak : '\n' ∉ word)
    {event : Value} (h : word <:+: responsesStreamCarrierText itemText event) :
    ∃ t ∈ visibleTexts itemText event, word <:+: t := by
  unfold responsesStreamCarrierText at h
  unfold visibleTexts
  cases hkind : carrierKind event with
  | fields names =>
    rw [hkind] at h
    exact exists_of_infix_joinLines hword hbreak h
  | part =>
    rw [hkind] at h
    exact ⟨_, List.mem_singleton_self _, h⟩
  | item =>
    rw [hkind] at h
    cases hitem : event.get "item" with
    | none =>
      rw [hitem] at h
      exact absurd h (Occurrence.infix_nil_iff hword)
    | some item =>
      rw [hitem] at h
      exact ⟨_, List.mem_singleton_self _, h⟩
  | terminal =>
    rw [hkind] at h
    cases hresponse : event.get "response" with
    | none =>
      rw [hresponse] at h
      exact absurd h (Occurrence.infix_nil_iff hword)
    | some response =>
      rw [hresponse] at h
      exact exists_of_infix_joinLines hword hbreak h
  | none =>
    rw [hkind] at h
    exact absurd h (Occurrence.infix_nil_iff hword)

theorem carrierKind_of_isDelta {event : Value} (h : responsesEventIsDelta event = true) :
    carrierKind event = .fields ["delta"] := by
  unfold responsesEventIsDelta at h
  unfold carrierKind
  cases htype : strField event "type" with
  | none =>
    rw [htype] at h
    cases h
  | some type =>
    rw [htype] at h
    have hmem : type ∈ DELTA_TYPES := List.contains_iff_mem.mp h
    simp only [DELTA_TYPES, List.mem_cons, List.not_mem_nil, or_false] at hmem
    rcases hmem with rfl | rfl | rfl | rfl | rfl <;> rfl

end Visible

/-! ### What can be read -/

section Channels

-- a channel is whatever tells the deltas of one item and content part from the others
variable (itemText : Value → List Char) {κ : Type*} [DecidableEq κ] (channel : Value → κ)

def isOf (k : κ) (event : Value) : Bool := responsesEventIsDelta event && channel event = k

def deltaText (event : Value) : List Char := ((strField event "delta").getD "").toList

/-- The deltas of a channel, one behind the other. -/
def channelText (events : List Value) (k : κ) : List Char :=
  (events.filter (isOf channel k)).flatMap deltaText

/-- Nothing else that has a text comes between the deltas of the channel. -/
def Uninterrupted (events : List Value) (k : κ) : Prop :=
  ∃ pre mid post, carriers itemText events = pre ++ (mid ++ post) ∧
    (∀ c ∈ mid, isOf channel k c.event = true) ∧ ∀ c ∈ pre ++ post, isOf channel k c.event = false

/-- An event shows the channel's text whole. -/
def ShownWhole (events : List Value) (k : κ) : Prop :=
  ∃ event ∈ events, ∃ t ∈ visibleTexts itemText event, channelText channel events k <:+: t

/-- The other deltas have none of the letters of the channel's text, nor has it a line break. -/
structure OwnLetters (events : List Value) (k : κ) : Prop where
  others : ∀ event ∈ events, responsesEventIsDelta event = true ∧ channel event ≠ k →
    ∀ x ∈ deltaText event, x ∉ channelText channel events k
  lineBreak : '\n' ∉ channelText channel events k

/-- Every text that is shown can be read in the scanned one. -/
structure ReadsAll (events : List Value) (text : List Char) : Prop where
  deltas : ∀ k w, w <:+: channelText channel events k → w <:+: text
  snapshots : ∀ event ∈ events, ∀ t ∈ visibleTexts itemText event, ∀ w, w <:+: t → w <:+: text

variable {itemText channel} {events : List Value} {k : κ}

theorem carrierText_of_isOf (itemText : Value → List Char) {event : Value}
    (h : isOf channel k event = true) :
    responsesStreamCarrierText itemText event = deltaText event := by
  have hdelta : responsesEventIsDelta event = true := (Bool.and_eq_true_iff.mp h).1
  unfold responsesStreamCarrierText
  rw [carrierKind_of_isDelta hdelta]
  dsimp only [textFields, deltaText]
  cases hfield : strField event "delta" with
  | none =>
    rw [List.filterMap_cons_none hfield]
    rfl
  | some delta =>
    rw [List.filterMap_cons_some hfield]
    show joinLines [delta.toList] = delta.toList
    unfold joinLines
    by_cases hempty : delta.toList = []
    · rw [hempty]
      rfl
    · rw [List.filter_cons_of_pos (by simpa using hempty)]
      exact List.intercalate_singleton

theorem channelText_eq (itemText : Value → List Char) (events : List Value) (k : κ) :
    channelText channel events k =
      ((carriers itemText events).filter fun c => isOf channel k c.event).flatMap Carrier.text := by
  induction events with
  | nil => rfl
  | cons event events ih =>
    unfold channelText carriers at ih ⊢
    rw [List.map_cons]
    cases hof : isOf channel k event with
    | false =>
      rw [List.filter_cons_of_neg (by simp [hof]), ih]
      by_cases htext : responsesStreamCarrierText itemText event = []
      · rw [List.filter_cons_of_neg (by simp [htext])]
      · rw [List.filter_cons_of_pos (by simp [htext]), List.filter_cons_of_neg (by simp [hof])]
    | true =>
      rw [List.filter_cons_of_pos hof, List.flatMap_cons, ih]
      have hdelta := carrierText_of_isOf itemText hof
      by_cases htext : responsesStreamCarrierText itemText event = []
      · rw [List.filter_cons_of_neg (by simp [htext]), ← hdelta, htext, List.nil_append]
      · rw [List.filter_cons_of_pos (by simp [htext]), List.filter_cons_of_pos (by exact hof),
          List.flatMap_cons, ← hdelta]

theorem Uninterrupted.isInfix (h : Uninterrupted itemText channel events k) :
    channelText channel events k <:+: guardrailText itemText events := by
  obtain ⟨pre, mid, post, hcarriers, hmid, hothers⟩ := h
  obtain ⟨hpre, hpost⟩ := List.forall_mem_append.mp hothers
  have hnone : ∀ cs : List Carrier, (∀ c ∈ cs, isOf channel k c.event = false) →
      cs.filter (fun c => isOf channel k c.event) = [] := by
    intro cs hcs
    exact List.filter_eq_nil_iff.mpr fun c hc => by simp [hcs c hc]
  have htext : channelText channel events k = mid.flatMap Carrier.text := by
    rw [channelText_eq itemText, hcarriers, List.filter_append, List.filter_append, hnone pre hpre,
      hnone post hpost, List.filter_eq_self.mpr hmid, List.nil_append, List.append_nil]
  rw [htext, guardrailText_eq, hcarriers]
  have hdeltas : ∀ c ∈ mid, c.isDelta = true := fun c hc => (Bool.and_eq_true_iff.mp (hmid c hc)).1
  exact (flatMap_prefix_scanned hdeltas post).isInfix.trans
    (scanned_suffix pre (mid ++ post)).isInfix

theorem visible_isInfix {event : Value} (h : event ∈ events) {t : List Char}
    (ht : t ∈ visibleTexts itemText event) : t <:+: guardrailText itemText events := by
  refine (visibleText_isInfix ht).trans ?_
  rw [guardrailText_eq]
  by_cases htext : responsesStreamCarrierText itemText event = []
  · rw [htext]
    exact List.nil_infix
  · have hmem :
        (⟨event, responsesStreamCarrierText itemText event⟩ : Carrier) ∈ carriers itemText events :=
      List.mem_filter.mpr ⟨List.mem_map_of_mem h, decide_eq_true htext⟩
    exact infix_scanned hmem

theorem Uninterrupted.of_none
    (h : ∀ c ∈ carriers itemText events, isOf channel k c.event = false) :
    Uninterrupted itemText channel events k := by
  refine ⟨[], [], carriers itemText events, ?_, nofun, h⟩
  rw [List.nil_append, List.nil_append]

theorem Uninterrupted.of_slice (n m : Nat)
    (h : (∀ c ∈ ((carriers itemText events).drop n).take m, isOf channel k c.event = true) ∧
      ∀ c ∈ (carriers itemText events).take n ++ ((carriers itemText events).drop n).drop m,
        isOf channel k c.event = false) :
    Uninterrupted itemText channel events k := by
  refine ⟨_, _, _, ?_, h.1, h.2⟩
  rw [List.take_append_drop, List.take_append_drop]

theorem readsAll_of_whole (h : ∀ k, Uninterrupted itemText channel events k ∨
      ShownWhole itemText channel events k) :
    ReadsAll itemText channel events (guardrailText itemText events) := by
  refine ⟨fun k w hw => hw.trans ?_, fun event hevent t ht w hw => hw.trans
    (visible_isInfix hevent ht)⟩
  rcases h k with hk | ⟨event, hevent, t, ht, hin⟩
  · exact hk.isInfix
  · exact hin.trans (visible_isInfix hevent ht)

theorem text_ne_nil {c : Carrier} (h : c ∈ carriers itemText events) : c.text ≠ [] :=
  of_decide_eq_true (List.mem_filter.mp h).2

theorem Uninterrupted.of_run {pre mid post : List Carrier}
    (hcarriers : carriers itemText events = pre ++ (mid ++ post))
    (hmid : ∀ c ∈ mid, isOf channel k c.event = true)
    (hin : channelText channel events k <:+: mid.flatMap Carrier.text) :
    Uninterrupted itemText channel events k := by
  have hlength := hin.length_le
  rw [channelText_eq itemText, hcarriers, List.filter_append, List.filter_append,
    List.filter_eq_self.mpr hmid, List.flatMap_append, List.flatMap_append, List.length_append,
    List.length_append] at hlength
  have hnone : ∀ side : List Carrier, side ⊆ carriers itemText events →
      ((side.filter fun c => isOf channel k c.event).flatMap Carrier.text).length = 0 →
      ∀ c ∈ side, isOf channel k c.event = false := by
    intro side hside hempty c hc
    refine Bool.eq_false_iff.mpr fun hof => text_ne_nil (hside hc) ?_
    exact List.flatMap_eq_nil_iff.mp (List.eq_nil_of_length_eq_zero hempty) c
      (List.mem_filter.mpr ⟨hc, hof⟩)
  refine ⟨pre, mid, post, hcarriers, hmid, List.forall_mem_append.mpr ⟨hnone pre ?_ (by omega),
    hnone post ?_ (by omega)⟩⟩
  · rw [hcarriers]
    exact List.subset_append_left _ _
  · rw [hcarriers]
    exact List.subset_append_of_subset_right _ (List.subset_append_right _ _)

theorem whole_of_isInfix (hown : OwnLetters channel events k)
    (h : channelText channel events k <:+: guardrailText itemText events) :
    Uninterrupted itemText channel events k ∨ ShownWhole itemText channel events k := by
  rcases eq_or_ne (channelText channel events k) [] with hempty | hword
  · refine .inl (.of_none fun c hc => Bool.eq_false_iff.mpr fun hof => text_ne_nil hc ?_)
    rw [channelText_eq itemText] at hempty
    exact List.flatMap_eq_nil_iff.mp hempty c (List.mem_filter.mpr ⟨hc, hof⟩)
  · rw [guardrailText_eq] at h
    obtain ⟨pre, mid, post, hcarriers, hmid, hin⟩ :=
      exists_run_of_infix_scanned hword hown.lineBreak _ h
    have hmem : ∀ c ∈ mid, c ∈ carriers itemText events := fun c hc =>
      hcarriers ▸ List.mem_append_right _ (List.mem_append_left _ hc)
    have hevent : ∀ c ∈ mid, c.event ∈ events ∧
        c.text = responsesStreamCarrierText itemText c.event := by
      intro c hc
      obtain ⟨event, hevent, rfl⟩ := List.mem_map.mp (List.mem_filter.mp (hmem c hc)).1
      exact ⟨hevent, rfl⟩
    rcases hmid with ⟨c, rfl⟩ | hdeltas
    · obtain ⟨hc, htext⟩ := hevent c List.mem_cons_self
      rw [List.flatMap_singleton, htext] at hin
      exact .inr ⟨c.event, hc, exists_visible_of_infix hword hown.lineBreak hin⟩
    · -- the word keeps to the channel's own deltas within the run
      have hothers : ∀ c ∈ mid, ¬ isOf channel k c.event = true →
          c.text ≠ [] ∧ ∀ x ∈ c.text, x ∉ channelText channel events k := by
        intro c hc hof
        obtain ⟨hc', htext⟩ := hevent c hc
        have hdelta : isOf channel (channel c.event) c.event = true := by
          unfold isOf
          rw [show responsesEventIsDelta c.event = true from hdeltas c hc]
          exact decide_eq_true rfl
        have hchannel : channel c.event ≠ k := fun hk => hof (hk ▸ hdelta)
        rw [htext, carrierText_of_isOf itemText hdelta]
        rw [carrierText_of_isOf itemText hdelta] at htext
        exact ⟨htext ▸ text_ne_nil (hmem c hc), hown.others c.event hc' ⟨hdeltas c hc, hchannel⟩⟩
      obtain ⟨left, run, right, rfl, hrun, hword'⟩ :=
        Occurrence.exists_run_of_infix hword hothers hin
      have hwhole : carriers itemText events = (pre ++ left) ++ (run ++ (right ++ post)) := by
        rw [hcarriers]
        simp only [List.append_assoc]
      exact .inl (.of_run hwhole hrun hword')

end Channels

/-- A stream is read when every channel comes in one piece or is shown whole, and a channel whose
letters are its own is read in no other way. -/
theorem reads_of_whole (fromSlice : Sse.Bytes → Option Value) (itemText : Value → List Char)
    {κ : Type*} [DecidableEq κ] (channel : Value → κ) (raw : Sse.Bytes) :
    let events := parseSseJsonStream fromSlice raw
    let Whole := fun k =>
      Uninterrupted itemText channel events k ∨ ShownWhole itemText channel events k
    let Reads := ReadsAll itemText channel events (responsesSseGuardrailText itemText fromSlice raw)
    ((∀ k, Whole k) → Reads) ∧ ∀ k, OwnLetters channel events k → Reads → Whole k :=
  ⟨readsAll_of_whole, fun k hown h => whole_of_isInfix hown (h.deltas k _ (List.infix_refl _))⟩

/-! ### Two items at once -/

/-- The event type, the item and the content part. -/
def partOf (event : Value) : Option String × Option String × Option Nat :=
  (strField event "type", strField event "item_id", (event.get "content_index").bind Value.asU64?)

def textDelta (itemId delta : String) : Value :=
  .object [("type", .string "response.output_text.delta"), ("item_id", .string itemId),
    ("delta", .string delta)]

/-- The payload of a `textDelta`. -/
def textDeltaBytes (itemId delta : String) : Sse.Bytes :=
  Sse.ascii ("\x7b\"type\":\"response.output_text.delta\",\"item_id\":\"" ++ itemId ++
    "\",\"delta\":\"" ++ delta ++ "\"\x7d")

/-- Two items whose deltas come by turns. -/
def byTurns : List (String × String) := [("a", "BLO"), ("b", "x"), ("a", "CK")]

def byTurnsBody : Sse.Bytes :=
  byTurns.flatMap fun d => Sse.ascii "data: " ++ textDeltaBytes d.1 d.2 ++ Sse.ascii "\n\n"

/-- A reader of the three payloads. -/
def readTextDelta (payload : Sse.Bytes) : Option Value :=
  (byTurns.find? fun d => textDeltaBytes d.1 d.2 == payload).map fun d => textDelta d.1 d.2

/-- The scan reads the deltas of the two items through each other. -/
theorem byTurns_unread :
    ¬ ReadsAll (fun _ => []) partOf (parseSseJsonStream readTextDelta byTurnsBody)
      (responsesSseGuardrailText (fun _ => []) readTextDelta byTurnsBody) := by
  intro h
  have htexts : responsesSseGuardrailText (fun _ => []) readTextDelta byTurnsBody =
      "BLOxCK".toList ∧ channelText partOf (parseSseJsonStream readTextDelta byTurnsBody)
        (some "response.output_text.delta", some "a", none) = "BLOCK".toList := by
    decide +kernel
  have hread := h.deltas (some "response.output_text.delta", some "a", none) _ (List.infix_refl _)
  rw [htexts.1, htexts.2] at hread
  exact absurd hread (by decide)

/-! ### The same two items, one of them shown whole -/

def textDone (itemId text : String) : Value :=
  .object [("type", .string "response.output_text.done"), ("item_id", .string itemId),
    ("text", .string text)]

/-- The payload of a `textDone`. -/
def textDoneBytes (itemId text : String) : Sse.Bytes :=
  Sse.ascii ("\x7b\"type\":\"response.output_text.done\",\"item_id\":\"" ++ itemId ++
    "\",\"text\":\"" ++ text ++ "\"\x7d")

def shownBody : Sse.Bytes :=
  byTurnsBody ++ Sse.ascii "data: " ++ textDoneBytes "a" "BLOCK" ++ Sse.ascii "\n\n"

def readText (payload : Sse.Bytes) : Option Value :=
  if textDoneBytes "a" "BLOCK" == payload then some (textDone "a" "BLOCK")
  else readTextDelta payload

theorem whole_of_two {events : List Value} {a b : Option String × Option String × Option Nat}
    (htwo : ∀ c ∈ carriers (fun _ => []) events, responsesEventIsDelta c.event = true →
      partOf c.event = a ∨ partOf c.event = b)
    (ha : ShownWhole (fun _ => []) partOf events a)
    (hb : Uninterrupted (fun _ => []) partOf events b)
    (k : Option String × Option String × Option Nat) :
    Uninterrupted (fun _ => []) partOf events k ∨ ShownWhole (fun _ => []) partOf events k := by
  by_cases hka : k = a
  · exact .inr (hka ▸ ha)
  by_cases hkb : k = b
  · exact .inl (hkb ▸ hb)
  refine .inl (.of_none fun c hc => Bool.eq_false_iff.mpr fun hof => ?_)
  obtain ⟨hdelta, hk⟩ := Bool.and_eq_true_iff.mp hof
  rcases htwo c hc hdelta with h | h
  · exact hka ((of_decide_eq_true hk).symm.trans h)
  · exact hkb ((of_decide_eq_true hk).symm.trans h)

theorem ownLetters_shown : OwnLetters partOf (parseSseJsonStream readText shownBody)
    (some "response.output_text.delta", some "a", none) := by
  have htext : channelText partOf (parseSseJsonStream readText shownBody)
      (some "response.output_text.delta", some "a", none) = "BLOCK".toList := by decide +kernel
  have hdeltas : ((parseSseJsonStream readText shownBody).filter responsesEventIsDelta).map
      (fun event => (partOf event, deltaText event)) =
      byTurns.map fun d => ((some "response.output_text.delta", some d.1, none), d.2.toList) := by
    decide +kernel
  refine ⟨fun event hevent h x hx => ?_, by rw [htext]; decide⟩
  have hmem := List.mem_map_of_mem (f := fun event => (partOf event, deltaText event))
    (List.mem_filter.mpr ⟨hevent, h.1⟩)
  rw [hdeltas] at hmem
  simp only [byTurns, List.map_cons, List.map_nil, List.mem_cons, List.not_mem_nil, or_false,
    Prod.mk.injEq] at hmem
  obtain ⟨hpart, -⟩ | ⟨-, hother⟩ | ⟨hpart, -⟩ := hmem
  · exact absurd hpart h.2
  · rw [hother] at hx
    rw [htext, List.mem_singleton.mp hx]
    decide
  · exact absurd hpart h.2

theorem reads_of_whole_shown :
    let events := parseSseJsonStream readText shownBody
    let a := (some "response.output_text.delta", some "a", none)
    ReadsAll (fun _ => []) partOf events
        (responsesSseGuardrailText (fun _ => []) readText shownBody) ∧
      (Uninterrupted (fun _ => []) partOf events a ∨ ShownWhole (fun _ => []) partOf events a) := by
  have hspec := reads_of_whole readText (fun _ => []) partOf shownBody
  have hshown : ShownWhole (fun _ => []) partOf (parseSseJsonStream readText shownBody)
      (some "response.output_text.delta", some "a", none) := by
    unfold ShownWhole
    decide +kernel
  have hone : Uninterrupted (fun _ => []) partOf (parseSseJsonStream readText shownBody)
      (some "response.output_text.delta", some "b", none) := .of_slice 1 1 (by decide +kernel)
  have hreads := hspec.1 (whole_of_two (by decide +kernel) hshown hone)
  exact ⟨hreads, hspec.2 _ ownLetters_shown hreads⟩

end Responses
end Aisix
