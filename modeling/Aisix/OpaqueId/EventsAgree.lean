import Aisix.JsonSplice.Exact
import Aisix.JsonSplice.Paths
import Aisix.JsonSplice.Readable

/-!
# Aisix.OpaqueId.EventsAgree

The two ways a Messages stream event gets its ids rewritten: `applyToEvent` on a parsed event, and
`rewriteEventJson`, which splices the event's text and then cuts the channel's metrics out of it.

The spliced event stands for the value that is made of the parsed one
(`MessagesEvent.parses_relay_iff`), over a whole stream `events_agree_iff`: unless the channel's
metrics are there and their name is nowhere spelled out.
-/

namespace Aisix
namespace OpaqueId

open Json Json.Syntax JsonSplice Occurrence

/-- The per-response state: the id of the message, and the mapping of tool-use ids under the
platform's key. -/
structure MessagesIds where
  mapToolId : String → String
  messageId : String

def CHANNEL_METRICS_KEY : String := "amazon-bedrock-invocationMetrics"

inductive MessagesSlot where
  | model
  | messageId
  | blockType
  | blockId
  | blockToolUseId
  | callerToolId
  deriving DecidableEq, Repr

structure BlockIds where
  id : Bool
  toolUseId : Bool
  deriving DecidableEq, Repr

namespace BlockIds

def default : BlockIds := ⟨false, false⟩

def ALL : BlockIds := ⟨true, true⟩

def of : Option String → BlockIds
  | none => default
  | some t =>
    ⟨t == "tool_use" || t == "server_tool_use" || t == "mcp_tool_use",
      "tool_result".toList.isSuffixOf t.toList⟩

/-- Whether an id was mapped that is not allowed. -/
def exceeds (mapped allowed : BlockIds) : Bool :=
  (mapped.id && !allowed.id) || (mapped.toolUseId && !allowed.toolUseId)

end BlockIds

/-! ### The parsed event -/

namespace MessagesIds

def mapBlock (ids : MessagesIds) (block : Value) : Value :=
  let wanted := BlockIds.of ((block.get "type").bind Value.asStr?)
  let block := if wanted.id then block.modify "id" (mapStr ids.mapToolId) else block
  let block := if wanted.toolUseId then block.modify "tool_use_id" (mapStr ids.mapToolId) else block
  block.modify "caller" fun caller => caller.modify "tool_id" (mapStr ids.mapToolId)

def applyToEvent (ids : MessagesIds) (event : Value) : Value :=
  let event :=
    event.modify "message" fun message => message.modify "id" (mapStr fun _ => ids.messageId)
  let event := event.modify "content_block" ids.mapBlock
  withoutMember CHANNEL_METRICS_KEY event

/-! ### The event's text -/

/-- What a splice pass remembers: the slot of the string it is offered next, and what it has seen of
the block. -/
structure PassState where
  slot : Option MessagesSlot
  blockType : Option String
  mapped : BlockIds

def picked (allowed : BlockIds) : List PathSeg → Option MessagesSlot
  | [.key parent, .key field] =>
    if parent = "message" ∧ field = "model" then some .model
    else if parent = "message" ∧ field = "id" then some .messageId
    else if parent = "content_block" ∧ field = "type" then some .blockType
    else if parent = "content_block" ∧ field = "id" ∧ allowed.id then some .blockId
    else if parent = "content_block" ∧ field = "tool_use_id" ∧
      allowed.toolUseId then some .blockToolUseId
    else none
  | [.key block, .key caller, .key field] =>
    if block = "content_block" ∧ caller = "caller" ∧
      field = "tool_id" then some .callerToolId else none
  | _ => none

def fill (ids : MessagesIds) (clientFacingModel value : String) (p : PassState) :
    Option String × PassState :=
  match p.slot with
  | none => (none, p)
  | some .model => (some clientFacingModel, p)
  | some .messageId => (some ids.messageId, p)
  | some .blockType => (none, { p with blockType := some value })
  | some .blockId => (some (ids.mapToolId value), { p with mapped := { p.mapped with id := true } })
  | some .blockToolUseId =>
    (some (ids.mapToolId value), { p with mapped := { p.mapped with toolUseId := true } })
  | some .callerToolId => (some (ids.mapToolId value), p)

def visitor (ids : MessagesIds) (clientFacingModel : String) (allowed : BlockIds) :
    Visitor PassState where
  shouldRewrite path p := ((picked allowed path).isSome, { p with slot := picked allowed path })
  rewrite := ids.fill clientFacingModel

structure MessagesSplice where
  spliced : Option JsonSplice.Bytes
  blockType : Option String
  mapped : BlockIds

def PassState.start : PassState := ⟨none, none, .default⟩

def spliceEvent (ids : MessagesIds) (payload : JsonSplice.Bytes) (clientFacingModel : String)
    (allowed : BlockIds) :
    Except SpliceError MessagesSplice :=
  match rewriteStringValues (ids.visitor clientFacingModel allowed) payload .start with
  | .error e => .error e
  | .ok (spliced, p) => .ok ⟨spliced, p.blockType, p.mapped⟩

/-- `doc` without its top-level channel metrics; `none` when they do not occur in it or it cannot be
read. -/
def stripChannelMetrics (doc : JsonSplice.Bytes) : Option JsonSplice.Bytes :=
  if Utf8.bytes CHANNEL_METRICS_KEY <:+: doc then
    match removeTopLevelMember doc CHANNEL_METRICS_KEY with
    | some (.ok stripped) => stripped
    | _ => none
  else none

def rewriteEventJson (ids : MessagesIds) (payload : JsonSplice.Bytes) (clientFacingModel : String) :
    Option JsonSplice.Bytes :=
  let spliced :=
    match ids.spliceEvent payload clientFacingModel .ALL with
    | .ok pass =>
      -- an id was mapped before the type said that the block has none of its kind
      if pass.mapped.exceeds (.of pass.blockType) then ids.spliceEvent payload clientFacingModel
        (.of pass.blockType)
      else .ok pass
    | .error e => .error e
  match spliced with
  | .ok pass => (stripChannelMetrics (pass.spliced.getD payload)).or pass.spliced
  | .error _ => none

end MessagesIds

/-! ## What each makes of an event -/

variable {readNumber : NumberToken → Option Number} {ids : MessagesIds} {model : String}
    {allowed : BlockIds}

/-! ### What a pass replaces -/

namespace MessagesIds

/-- The parsed event with the model the caller asked for. -/
def stampModel (model : String) (event : Value) : Value :=
  event.modify "message" fun message => message.modify "model" (mapStr fun _ => model)

/-- What is written where, when these ids of a block are mapped. -/
def edits (ids : MessagesIds) (model : String) (allowed : BlockIds) :
    List (List String × (String → String)) :=
  [(["message", "model"], fun _ => model), (["message", "id"], fun _ => ids.messageId)] ++
    (if allowed.id then [(["content_block", "id"], ids.mapToolId)] else []) ++
    (if allowed.toolUseId then [(["content_block", "tool_use_id"], ids.mapToolId)] else []) ++
    [(["content_block", "caller", "tool_id"], ids.mapToolId)]

theorem nodup_edits : ((ids.edits model allowed).map (·.1)).Nodup := by
  obtain ⟨id, toolUseId⟩ := allowed
  cases id <;> cases toolUseId <;> simp [edits]

theorem mem_edits {e : List String × (String → String)} (he : e ∈ ids.edits model allowed) :
    (∃ field, e.1 = ["message", field] ∧ (field = "model" ∨ field = "id")) ∨
      (∃ field, e.1 = ["content_block", field] ∧
        (field = "id" ∧ allowed.id = true ∨ field = "tool_use_id" ∧ allowed.toolUseId = true)) ∨
      e.1 = ["content_block", "caller", "tool_id"] := by
  simp only [edits, List.mem_append, List.mem_cons, List.mem_ite_nil_right,
    List.not_mem_nil, or_false] at he
  rcases he with (((rfl | rfl) | ⟨hid, rfl⟩) | ⟨htoolUseId, rfl⟩) | rfl
  · exact .inl ⟨"model", rfl, .inl rfl⟩
  · exact .inl ⟨"id", rfl, .inr rfl⟩
  · exact .inr (.inl ⟨"id", rfl, .inl ⟨rfl, hid⟩⟩)
  · exact .inr (.inl ⟨"tool_use_id", rfl, .inr ⟨rfl, htoolUseId⟩⟩)
  · exact .inr (.inr rfl)

theorem firstOf_edits_of_ne {path : List PathSeg}
    (h : ∀ e ∈ ids.edits model allowed, path ≠ e.1.map .key)
    (text : String) : firstOf (ids.edits model allowed) path text = none :=
  List.findSome?_eq_none_iff.mpr fun e he => if_neg (h e he)

theorem fill_picked (path : List PathSeg) (text : String) (s : PassState) :
    (ids.fill model text { s with slot := picked allowed path }).1 =
    firstOf (ids.edits model allowed) path text := by
  unfold picked
  split
  · next parent field =>
    split
    · next h =>
      obtain ⟨rfl, rfl⟩ := h
      have hmem : (["message", "model"], fun _ => model) ∈ ids.edits model allowed := by
        simp [edits]
      exact (firstOf_of_mem nodup_edits hmem text).symm
    split
    · next h =>
      obtain ⟨rfl, rfl⟩ := h
      have hmem : (["message", "id"], fun _ => ids.messageId) ∈ ids.edits model allowed := by
        simp [edits]
      exact (firstOf_of_mem nodup_edits hmem text).symm
    split
    · next h =>
      obtain ⟨rfl, rfl⟩ := h
      refine (firstOf_edits_of_ne ?_ text).symm
      intro e he hpath
      rcases mem_edits he with ⟨key, hkeys, -⟩ | ⟨key, hkeys, hkey⟩ | hkeys
      all_goals
        rw [hkeys] at hpath
        simp at hpath
      subst hpath
      simp at hkey
    split
    · next h =>
      obtain ⟨rfl, rfl, hid⟩ := h
      have hmem : (["content_block", "id"], ids.mapToolId) ∈ ids.edits model allowed := by
        simp [edits, hid]
      exact (firstOf_of_mem nodup_edits hmem text).symm
    split
    · next h =>
      obtain ⟨rfl, rfl, htoolUseId⟩ := h
      have hmem : (["content_block", "tool_use_id"], ids.mapToolId) ∈ ids.edits model allowed := by
        simp [edits, htoolUseId]
      exact (firstOf_of_mem nodup_edits hmem text).symm
    · next hmodel hid htype hblockId htoolUseId =>
      refine (firstOf_edits_of_ne ?_ text).symm
      intro e he hpath
      rcases mem_edits he with ⟨key, hkeys, rfl | rfl⟩ |
        ⟨key, hkeys, ⟨rfl, hallowed⟩ | ⟨rfl, hallowed⟩⟩ | hkeys
      all_goals
        rw [hkeys] at hpath
        simp at hpath
      · exact hmodel hpath
      · exact hid hpath
      · exact hblockId ⟨hpath.1, hpath.2, hallowed⟩
      · exact htoolUseId ⟨hpath.1, hpath.2, hallowed⟩
  · next block caller field =>
    split
    · next h =>
      obtain ⟨rfl, rfl, rfl⟩ := h
      have hmem :
          (["content_block", "caller", "tool_id"], ids.mapToolId) ∈ ids.edits model allowed := by
          simp [edits]
      exact (firstOf_of_mem nodup_edits hmem text).symm
    · next hother =>
      refine (firstOf_edits_of_ne ?_ text).symm
      intro e he hpath
      rcases mem_edits he with ⟨key, hkeys, -⟩ | ⟨key, hkeys, -⟩ | hkeys
      all_goals
        rw [hkeys] at hpath
        simp at hpath
      exact hother hpath
  · next htwo hthree =>
    refine (firstOf_edits_of_ne ?_ text).symm
    intro e he hpath
    rcases mem_edits he with ⟨key, hkeys, -⟩ | ⟨key, hkeys, -⟩ | hkeys
    all_goals rw [hkeys] at hpath
    · exact htwo _ _ hpath
    · exact htwo _ _ hpath
    · exact hthree _ _ _ hpath

theorem replaces : Replaces (ids.visitor model allowed) (firstOf (ids.edits model allowed)) where
  picked path text s _ := fill_picked path text s
  skipped path text s h := by
    have hnone : picked allowed path = none :=
      Option.not_isSome_iff_eq_none.mp (Bool.eq_false_iff.mp h)
    rw [← @fill_picked ids model allowed path text s, hnone]
    rfl

/-! ### What a pass remembers -/

theorem foldl_sets {σ τ β : Type} {f : σ → τ → σ} {g : σ → β} {P : τ → Bool} {c : β} {l : List τ}
    {s : σ} (hset : ∀ t ∈ l, P t = true → ∀ s, g (f s t) = c)
    (hkeep : ∀ t ∈ l, P t = false → ∀ s, g (f s t) = g s) :
    g (l.foldl f s) = if l.any P then c else g s := by
  induction l generalizing s with
  | nil => rfl
  | cons t l ih =>
    obtain ⟨hsetHere, hset⟩ := List.forall_mem_cons.mp hset
    obtain ⟨hkeepHere, hkeep⟩ := List.forall_mem_cons.mp hkeep
    rw [List.foldl_cons, ih hset hkeep, List.any_cons]
    cases ht : P t with
    | true => rw [hsetHere ht, ite_self, Bool.true_or, if_pos rfl]
    | false => rw [hkeepHere ht, Bool.false_or]

theorem visitToken_eq {path : List PathSeg} {t : StringToken} {text : String}
    (ht : t.decode = some text) (s : PassState) :
    visitToken (ids.visitor model allowed) s (some path, t) =
      (ids.fill model text { s with slot := picked allowed path.reverse }).2 := by
  unfold visitToken visitor
  dsimp only
  rw [ht]
  cases hpicked : picked allowed path.reverse with
  | none => rfl
  | some slot => rfl

def stringAt (p : List PathSeg) (x : Value) : Option String := (valueAt p x).bind Value.asStr?

theorem stringAt_eq_some_iff {p : List PathSeg} {x : Value} {text : String} :
    stringAt p x = some text ↔ valueAt p x = some (.string text) := by
  unfold stringAt
  cases valueAt p x with
  | none => simp
  | some y => cases y <;> simp [Value.asStr?]

/-- Where a slot stands. -/
def place : MessagesSlot → List PathSeg
  | .model => [.key "message", .key "model"]
  | .messageId => [.key "message", .key "id"]
  | .blockType => [.key "content_block", .key "type"]
  | .blockId => [.key "content_block", .key "id"]
  | .blockToolUseId => [.key "content_block", .key "tool_use_id"]
  | .callerToolId => [.key "content_block", .key "caller", .key "tool_id"]

theorem picked_all_iff {path : List PathSeg} {slot : MessagesSlot} :
    picked .ALL path = some slot ↔ path = place slot := by
  constructor
  · intro h
    unfold picked at h
    split at h
    · next parent field =>
      split at h
      · next hplace =>
        obtain ⟨rfl, rfl⟩ := hplace
        cases h
        rfl
      split at h
      · next hplace =>
        obtain ⟨rfl, rfl⟩ := hplace
        cases h
        rfl
      split at h
      · next hplace =>
        obtain ⟨rfl, rfl⟩ := hplace
        cases h
        rfl
      split at h
      · next hplace =>
        obtain ⟨rfl, rfl, -⟩ := hplace
        cases h
        rfl
      split at h
      · next hplace =>
        obtain ⟨rfl, rfl, -⟩ := hplace
        cases h
        rfl
      · cases h
    · next block caller field =>
      split at h
      · next hplace =>
        obtain ⟨rfl, rfl, rfl⟩ := hplace
        cases h
        rfl
      · cases h
    · cases h
  · rintro rfl
    cases slot <;> rfl

theorem seen_of_tokens {β : Type} {g : PassState → β} (slot : MessagesSlot) {c : String → β}
    {n : Node} {x : Value} {s : PassState}
    (hset : ∀ text (s : PassState), g (ids.fill model text { s with slot := some slot }).2 = c text)
    (hkeep : ∀ text (s : PassState) o, o ≠ some slot →
      g (ids.fill model text { s with slot := o }).2 = g s)
    (hx : n.value? readNumber = some x) (hd : Distinct x) :
    g ((tokens [] n).foldl (visitToken (ids.visitor model .ALL)) s) =
      (stringAt (place slot) x).elim (g s) c := by
  have hkept : ∀ token ∈ tokens [] n, (token.1 == some (place slot).reverse) = false →
      ∀ s, g (visitToken (ids.visitor model .ALL) s token) = g s := by
    rintro ⟨o, t⟩ hmem hother s
    cases o with
    | none => rfl
    | some path =>
      obtain ⟨q, text, ⟨-, htext⟩, -⟩ := valueAt_of_mem hx hd hmem rfl
      rw [visitToken_eq htext]
      refine hkeep text s _ ?_
      intro hslot
      have hpath := picked_all_iff.mp hslot
      rw [← hpath, List.reverse_reverse] at hother
      simp at hother
  have hat : ∀ token ∈ tokens [] n, (token.1 == some (place slot).reverse) = true →
      ∃ text, token.1 = some (place slot).reverse ∧ token.2.decode = some text ∧
        stringAt (place slot) x = some text := by
    intro token hmem hsame
    obtain ⟨q, text, ⟨hat, htext⟩, hvalue⟩ := valueAt_of_mem hx hd hmem (eq_of_beq hsame)
    rw [eq_of_beq hsame, List.append_nil, Option.some.injEq, List.reverse_inj] at hat
    subst hat
    exact ⟨text, eq_of_beq hsame, htext, stringAt_eq_some_iff.mpr hvalue⟩
  cases hstring : stringAt (place slot) x with
  | none =>
    have hno : ∀ token ∈ tokens [] n, (token.1 == some (place slot).reverse) = false := by
      intro token hmem
      refine Bool.eq_false_iff.mpr ?_
      intro hsame
      obtain ⟨text, -, -, htext⟩ := hat token hmem hsame
      rw [hstring] at htext
      cases htext
    have hset' : ∀ token ∈ tokens [] n, (token.1 == some (place slot).reverse) = true →
        ∀ s, g (visitToken (ids.visitor model .ALL) s token) = c "" := by
      intro token hmem hsame
      rw [hno token hmem] at hsame
      cases hsame
    rw [foldl_sets hset' hkept, List.any_eq_false.mpr]
    · rfl
    · intro token hmem
      rw [hno token hmem]
      exact Bool.false_ne_true
  | some text =>
    have hset' : ∀ token ∈ tokens [] n, (token.1 == some (place slot).reverse) = true →
        ∀ s, g (visitToken (ids.visitor model .ALL) s token) = c text := by
      rintro ⟨path, t⟩ hmem hsame s
      obtain ⟨text', hpath, htext, hvalue⟩ := hat _ hmem hsame
      rw [hstring, Option.some.injEq] at hvalue
      subst hvalue
      dsimp only at hpath htext
      rw [hpath, visitToken_eq htext, List.reverse_reverse, picked_all_iff.mpr rfl]
      exact hset text s
    obtain ⟨token, hmem, hpath, -⟩ := mem_of_valueAt [] hx (stringAt_eq_some_iff.mp hstring)
    have hany : (tokens [] n).any (fun token => token.1 == some (place slot).reverse) = true := by
      refine List.any_eq_true.mpr ⟨token, hmem, ?_⟩
      rw [hpath, List.append_nil]
      exact beq_self_eq_true _
    rw [foldl_sets hset' hkept, hany]
    rfl

/-- What the ids of the event's block are, by the block's type. -/
def wanted (event : Value) : BlockIds := .of (stringAt (place .blockType) event)

theorem first_pass {n : Node} {x : Value} {res : Rewritten Node PassState}
    (hx : n.value? readNumber = some x) (hd : Distinct x)
    (h : rewrite (ids.visitor model .ALL) [] n .start = some res) :
    res.state.blockType = stringAt (place .blockType) x ∧
      res.state.mapped.id = (stringAt (place .blockId) x).isSome ∧
      res.state.mapped.toolUseId = (stringAt (place .blockToolUseId) x).isSome := by
  rw [state_rewrite h]
  refine ⟨?_, ?_, ?_⟩
  · rw [seen_of_tokens (g := fun s => s.blockType) .blockType (c := some) _ _ hx hd]
    · cases stringAt (place .blockType) x <;> rfl
    · intro text s
      rfl
    · intro text s o ho
      cases o with
      | none => rfl
      | some slot =>
        cases slot with
        | blockType => exact absurd rfl ho
        | _ => rfl
  · rw [seen_of_tokens (g := fun s => s.mapped.id) .blockId (c := fun _ => true) _ _ hx hd]
    · cases stringAt (place .blockId) x <;> rfl
    · intro text s
      rfl
    · intro text s o ho
      cases o with
      | none => rfl
      | some slot =>
        cases slot with
        | blockId => exact absurd rfl ho
        | _ => rfl
  · rw [seen_of_tokens (g := fun s => s.mapped.toolUseId) .blockToolUseId
      (c := fun _ => true) _ _ hx hd]
    · cases stringAt (place .blockToolUseId) x <;> rfl
    · intro text s
      rfl
    · intro text s o ho
      cases o with
      | none => rfl
      | some slot =>
        cases slot with
        | blockToolUseId => exact absurd rfl ho
        | _ => rfl

/-! ### The two values -/

theorem stringAt_key {key : String} {p : List PathSeg} {x : Value} :
    stringAt (.key key :: p) x = (x.get key).bind (stringAt p) := by
  unfold stringAt
  rw [valueAt, Option.bind_assoc]

theorem wanted_eq (event : Value) :
    wanted event =
      .of ((event.get "content_block").bind fun block => (block.get "type").bind Value.asStr?) := by
  unfold wanted
  rw [place, stringAt_key]
  refine congrArg (fun f => BlockIds.of ((event.get "content_block").bind f)) ?_
  funext block
  exact stringAt_key

theorem foldl_edits (event : Value) :
    (ids.edits model allowed).foldl (fun x e => modifyAt e.1 e.2 x) event =
      (stampModel model event |>.modify "message" fun message => message.modify "id"
        (mapStr fun _ => ids.messageId)).modify
        "content_block" fun block =>
          let block := if allowed.id then block.modify "id" (mapStr ids.mapToolId) else block
          let block :=
            if allowed.toolUseId then block.modify "tool_use_id" (mapStr ids.mapToolId) else block
          block.modify "caller" fun caller => caller.modify "tool_id" (mapStr ids.mapToolId) := by
  obtain ⟨id, toolUseId⟩ := allowed
  unfold edits stampModel
  cases id <;> cases toolUseId
  · rfl
  · exact Value.modify_modify _ _ _ _
  · exact Value.modify_modify _ _ _ _
  · exact (congrArg (Value.modify "content_block" _) (Value.modify_modify _ _ _ _)).trans
      (Value.modify_modify _ _ _ _)

theorem applyToEvent_eq (event : Value) :
    ids.applyToEvent (stampModel model event) = withoutMember CHANNEL_METRICS_KEY
      ((ids.edits model (wanted event)).foldl (fun x e => modifyAt e.1 e.2 x) event) := by
  rw [foldl_edits]
  unfold applyToEvent
  dsimp only
  refine congrArg (withoutMember CHANNEL_METRICS_KEY) (Value.modify_congr ?_)
  intro block hget
  unfold stampModel at hget
  rw [Value.get_modify_of_ne (by decide), Value.get_modify_of_ne (by decide)] at hget
  have hwanted : wanted event = .of ((block.get "type").bind Value.asStr?) := by
    rw [wanted_eq, hget]
    rfl
  rw [hwanted]
  rfl

theorem edits_subset : ∀ e ∈ ids.edits model allowed, e ∈ ids.edits model .ALL := by
  intro e he
  simp only [edits, List.mem_append, List.mem_cons, List.mem_ite_nil_right, List.not_mem_nil,
    or_false] at he ⊢
  rcases he with (((rfl | rfl) | ⟨-, rfl⟩) | ⟨-, rfl⟩) | rfl
  · exact .inl (.inl (.inl (.inl rfl)))
  · exact .inl (.inl (.inl (.inr rfl)))
  · exact .inl (.inl (.inr ⟨rfl, rfl⟩))
  · exact .inl (.inr ⟨rfl, rfl⟩)
  · exact .inr rfl

/-- Where the block has no id that is not to be mapped, mapping all of them comes to the same. -/
theorem firstOf_edits_all {x : Value}
    (hid : (stringAt (place .blockId) x).isSome = true → allowed.id = true)
    (htoolUseId : (stringAt (place .blockToolUseId) x).isSome = true → allowed.toolUseId = true)
    {q : List PathSeg} {text : String} (hq : valueAt q x = some (.string text)) :
    firstOf (ids.edits model .ALL) q text = firstOf (ids.edits model allowed) q text := by
  have hsome : (stringAt q x).isSome = true := by
    rw [stringAt_eq_some_iff.mpr hq]
    rfl
  by_cases h : ∃ e ∈ ids.edits model .ALL, q = e.1.map .key
  · obtain ⟨e, he, rfl⟩ := h
    have hmem : e ∈ ids.edits model allowed := by
      simp only [edits, List.mem_append, List.mem_cons, List.mem_ite_nil_right, List.not_mem_nil,
        or_false] at he ⊢
      rcases he with (((rfl | rfl) | ⟨-, rfl⟩) | ⟨-, rfl⟩) | rfl
      · exact .inl (.inl (.inl (.inl rfl)))
      · exact .inl (.inl (.inl (.inr rfl)))
      · exact .inl (.inl (.inr ⟨hid hsome, rfl⟩))
      · exact .inl (.inr ⟨htoolUseId hsome, rfl⟩)
      · exact .inr rfl
    rw [firstOf_of_mem nodup_edits he, firstOf_of_mem nodup_edits hmem]
  · have hne : ∀ e ∈ ids.edits model .ALL, q ≠ e.1.map .key := by
      intro e he hsame
      exact h ⟨e, he, hsame⟩
    rw [firstOf_edits_of_ne hne, firstOf_edits_of_ne fun e he => hne e (edits_subset e he)]

end MessagesIds

/-! ### The metrics' name in the text -/

theorem word_metrics : Word CHANNEL_METRICS_KEY.toList where
  nonempty := by decide
  between c hc := by
    have hall :
        (CHANNEL_METRICS_KEY.toList.all fun c => decide (isWhitespace c = false ∧ c ≠ ',' ∧
          c ≠ ':' ∧ c ≠ '[' ∧ c ≠ ']' ∧ c ≠ '\x7b' ∧ c ≠ '\x7d' ∧ c ≠ '\"')) = true := by decide
    exact of_decide_eq_true (List.all_eq_true.mp hall c hc)
  scalar t h := by
    have hm : 'm' ∈ t.text := h.subset (by decide)
    cases t with
    | number k => exact absurd (isNumberChar_number k 'm' hm) (by decide)
    | true => exact absurd hm (by decide)
    | false => exact absurd hm (by decide)
    | null => exact absurd hm (by decide)

theorem ascii_metrics : ∀ c ∈ CHANNEL_METRICS_KEY.toList, c.toNat < 128 := by
  have hall : (CHANNEL_METRICS_KEY.toList.all fun c => decide (c.toNat < 128)) = true := by decide
  intro c hc
  exact of_decide_eq_true (List.all_eq_true.mp hall c hc)

theorem infix_textBytes {word : List Char} (hword : Word word) (hascii : ∀ c ∈ word, c.toNat < 128)
    {v : Visitor PassState} {r : List PathSeg → String → Option String} (hr : Replaces v r)
    {d : Document} {s : PassState} {res : Rewritten Node PassState}
    (h : rewrite v [] d.root s = some res) :
    Utf8.bytes (String.ofList word) <:+: textBytes (withRoot d res.item) ↔
      ∃ token ∈ tokens [] d.root, word <:+: relayed r token := by
  unfold textBytes
  rw [Utf8.infix_bytes_iff hascii hword.nonempty, ← infix_rewrite hword hr h]
  unfold withRoot Document.text
  dsimp only
  rw [infix_append_iff hword.nonempty (hword.notMem_ws d.lead), hword.infix_append_ws]

/-! ### One event -/

/-- A stream event: a text that parses, to a value that repeats no name. -/
structure MessagesEvent (readNumber : NumberToken → Option Number) where
  doc : Document
  value : Value
  depth : doc.root.depth < RECURSION_LIMIT
  reads : doc.root.value? readNumber = some value
  distinct : Distinct value

namespace MessagesEvent

variable (ids model) (e : MessagesEvent readNumber)

def payload : JsonSplice.Bytes := textBytes e.doc

/-- The event as it is relayed: rewritten, or as it came. -/
def relay : JsonSplice.Bytes := (ids.rewriteEventJson e.payload model).getD e.payload

/-- What is written where in the event. -/
def replacement : List PathSeg → String → Option String :=
  firstOf (ids.edits model (MessagesIds.wanted e.value))

/-- Metrics that are there are spelled letter for letter somewhere in what is relayed. -/
def MetricsSpelled : Prop :=
  e.value.get CHANNEL_METRICS_KEY = none ∨
    ∃ token ∈ tokens [] e.doc.root, CHANNEL_METRICS_KEY.toList <:+:
      relayed (e.replacement ids model) token

variable {ids model}

theorem pass_of_fits {res : Rewritten Node MessagesIds.PassState}
    (h : Fits (ids.visitor model allowed) e.doc .start res) :
    ids.spliceEvent e.payload model allowed =
      .ok ⟨if res.changed then some (textBytes (withRoot e.doc res.item)) else none,
        res.state.blockType, res.state.mapped⟩ := by
  unfold MessagesIds.spliceEvent payload
  rw [rewriteStringValues_of_fits h]

theorem exists_pass : ∃ allowed res, Fits (ids.visitor model allowed) e.doc .start res ∧
    (∀ q text, valueAt q e.value = some (.string text) →
      firstOf (ids.edits model allowed) q text = e.replacement ids model q text) ∧
    e.relay ids model =
      ((MessagesIds.stripChannelMetrics (textBytes (withRoot e.doc res.item))).getD
      (textBytes (withRoot e.doc res.item))) := by
  obtain ⟨first, hfirst⟩ := exists_fits (v := ids.visitor model .ALL) e.depth e.reads .start
  obtain ⟨hblockType, hid, htoolUseId⟩ := MessagesIds.first_pass e.reads e.distinct hfirst.rewrite
  have hrelay : ∀ {allowed} {res : Rewritten Node MessagesIds.PassState},
      Fits (ids.visitor model allowed) e.doc .start res →
      ((MessagesIds.stripChannelMetrics
        ((if res.changed then some (textBytes (withRoot e.doc res.item)) else none).getD
          e.payload)).or
          (if res.changed then some (textBytes (withRoot e.doc res.item)) else none)).getD
          e.payload =
      (MessagesIds.stripChannelMetrics (textBytes (withRoot e.doc res.item))).getD
        (textBytes (withRoot e.doc res.item)) := by
    intro allowed res h
    have hget :
        (if res.changed then some (textBytes (withRoot e.doc res.item)) else none).getD e.payload =
        textBytes (withRoot e.doc res.item) := getD_of_fits h
    rw [hget]
    cases MessagesIds.stripChannelMetrics (textBytes (withRoot e.doc res.item)) with
    | none => exact hget
    | some out => rfl
  have hwanted : BlockIds.of first.state.blockType = MessagesIds.wanted e.value := by
    rw [hblockType]
    rfl
  cases hexceeds : first.state.mapped.exceeds (MessagesIds.wanted e.value) with
  | true =>
    obtain ⟨second, hsecond⟩ :=
      exists_fits (v := ids.visitor model (MessagesIds.wanted e.value)) e.depth e.reads .start
    refine ⟨_, second, hsecond, fun q text _ => rfl, ?_⟩
    unfold relay MessagesIds.rewriteEventJson
    rw [e.pass_of_fits hfirst]
    dsimp only
    rw [hwanted, hexceeds, if_pos rfl, e.pass_of_fits hsecond]
    exact hrelay hsecond
  | false =>
    refine ⟨_, first, hfirst, ?_, ?_⟩
    · intro q text hq
      unfold BlockIds.exceeds at hexceeds
      rw [hid, htoolUseId] at hexceeds
      obtain ⟨hnoId, hnoToolUseId⟩ := Bool.or_eq_false_iff.mp hexceeds
      refine MessagesIds.firstOf_edits_all ?_ ?_ hq
      · intro hsome
        rw [hsome, Bool.true_and] at hnoId
        simpa using hnoId
      · intro hsome
        rw [hsome, Bool.true_and] at hnoToolUseId
        simpa using hnoToolUseId
    · unfold relay MessagesIds.rewriteEventJson
      rw [e.pass_of_fits hfirst]
      dsimp only
      rw [hwanted, hexceeds, if_neg Bool.false_ne_true]
      exact hrelay hfirst

theorem relayed_congr {r r' : List PathSeg → String → Option String}
    (h : ∀ q text, valueAt q e.value = some (.string text) → r q text = r' q text) :
    ∀ token ∈ tokens [] e.doc.root, relayed r token = relayed r' token := by
  rintro ⟨path, t⟩ hmem
  cases path with
  | none => rfl
  | some path =>
    obtain ⟨q, text, ⟨hpath, htext⟩, hvalue⟩ := valueAt_of_mem e.reads e.distinct hmem rfl
    rw [List.append_nil, Option.some.injEq] at hpath
    dsimp only at hpath htext
    unfold relayed
    dsimp only
    rw [hpath, List.reverse_reverse, htext, Option.bind_some, Option.bind_some, h q text hvalue]

/-- **The relayed text is a text of the rewritten event if and only if metrics that are there are
spelled out.** -/
theorem parses_relay_iff :
    Parses readNumber (e.relay ids model)
      (ids.applyToEvent (MessagesIds.stampModel model e.value)) ↔
      e.MetricsSpelled ids model := by
  obtain ⟨allowed, res, hfits, hsame, hrelay⟩ := @exists_pass _ ids model e
  have hvalue :
      res.item.value? readNumber = some (mapPure (e.replacement ids model) [] e.value) := by
    obtain ⟨hmapped, -⟩ := value?_rewrite hfits.rewrite e.reads
    rw [hmapped, mapStrings_fst MessagesIds.replaces, mapPure_congr e.distinct hsame]
  have hdepth : (withRoot e.doc res.item).root.depth < RECURSION_LIMIT := by
    have hkept := depth_rewrite hfits.rewrite
    unfold withRoot
    dsimp only
    rw [hkept]
    exact e.depth
  have happlied : ids.applyToEvent (MessagesIds.stampModel model e.value) =
      withoutMember CHANNEL_METRICS_KEY (mapPure (e.replacement ids model) [] e.value) := by
    unfold replacement
    rw [MessagesIds.applyToEvent_eq, mapPure_firstOf MessagesIds.nodup_edits e.distinct]
  have hspelled : Utf8.bytes CHANNEL_METRICS_KEY <:+: textBytes (withRoot e.doc res.item) ↔
      ∃ token ∈ tokens [] e.doc.root, CHANNEL_METRICS_KEY.toList <:+:
        relayed (e.replacement ids model) token := by
    have hoccurs := infix_textBytes word_metrics ascii_metrics MessagesIds.replaces hfits.rewrite
    rw [String.ofList_toList] at hoccurs
    rw [hoccurs]
    refine exists_congr fun token => and_congr_right fun hmem => ?_
    rw [e.relayed_congr hsame token hmem]
  have hkey : (mapPure (e.replacement ids model) [] e.value).get CHANNEL_METRICS_KEY = none ↔
      e.value.get CHANNEL_METRICS_KEY = none := get_mapPure
  unfold MetricsSpelled
  rw [hrelay, happlied, ← hspelled, ← hkey]
  unfold MessagesIds.stripChannelMetrics
  split
  · next hthere =>
    have hremoval :
        ∃ out, removeTopLevelMember (textBytes (withRoot e.doc res.item)) CHANNEL_METRICS_KEY =
        some (.ok out) ∧ Parses readNumber (out.getD (textBytes (withRoot e.doc res.item)))
          (withoutMember CHANNEL_METRICS_KEY (mapPure (e.replacement ids model) [] e.value)) :=
      parses_removeTopLevelMember hdepth hvalue
    obtain ⟨out, hremoved, hparses⟩ := hremoval
    rw [hremoved]
    exact iff_of_true hparses (.inr hthere)
  · next hmissing =>
    rw [Option.getD_none]
    by_cases hnone : (mapPure (e.replacement ids model) [] e.value).get CHANNEL_METRICS_KEY = none
    · rw [withoutMember_of_get hnone]
      exact iff_of_true ⟨_, rfl, hdepth, hvalue⟩ (.inl hnone)
    · refine iff_of_false (not_parses_withoutMember hdepth hvalue hnone) ?_
      rintro (h | h)
      · exact hnone h
      · exact hmissing h

end MessagesEvent

/-- **Over a stream the two ways agree on every event if and only if every event's metrics are
spelled out.** -/
theorem events_agree_iff (ids : MessagesIds) (model : String)
    (readNumber : NumberToken → Option Number) (events : List (MessagesEvent readNumber)) :
    List.Forall₂ (Parses readNumber) (events.map fun e => e.relay ids model)
        (events.map fun e => ids.applyToEvent (MessagesIds.stampModel model e.value)) ↔
      ∀ e ∈ events, e.MetricsSpelled ids model := by
  rw [List.forall₂_map_left_iff, List.forall₂_map_right_iff, List.forall₂_same]
  constructor
  · intro h e he
    exact e.parses_relay_iff.mp (h e he)
  · intro h e he
    exact e.parses_relay_iff.mpr (h e he)

/-! ### Metrics spelled with an escape -/

/-- The metrics' name with its first letter escaped. -/
def escapedName : Name :=
  ⟨⟨.unicode ⟨'0', '0', '6', '1', by decide⟩ ::
      CHANNEL_METRICS_KEY.toList.tail.pmap (fun c h => .plain c h)
        (List.all_eq_true.mp (by decide))⟩, .empty, .empty⟩

theorem decode_escapedName : escapedName.key.decode = some CHANNEL_METRICS_KEY := by decide

def escapedMetrics : MessagesEvent fun _ => none where
  doc := ⟨.empty, .object .empty escapedName (.scalar .null) [] .empty, .empty⟩
  value := .object [(CHANNEL_METRICS_KEY, .null)]
  depth := by decide
  reads := by
    dsimp only
    rw [Node.value?, decode_escapedName]
    rfl
  distinct := by simp [Distinct, fieldsDistinct]

theorem escaped_metrics_relayed :
    ¬ ∀ (ids : MessagesIds) (model : String) (readNumber : NumberToken → Option Number)
      (events : List (MessagesEvent readNumber)),
      List.Forall₂ (Parses readNumber) (events.map fun e => e.relay ids model)
        (events.map fun e => ids.applyToEvent (MessagesIds.stampModel model e.value)) := by
  intro h
  have hevent := h ⟨id, "msg"⟩ "m" _ [escapedMetrics]
  rw [List.map_singleton, List.map_singleton, List.forall₂_cons] at hevent
  rcases escapedMetrics.parses_relay_iff.mp hevent.1 with hnone | ⟨token, hmem, hoccurs⟩
  · exact absurd hnone (by decide)
  · obtain rfl := List.mem_singleton.mp hmem
    exact absurd hoccurs (by decide)

end OpaqueId
end Aisix
