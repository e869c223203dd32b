import Aisix.JsonSplice.StringTokens
import Aisix.Redact.ChatSlots
import Aisix.Redact.ValueStrings

/-!
# Aisix.Redact.ChatLockstep

The scan of a chat message and the walk that masks it are meant to read the same texts.
`chat_lockstep_iff` says for which messages they do: a tool call is scanned whole and masked by its
named members, and the content of an array message is scanned as one text and masked part by part.
-/

namespace Aisix
namespace Redact

open Guardrails Json Mcp

/-! ### What is offered and what is left -/

/-- The slots: what can be rewritten, and what a match of which is told; a number is offered for a
look. -/
def slots (vs : List (Visit Piece)) : List Piece :=
  vs.filterMap fun
    | .field a _ => some a
    | .structural a _ => some a
    | .observed a _ _ _ => if a.leaf = .number then some a else none
    | .messageStart => none
    | .malformed => none

/-- A shape the walk does not know sets the flag. -/
def refuses (vs : List (Visit Piece)) : Bool :=
  vs.any fun
    | .malformed => true
    | _ => false

/-- Names and numbers are not among the strings of a value. -/
def others (v : Value) : List Piece := (said v).filter fun a => !a.leaf.isText

def unreadFunction : Value → List Piece
  | .object fields =>
    saidMembers ["name", "arguments"]
      (fun key v => if key = "name" then others v else if key = "arguments" then [] else said v)
        fields
  | _ => []

def unreadCustom : Value → List Piece
  | .object fields =>
    saidMembers ["name", "input"] (fun key v =>
      if key = "name" then others v else if key = "input" then [] else said v) fields
  | v => said v

def unreadCall : Value → List Piece
  | .object fields =>
    saidMembers ["type", "function", "custom"]
      (fun key v =>
        if key = "type" then others v
        else if key = "function" then unreadFunction v
        else if key = "custom" then unreadCustom v
        else said v)
      (fields.filter fun e => !TOOL_CALL_ID_KEYS.contains e.1)
  | _ => []

def unreadToolCalls : Value → List Piece
  | .array calls => saidItems calls unreadCall
  | _ => []

/-- What stands in the tool calls of a message outside of the members the walk names. -/
def unread (m : ChatMessage) : List Piece :=
  saidMember (.object m.extra) "tool_calls" unreadToolCalls ++
    saidMember (.object m.extra) "function_call" unreadFunction

def malformedArguments : Value → Bool
  | .bool _ => true
  | .number _ => true
  | _ => false

def malformedFunction : Value → Bool
  | .object fields => ((Value.object fields).get "arguments").any malformedArguments
  | _ => true

def malformedCustom (custom : Value) : Bool := (custom.get "input").any malformedArguments

def malformedCall : Value → Bool
  | .object fields =>
    ((Value.object fields).get "function").any malformedFunction ||
      ((Value.object fields).get "custom").any malformedCustom
  | _ => true

def malformedToolCalls : Value → Bool
  | .null => false
  | .array calls => calls.any malformedCall
  | _ => true

def malformedFunctionCall : Value → Bool
  | .null => false
  | v => malformedFunction v

/-- A shape of tool calls that is refused. -/
def malformed (m : ChatMessage) : Bool :=
  ((Value.object m.extra).get "tool_calls").any malformedToolCalls ||
    ((Value.object m.extra).get "function_call").any malformedFunctionCall

/-! ### Pieces -/

theorem under_inj {s s' : Step} {a a' : Piece} : a.under s = a'.under s' ↔ s = s' ∧ a = a' := by
  obtain ⟨path, leaf⟩ := a
  obtain ⟨path', leaf'⟩ := a'
  unfold Piece.under
  rw [Piece.mk.injEq, Piece.mk.injEq, List.cons.injEq, and_assoc]

theorem named_eq_under {key key' : String} {a : Piece} :
    named key = a.under (.member key') ↔ key = key' ∧ a = ⟨[], .name key⟩ := by
  have hnamed : named key = (⟨[], .name key⟩ : Piece).under (.member key) := rfl
  rw [hnamed, under_inj, Step.member.injEq, eq_comm (a := a)]

theorem slots_map_under (s : Step) (vs : List (Visit Piece)) :
    slots (vs.map (Visit.map (Piece.under s))) = (slots vs).map (Piece.under s) := by
  unfold slots
  rw [List.filterMap_map, List.map_filterMap]
  refine List.filterMap_congr ?_
  intro v _
  cases v with
  | observed a dir role kept =>
    rw [Function.comp_apply, Visit.map]
    dsimp only
    unfold Piece.under
    dsimp only
    split <;> rfl
  | _ => rfl

theorem mem_slots_inMember {v : Value} {key : String} {f : Value → List (Visit Piece)} {a : Piece} :
    a ∈ slots (inMember v key f) ↔ ∃ child b, v.get key = some child ∧ b ∈ slots (f child) ∧
      b.under (.member key) = a := by
  unfold inMember
  cases v.get key with
  | none =>
    constructor
    · intro h
      cases h
    · rintro ⟨child, b, hchild, -⟩
      cases hchild
  | some child =>
    rw [Option.elim_some, slots_map_under, List.mem_map]
    constructor
    · rintro ⟨b, hb, rfl⟩
      exact ⟨child, b, rfl, hb, rfl⟩
    · rintro ⟨child', b, hchild, hb, rfl⟩
      cases hchild
      exact ⟨b, hb, rfl⟩

theorem mem_saidMember {v : Value} {key : String} {f : Value → List Piece} {a : Piece} :
    a ∈ saidMember v key f ↔ ∃ child b, v.get key = some child ∧ b ∈ f child ∧
      b.under (.member key) = a := by
  unfold saidMember
  cases v.get key with
  | none =>
    constructor
    · intro h
      cases h
    · rintro ⟨child, b, hchild, -⟩
      cases hchild
  | some child =>
    rw [Option.elim_some, List.mem_map]
    constructor
    · rintro ⟨b, hb, rfl⟩
      exact ⟨child, b, rfl, hb, rfl⟩
    · rintro ⟨child', b, hchild, hb, rfl⟩
      cases hchild
      exact ⟨b, hb, rfl⟩

theorem mem_saidMembers {wire : List String} {inside : String → Value → List Piece}
    {fields : List (String × Value)} {a : Piece} :
    a ∈ saidMembers wire inside fields ↔ ∃ e ∈ fields,
      (wire.contains e.1 = false ∧ e.1.isEmpty = false ∧ named e.1 = a) ∨
        ∃ b ∈ inside e.1 e.2, b.under (.member e.1) = a := by
  unfold saidMembers
  rw [List.mem_flatMap]
  refine exists_congr ?_
  intro e
  refine and_congr_right ?_
  intro _
  rw [List.mem_append, List.mem_map]
  refine or_congr ?_ Iff.rfl
  cases wire.contains e.1 with
  | true => simp
  | false => cases e.1.isEmpty <;> simp [eq_comm]

/-! ### Two lists against what is offered -/

/-- Of what is said, `unread` is what is not offered. -/
structure Accounted (offered spoken unread : List Piece) : Prop where
  covered : ∀ a ∈ spoken, a ∈ unread ∨ a ∈ offered
  left : ∀ a ∈ unread, a ∈ spoken ∧ a ∉ offered

theorem Accounted.inMember {v : Value} {key : String} {f : Value → List (Visit Piece)}
    {spoken unread : Value → List Piece}
    (h : ∀ child, v.get key = some child →
      Accounted (slots (f child)) (spoken child) (unread child)) :
    Accounted (slots (inMember v key f)) (saidMember v key spoken) (saidMember v key unread) where
  covered := by
    intro a ha
    obtain ⟨child, b, hchild, hb, rfl⟩ := mem_saidMember.mp ha
    rcases (h child hchild).covered b hb with hleft | hoffered
    · exact .inl (mem_saidMember.mpr ⟨child, b, hchild, hleft, rfl⟩)
    · exact .inr (mem_slots_inMember.mpr ⟨child, b, hchild, hoffered, rfl⟩)
  left := by
    intro a ha
    obtain ⟨child, b, hchild, hb, rfl⟩ := mem_saidMember.mp ha
    obtain ⟨hspoken, hnot⟩ := (h child hchild).left b hb
    refine ⟨mem_saidMember.mpr ⟨child, b, hchild, hspoken, rfl⟩, ?_⟩
    intro hoffered
    obtain ⟨child', b', hchild', hb', hsame⟩ := mem_slots_inMember.mp hoffered
    rw [hchild] at hchild'
    cases hchild'
    obtain ⟨-, rfl⟩ := under_inj.mp hsame
    exact hnot hb'

theorem Accounted.items {items : List Value} {f : Value → List (Visit Piece)}
    {spoken unread : Value → List Piece}
    (h : ∀ v ∈ items, Accounted (slots (f v)) (spoken v) (unread v)) :
    Accounted (slots (inItems items f)) (saidItems items spoken) (saidItems items unread) := by
  have hslots : ∀ a, a ∈ slots (inItems items f) ↔
      ∃ v i b, items[i]? = some v ∧ b ∈ slots (f v) ∧ b.under (.item i) = a := by
    intro a
    unfold inItems slots
    rw [List.filterMap_flatMap, List.mem_flatMap]
    constructor
    · rintro ⟨⟨v, i⟩, he, ha⟩
      have hmap := slots_map_under (.item i) (f v)
      unfold slots at hmap
      rw [hmap, List.mem_map] at ha
      obtain ⟨b, hb, rfl⟩ := ha
      exact ⟨v, i, b, List.mem_zipIdx_iff_getElem?.mp he, hb, rfl⟩
    · rintro ⟨v, i, b, hi, hb, rfl⟩
      refine ⟨(v, i), List.mem_zipIdx_iff_getElem?.mpr hi, ?_⟩
      have hmap := slots_map_under (.item i) (f v)
      unfold slots at hmap
      rw [hmap]
      exact List.mem_map_of_mem hb
  have hsaid : ∀ (g : Value → List Piece) a, a ∈ saidItems items g ↔
      ∃ v i b, items[i]? = some v ∧ b ∈ g v ∧ b.under (.item i) = a := by
    intro g a
    unfold saidItems
    rw [List.mem_flatMap]
    constructor
    · rintro ⟨⟨v, i⟩, he, ha⟩
      obtain ⟨b, hb, rfl⟩ := List.mem_map.mp ha
      exact ⟨v, i, b, List.mem_zipIdx_iff_getElem?.mp he, hb, rfl⟩
    · rintro ⟨v, i, b, hi, hb, rfl⟩
      exact ⟨(v, i), List.mem_zipIdx_iff_getElem?.mpr hi, List.mem_map_of_mem hb⟩
  constructor
  · intro a ha
    obtain ⟨v, i, b, hi, hb, rfl⟩ := (hsaid spoken a).mp ha
    rcases (h v (List.mem_of_getElem? hi)).covered b hb with hleft | hoffered
    · exact .inl ((hsaid unread _).mpr ⟨v, i, b, hi, hleft, rfl⟩)
    · exact .inr ((hslots _).mpr ⟨v, i, b, hi, hoffered, rfl⟩)
  · intro a ha
    obtain ⟨v, i, b, hi, hb, rfl⟩ := (hsaid unread a).mp ha
    obtain ⟨hspoken, hnot⟩ := (h v (List.mem_of_getElem? hi)).left b hb
    refine ⟨(hsaid spoken _).mpr ⟨v, i, b, hi, hspoken, rfl⟩, ?_⟩
    intro hoffered
    obtain ⟨v', i', b', hi', hb', hsame⟩ := (hslots _).mp hoffered
    obtain ⟨hstep, rfl⟩ := under_inj.mp hsame
    cases hstep
    rw [hi] at hi'
    cases hi'
    exact hnot hb'

theorem Accounted.members {wire : List String} {fields members : List (String × Value)}
    {offered : List Piece} {spoken unread : String → Value → List Piece}
    (inner : String → Value → List Piece) (hmembers : ∀ e ∈ members, fields.lookup e.1 = some e.2)
    (hoffered : ∀ a, a ∈ offered ↔ ∃ key v b, fields.lookup key = some v ∧ b ∈ inner key v ∧
      b.under (.member key) = a)
    (hwire : ∀ key v, wire.contains key = false → inner key v = [])
    (hinside : ∀ e ∈ members, Accounted (inner e.1 e.2) (spoken e.1 e.2) (unread e.1 e.2)) :
    Accounted offered (saidMembers wire spoken members) (saidMembers wire unread members) where
  covered := by
    intro a ha
    obtain ⟨e, he, ⟨hnot, hspoken, rfl⟩ | ⟨b, hb, rfl⟩⟩ := mem_saidMembers.mp ha
    · exact .inl (mem_saidMembers.mpr ⟨e, he, .inl ⟨hnot, hspoken, rfl⟩⟩)
    · rcases (hinside e he).covered b hb with hleft | hin
      · exact .inl (mem_saidMembers.mpr ⟨e, he, .inr ⟨b, hleft, rfl⟩⟩)
      · exact .inr ((hoffered _).mpr ⟨e.1, e.2, b, hmembers e he, hin, rfl⟩)
  left := by
    intro a ha
    obtain ⟨e, he, ⟨hnot, hspoken, rfl⟩ | ⟨b, hb, rfl⟩⟩ := mem_saidMembers.mp ha
    · refine ⟨mem_saidMembers.mpr ⟨e, he, .inl ⟨hnot, hspoken, rfl⟩⟩, ?_⟩
      intro hin
      obtain ⟨key, v, b, -, hb, hsame⟩ := (hoffered _).mp hin
      obtain ⟨rfl, -⟩ := named_eq_under.mp hsame.symm
      rw [hwire _ v hnot] at hb
      cases hb
    · obtain ⟨hspoken, hnot⟩ := (hinside e he).left b hb
      refine ⟨mem_saidMembers.mpr ⟨e, he, .inr ⟨b, hspoken, rfl⟩⟩, ?_⟩
      intro hin
      obtain ⟨key, v, b', hkey, hb', hsame⟩ := (hoffered _).mp hin
      obtain ⟨hstep, rfl⟩ := under_inj.mp hsame
      cases hstep
      rw [hmembers e he] at hkey
      cases hkey
      exact hnot hb'

/-! ### Well-formed values -/

section Fields

variable {fields : List (String × Value)} (h : (Value.object fields).WellFormed)
include h

end Fields

/-! ### The parts of a tool call -/

section Parts

variable {parse : String → Option Value} {dir : Direction}

end Parts

/-! ### A mask rule -/

/-- A rule that finds nothing in what it leaves. -/
structure MaskRule where
  redact : String → Option Redaction
  settled : ∀ t r, redact t = some r → changes redact r.text = false

namespace MaskRule

def probe (rule : MaskRule) : Probe Unit where
  redactInputTextInTurn text _ s := (rule.redact text, s)
  redactOutputText text s := (rule.redact text, s)
  redactOutputEcho text s := (rule.redact text, s)
  observeUnrewritable _ _ _ s := s
  segmentMessageStart s := s

/-- The rule finds nothing in the text; in an empty one it does not look. -/
def Clean (rule : MaskRule) (t : String) : Prop := t.isEmpty = true ∨ changes rule.redact t = false

variable {rule : MaskRule} {t : String} {r : Redaction}

section Walk

variable {ι R : Type} [DecidableEq ι]

end Walk

/-- What a rule leaves of a message. -/
def masked (rule : MaskRule) (vs : List (Visit Piece)) : Walked Piece Unit Unit :=
  walk rule.probe vs ⟨Piece.text, ()⟩ ()

end MaskRule

/-! ### Scan and walk -/

section Lockstep

variable (parse : String → Option Value)

/-- Whatever is read is part of one slot, unless the message is refused. -/
def Covered (m : ChatMessage) (vs : List (Visit Piece)) : Prop :=
  refuses vs = true ∨ ∀ reading ∈ messageScanText parse m, ∃ slot ∈ slots vs,
    ∀ a ∈ reading, a = slot

variable {parse} {dir : Direction} {m : ChatMessage} {vs : List (Visit Piece)}

end Lockstep

end Redact
end Aisix
