import Aisix.KeyMap
import Aisix.Overlay
import Mathlib.Data.UInt

/-!
# Aisix.Guardrails.Segments

A chain of guardrails moderates the text segments of a request: each member reads the segments of
its window, as the members before it left them, and its mask is written back there. `foldSegments`
is the fold as the code makes it; `composed` is what stands at each segment behind a list of
members, and `fold_segments_exact` compares the two.
-/

namespace Aisix
namespace Guardrails

open Overlay

inductive GuardrailVerdict where
  | allow
  | block (reason : String) (guardrailName unavailable : Option String)
  | bypass (reason : String)
  deriving DecidableEq, Repr

def boundedFailureTag (tag : String) : String :=
  let cleaned :=
    ((tag.toList.map Char.toLower).filter fun c => c.isLower || c.isDigit || c == '_').take 64
  if cleaned.isEmpty then "unknown" else String.ofList cleaned

namespace GuardrailVerdict

def isBlock : GuardrailVerdict → Bool
  | .block .. => true
  | _ => false

def bypassReason : GuardrailVerdict → Option String
  | .bypass reason => some reason
  | _ => none

def blockUnavailable (reason tag : String) : GuardrailVerdict :=
  .block reason none (some (boundedFailureTag tag))

end GuardrailVerdict

/-- The counts of the masked spans, by the name of their detector. -/
abbrev Counts := KeyMap String UInt32

namespace Counts

def get (m : Counts) (k : String) : UInt32 := (m.lookup k).getD 0

def add (m : Counts) (e : Σ _ : String, UInt32) : Counts := m.insert e.1 (m.get e.1 + e.2)

def mergeCounts (into other : Counts) : Counts := other.entries.foldl add into

@[simp] theorem get_empty (k : String) : get ∅ k = 0 := rfl

theorem get_add (m : Counts) (e : Σ _ : String, UInt32) (k : String) :
    (m.add e).get k = m.get k + if e.1 = k then e.2 else 0 := by
  unfold add get
  by_cases hk : e.1 = k
  · subst hk
    rw [AList.lookup_insert, if_pos rfl, Option.getD_some]
  · rw [AList.lookup_insert_ne fun heq => hk heq.symm, if_neg hk, UInt32.add_zero]

theorem get_mergeCounts (into other : Counts) (k : String) :
    (mergeCounts into other).get k = into.get k + other.get k := by
  have hnodup := other.nodupKeys
  have hget : other.get k = (other.entries.dlookup k).getD 0 := rfl
  rw [hget]
  unfold mergeCounts
  revert hnodup
  generalize other.entries = es
  intro hnodup
  induction es generalizing into with
  | nil => simp
  | cons e es ih =>
    obtain ⟨k', n⟩ := e
    obtain ⟨hout, hrest⟩ := List.nodupKeys_cons.mp hnodup
    rw [List.foldl_cons, ih (into.add ⟨k', n⟩) hrest, get_add]
    by_cases hk : k' = k
    · subst hk
      rw [if_pos rfl, List.dlookup_eq_none.mpr hout, List.dlookup_cons_eq]
      simp
    · rw [if_neg hk, UInt32.add_zero, List.dlookup_cons_ne _ _ fun heq => hk heq.symm]

end Counts

/-- What a member, or the chain, says of a list of segments; `Hit` are the observations of monitored
members. -/
structure SegmentsOutcome (Hit : Type) where
  verdict : GuardrailVerdict
  masked : Option (List String)
  counts : Counts
  monitorHits : List Hit

inductive GuardrailInputMessages where
  | all
  | latestTurn
  deriving DecidableEq, Repr

/-- A member, with the answers of its guardrail; the input side is told where the newest message
begins and the model. -/
structure ChainMember (Hit : Type) where
  name : String
  inputMessages : GuardrailInputMessages
  moderatesSegments : Bool
  runsOnInput : Bool
  runsOnOutput : Bool
  moderateInputSegmentsForModel : List String → Option Nat → Option String → SegmentsOutcome Hit
  moderateOutputSegments : List String → SegmentsOutcome Hit

def attributeBlock (memberName reason : String) (guardrailName unavailable : Option String) :
    GuardrailVerdict :=
  match guardrailName with
  | some _ => .block reason guardrailName unavailable
  | none => .block ("guardrail '" ++ memberName ++ "': " ++ reason) (some memberName) unavailable

/-- The arguments of a fold that stay the same from member to member. -/
structure Call where
  newestFrom : Option Nat
  input : Bool
  inLatestTurn : Option (List Bool)
  model : Option String

structure Progress (Hit : Type) where
  masked : Option (List String)
  counts : Counts
  bypass : Option String
  monitorHits : List Hit

section

variable {Hit : Type}

namespace ChainMember

variable (m : ChainMember Hit) (call : Call)

def applies : Bool := if call.input then m.runsOnInput else m.runsOnOutput

/-- The slots the member may read; a flag that is missing counts as set. -/
def reads (i : Nat) : Bool :=
  match m.inputMessages, call.inLatestTurn with
  | .latestTurn, some flags => (flags[i]?).getD true
  | _, _ => true

/-- The slots the member may read as indices into the list; `none` is all of them. -/
def window (full : List String) : Option (List Nat) :=
  match m.inputMessages, call.inLatestTurn with
  | .latestTurn, some flags =>
    let idx := (List.range full.length).filter fun i => (flags[i]?).getD true
    if idx.length ≠ full.length then some idx else none
  | _, _ => none

def source (full : List String) : List String :=
  match m.window call full with
  | some idx => idx.map fun i => full.getD i ""
  | none => full

def memberNewest (full : List String) : Option Nat :=
  match m.window call full, call.newestFrom with
  | some idx, some newest => idx.findIdx? (newest ≤ ·)
  | _, newest => newest

/-- The guardrail's own answer. -/
def answer (full : List String) : SegmentsOutcome Hit :=
  if call.input then m.moderateInputSegmentsForModel (m.source call full)
    (m.memberNewest call full) call.model
  else m.moderateOutputSegments (m.source call full)

/-- The answer, with a mask that does not fit its window turned into a block. -/
def outcome (full : List String) : SegmentsOutcome Hit :=
  let answer := m.answer call full
  match answer.masked with
  | some masked =>
    if masked.length ≠ (m.source call full).length then
      { answer with
        masked := none
        counts := ∅
        verdict :=
          if answer.verdict.isBlock then answer.verdict
          else .blockUnavailable "segment moderation returned misaligned mask"
            "mask_writeback_failed" }
    else answer
  | none => answer

/-- The segments with a mask of the member's window written into them. -/
def writeBack (full newMasked : List String) : List String :=
  match m.window call full with
  | some idx => setAll (idx.zip newMasked) full
  | none => newMasked

end ChainMember

/-- One turn of the loop; an error is the outcome the fold returns at once. -/
def foldStep (texts : List String) (call : Call) (p : Progress Hit) (m : ChainMember Hit) :
    Except (SegmentsOutcome Hit) (Progress Hit) :=
  if m.moderatesSegments = false ∨ m.applies call = false then .ok p
  else
    let full := p.masked.getD texts
    let outcome := m.outcome call full
    let monitorHits := p.monitorHits ++ outcome.monitorHits
    match outcome.verdict with
    | .block reason guardrailName unavailable =>
      .error ⟨attributeBlock m.name reason guardrailName unavailable, none, ∅, monitorHits⟩
    | verdict =>
      let bypass := p.bypass.or verdict.bypassReason
      match outcome.masked with
      | some newMasked =>
        .ok ⟨some (m.writeBack call full newMasked), p.counts.mergeCounts outcome.counts,
          bypass, monitorHits⟩
      | none => .ok ⟨p.masked, p.counts, bypass, monitorHits⟩

def foldFrom (texts : List String) (call : Call) (p : Progress Hit) :
    List (ChainMember Hit) → SegmentsOutcome Hit
  | [] => ⟨p.bypass.elim .allow .bypass, p.masked, p.counts, p.monitorHits⟩
  | m :: members =>
    match foldStep texts call p m with
    | .error outcome => outcome
    | .ok p => foldFrom texts call p members

def foldSegments (members : List (ChainMember Hit)) (texts : List String) (call : Call) :
    SegmentsOutcome Hit :=
  foldFrom texts call ⟨none, ∅, none, []⟩ members

/-! ### What a chain is to leave -/

namespace ChainMember

variable (m : ChainMember Hit) (call : Call)

/-- The member blocks, or its mask does not have the length of its window. -/
def Fails (full : List String) : Prop :=
  (m.answer call full).verdict.isBlock = true ∨
    ∃ mask, (m.answer call full).masked = some mask ∧
      mask.length ≠ (positions (m.reads call) full.length).length

/-- The segments behind the member. -/
def apply (full : List String) : List String :=
  match (m.answer call full).masked with
  | some mask => overlay (m.reads call) mask full
  | none => full

end ChainMember

def takesPart (call : Call) (m : ChainMember Hit) : Bool := m.moderatesSegments && m.applies call

/-- The segments behind the members, each on what the one before it left. -/
def composed (call : Call) (members : List (ChainMember Hit)) (texts : List String) : List String :=
  members.foldl (fun full m => m.apply call full) texts

/-- The members' answers along the chain. -/
def answers (call : Call) : List (ChainMember Hit) → List String → List (SegmentsOutcome Hit)
  | [], _ => []
  | m :: members, texts => m.answer call texts :: answers call members (m.apply call texts)

/-- The counts of an answer's mask. -/
def maskCount (k : String) (answer : SegmentsOutcome Hit) : UInt32 :=
  if answer.masked.isSome then answer.counts.get k else 0

/-- Some member fails, on what the members before it left. -/
def Refused (call : Call) (members : List (ChainMember Hit)) (texts : List String) : Prop :=
  ∃ before m after, members = before ++ m :: after ∧ m.Fails call (composed call before texts)

variable {call : Call} {m : ChainMember Hit} {members : List (ChainMember Hit)}
    {texts full : List String}

/-! ### One member -/

namespace ChainMember

theorem window_eq (m : ChainMember Hit) (call : Call) (full : List String) : m.window call full =
    if (positions (m.reads call) full.length).length ≠
      full.length then some (positions (m.reads call) full.length)
    else none := by
  have hall : positions (fun _ => true) full.length = List.range full.length := List.filter_true _
  unfold window reads
  cases m.inputMessages with
  | all => simp [hall]
  | latestTurn =>
    cases call.inLatestTurn with
    | none => simp [hall]
    | some flags => rfl

theorem length_source (m : ChainMember Hit) (call : Call) (full : List String) :
    (m.source call full).length = (positions (m.reads call) full.length).length := by
  unfold source
  rw [window_eq]
  by_cases hall : (positions (m.reads call) full.length).length = full.length
  · rw [if_neg (not_not.mpr hall)]
    exact hall.symm
  · rw [if_pos hall]
    exact List.length_map _

theorem writeBack_eq {mask : List String}
    (h : mask.length = (positions (m.reads call) full.length).length) :
    m.writeBack call full mask = overlay (m.reads call) mask full := by
  unfold writeBack
  rw [window_eq]
  by_cases hall : (positions (m.reads call) full.length).length = full.length
  · rw [if_neg (not_not.mpr hall)]
    exact (overlay_all (length_positions_eq_iff.mp hall) (h.trans hall)).symm
  · rw [if_pos hall]
    exact setAll_zip_positions _ h

theorem outcome_of_not_fails (h : ¬ m.Fails call full) :
    m.outcome call full = m.answer call full := by
  unfold outcome
  dsimp only
  split
  · next mask hmask =>
    rw [length_source]
    by_cases hlength : mask.length = (positions (m.reads call) full.length).length
    · exact if_neg (not_not.mpr hlength)
    · exact absurd (.inr ⟨mask, hmask, hlength⟩) h
  · rfl

theorem isBlock_of_fails (h : m.Fails call full) :
    (m.outcome call full).verdict.isBlock = true := by
  unfold outcome
  dsimp only
  split
  · next mask hmask =>
    rw [length_source]
    by_cases hlength : mask.length = (positions (m.reads call) full.length).length
    · rw [if_neg (not_not.mpr hlength)]
      obtain hblock | ⟨mask', hmask', hne⟩ := h
      · exact hblock
      · rw [hmask] at hmask'
        cases hmask'
        exact absurd hlength hne
    · rw [if_pos hlength]
      dsimp only
      split
      · next hblock => exact hblock
      · rfl
  · next hmask =>
    obtain hblock | ⟨mask', hmask', -⟩ := h
    · exact hblock
    · rw [hmask] at hmask'
      cases hmask'

@[simp] theorem length_apply (m : ChainMember Hit) (call : Call) (full : List String) :
    (m.apply call full).length = full.length := by
  unfold apply
  split
  · exact length_overlay ..
  · rfl

end ChainMember

theorem takesPart_iff :
    takesPart call m = true ↔ ¬ (m.moderatesSegments = false ∨ m.applies call = false) := by
  simp [takesPart]

theorem foldStep_of_not_takesPart (h : takesPart call m = false) (p : Progress Hit) :
    foldStep texts call p m = .ok p := by
  have hskip : m.moderatesSegments = false ∨ m.applies call = false := by
    by_contra hnot
    rw [takesPart_iff.mpr hnot] at h
    cases h
  exact if_pos hskip

theorem foldStep_of_fails (htakes : takesPart call m = true) {p : Progress Hit}
    (h : m.Fails call (p.masked.getD texts)) :
    ∃ verdict hits, foldStep texts call p m = .error ⟨verdict, none, ∅, hits⟩ ∧
      verdict.isBlock = true := by
  have hblock := ChainMember.isBlock_of_fails h
  unfold foldStep
  rw [if_neg (takesPart_iff.mp htakes)]
  dsimp only
  cases hverdict : (m.outcome call (p.masked.getD texts)).verdict with
  | allow => rw [hverdict] at hblock; cases hblock
  | bypass reason => rw [hverdict] at hblock; cases hblock
  | block reason guardrailName unavailable =>
    refine ⟨_, _, rfl, ?_⟩
    cases guardrailName <;> rfl

/-- A member that does not fail, and what the fold remembers of it. -/
structure Goes (texts : List String) (call : Call) (m : ChainMember Hit) (p p' : Progress Hit) :
    Prop where
  text : p'.masked.getD texts = m.apply call (p.masked.getD texts)
  masked :
    p'.masked.isSome = (p.masked.isSome || (m.answer call (p.masked.getD texts)).masked.isSome)
  counts : ∀ k, p'.counts.get k = p.counts.get k + maskCount k (m.answer call (p.masked.getD texts))
  bypass : p'.bypass = p.bypass.or (m.answer call (p.masked.getD texts)).verdict.bypassReason
  hits : p'.monitorHits = p.monitorHits ++ (m.answer call (p.masked.getD texts)).monitorHits

theorem foldStep_of_not_fails (htakes : takesPart call m = true) {p : Progress Hit}
    (h : ¬ m.Fails call (p.masked.getD texts)) :
    ∃ p', foldStep texts call p m = .ok p' ∧ Goes texts call m p p' := by
  have hpasses : (m.answer call (p.masked.getD texts)).verdict.isBlock = false := by
    rw [← Bool.not_eq_true]
    exact fun hblock => h (.inl hblock)
  have hfits : ∀ mask, (m.answer call (p.masked.getD texts)).masked = some mask →
      m.writeBack call (p.masked.getD texts) mask = m.apply call (p.masked.getD texts) := by
    intro mask hmask
    have hlength :
        mask.length = (positions (m.reads call) (p.masked.getD texts).length).length := by
      by_contra hne
      exact h (.inr ⟨mask, hmask, hne⟩)
    rw [ChainMember.writeBack_eq hlength, ChainMember.apply, hmask]
  unfold foldStep
  rw [if_neg (takesPart_iff.mp htakes)]
  dsimp only
  rw [ChainMember.outcome_of_not_fails h]
  generalize hanswer : m.answer call (p.masked.getD texts) = answer at hpasses hfits
  have hmasked : ∀ verdict : GuardrailVerdict, verdict.bypassReason = answer.verdict.bypassReason →
      ∃ p', (match answer.masked with
        | some newMasked => (Except.ok ⟨some (m.writeBack call (p.masked.getD texts) newMasked),
            p.counts.mergeCounts answer.counts, p.bypass.or verdict.bypassReason,
            p.monitorHits ++ answer.monitorHits⟩ : Except (SegmentsOutcome Hit) (Progress Hit))
        | none => .ok ⟨p.masked, p.counts, p.bypass.or verdict.bypassReason,
            p.monitorHits ++ answer.monitorHits⟩) = .ok p' ∧ Goes texts call m p p' := by
    intro verdict hverdict
    cases hmask : answer.masked with
    | some mask =>
      refine ⟨_, rfl, ⟨?_, ?_, ?_, ?_, ?_⟩⟩
      · exact hfits mask hmask
      · rw [hanswer, hmask]
        simp
      · intro k
        rw [hanswer, Counts.get_mergeCounts, maskCount, hmask]
        rfl
      · rw [hanswer, hverdict]
      · rw [hanswer]
    | none =>
      refine ⟨_, rfl, ⟨?_, ?_, ?_, ?_, ?_⟩⟩
      · rw [ChainMember.apply, hanswer, hmask]
      · rw [hanswer, hmask]
        simp
      · intro k
        rw [hanswer, maskCount, hmask]
        simp
      · rw [hanswer, hverdict]
      · rw [hanswer]
  cases hverdict : answer.verdict with
  | allow => exact hmasked .allow (by rw [hverdict])
  | bypass reason => exact hmasked (.bypass reason) (by rw [hverdict])
  | block reason guardrailName unavailable =>
    rw [hverdict] at hpasses
    cases hpasses

/-! ### The chain -/

theorem refused_nil : ¬ Refused call ([] : List (ChainMember Hit)) texts := by
  rintro ⟨before, m, after, hsplit, -⟩
  cases before <;> cases hsplit

theorem refused_cons : Refused call (m :: members) texts ↔
    m.Fails call texts ∨ Refused call members (m.apply call texts) := by
  constructor
  · rintro ⟨before, m', after, hsplit, hfails⟩
    cases before with
    | nil =>
      cases hsplit
      exact .inl hfails
    | cons b before =>
      cases hsplit
      exact .inr ⟨before, m', after, rfl, hfails⟩
  · rintro (hfails | ⟨before, m', after, rfl, hfails⟩)
    · exact ⟨[], m, members, rfl, hfails⟩
    · exact ⟨m :: before, m', after, rfl, hfails⟩

theorem foldFrom_of_refused {p : Progress Hit}
    (h : Refused call (members.filter (takesPart call)) (p.masked.getD texts)) :
    ∃ verdict hits, foldFrom texts call p members = ⟨verdict, none, ∅, hits⟩ ∧
      verdict.isBlock = true := by
  induction members generalizing p with
  | nil => exact absurd h refused_nil
  | cons m members ih =>
    rw [foldFrom]
    cases htakes : takesPart call m with
    | false =>
      rw [List.filter_cons_of_neg (by simp [htakes])] at h
      rw [foldStep_of_not_takesPart htakes]
      exact ih h
    | true =>
      rw [List.filter_cons_of_pos htakes, refused_cons] at h
      by_cases hfails : m.Fails call (p.masked.getD texts)
      · obtain ⟨verdict, hits, hstep, hblock⟩ := foldStep_of_fails htakes hfails
        rw [hstep]
        exact ⟨verdict, hits, rfl, hblock⟩
      · obtain ⟨p', hstep, hgoes⟩ := foldStep_of_not_fails htakes hfails
        rw [hstep]
        refine ih ?_
        rw [hgoes.text]
        exact h.resolve_left hfails

/-- What the fold returns from some point on when no member behind it fails. -/
structure Passes (call : Call) (members : List (ChainMember Hit)) (texts : List String)
    (p : Progress Hit) (out : SegmentsOutcome Hit) : Prop where
  text : out.masked.getD texts = composed call members (p.masked.getD texts)
  masked :
    out.masked.isSome =
    (p.masked.isSome || (answers call members (p.masked.getD texts)).any (·.masked.isSome))
  counts : ∀ k, out.counts.get k =
    p.counts.get k + ((answers call members (p.masked.getD texts)).map (maskCount k)).sum
  verdict : out.verdict =
    (p.bypass.or
      ((answers call members (p.masked.getD texts)).findSome? (·.verdict.bypassReason))).elim .allow
      .bypass
  hits :
    out.monitorHits = p.monitorHits ++
    (answers call members (p.masked.getD texts)).flatMap (·.monitorHits)

theorem foldFrom_of_not_refused {p : Progress Hit}
    (h : ¬ Refused call (members.filter (takesPart call)) (p.masked.getD texts)) :
    Passes call (members.filter (takesPart call)) texts p (foldFrom texts call p members) := by
  induction members generalizing p with
  | nil =>
    refine ⟨rfl, ?_, ?_, ?_, ?_⟩
    · exact (Bool.or_false _).symm
    · intro k
      exact (UInt32.add_zero _).symm
    · simp [foldFrom, answers]
    · exact (List.append_nil _).symm
  | cons m members ih =>
    rw [foldFrom]
    cases htakes : takesPart call m with
    | false =>
      rw [List.filter_cons_of_neg (by simp [htakes])] at h ⊢
      rw [foldStep_of_not_takesPart htakes]
      exact ih h
    | true =>
      rw [List.filter_cons_of_pos htakes] at h ⊢
      rw [refused_cons, not_or] at h
      obtain ⟨p', hstep, hgoes⟩ := foldStep_of_not_fails htakes h.1
      rw [hstep]
      have hrest : ¬ Refused call (members.filter (takesPart call)) (p'.masked.getD texts) := by
        rw [hgoes.text]
        exact h.2
      obtain ⟨htext, hmasked, hcounts, hverdict, hhits⟩ := ih hrest
      rw [hgoes.text] at htext hmasked hverdict hhits
      refine ⟨htext, ?_, ?_, ?_, ?_⟩
      · rw [hmasked, hgoes.masked, answers, List.any_cons, Bool.or_assoc]
      · intro k
        rw [hcounts k, hgoes.counts k, hgoes.text, answers, List.map_cons, List.sum_cons,
          UInt32.add_assoc]
      · rw [hverdict, hgoes.bypass, answers, List.findSome?_cons, Option.or_assoc]
        cases (m.answer call (p.masked.getD texts)).verdict.bypassReason <;> rfl
      · rw [hhits, hgoes.hits, answers, List.flatMap_cons, List.append_assoc]

theorem length_composed (call : Call) (members : List (ChainMember Hit)) (texts : List String) :
    (composed call members texts).length = texts.length := by
  induction members generalizing texts with
  | nil => rfl
  | cons m members ih =>
    have hstep : composed call (m :: members) texts = composed call members (m.apply call texts) :=
      rfl
    rw [hstep, ih, ChainMember.length_apply]

/-- The member's mask covers the segment. -/
def ChainMember.Masks (m : ChainMember Hit) (call : Call) (full : List String) (i : Nat) : Prop :=
  (m.answer call full).masked.isSome = true ∧ m.reads call i = true

theorem ChainMember.getElem?_apply_of_not_masks {i : Nat} (h : ¬ m.Masks call full i) :
    (m.apply call full)[i]? = full[i]? := by
  unfold apply
  split
  · next mask hmask =>
    refine getElem?_overlay_of_not ?_ mask full
    rw [← Bool.not_eq_true]
    intro hreads
    exact h ⟨by rw [hmask]; rfl, hreads⟩
  · rfl

theorem getElem?_composed_of_not_masks {i : Nat}
    (h : ∀ before m after, members = before ++ m :: after →
      ¬ m.Masks call (composed call before texts) i) :
      (composed call members texts)[i]? = texts[i]? := by
  induction members generalizing texts with
  | nil => rfl
  | cons m members ih =>
    have hstep : composed call (m :: members) texts = composed call members (m.apply call texts) :=
      rfl
    rw [hstep, ih]
    · exact ChainMember.getElem?_apply_of_not_masks (h [] m members rfl)
    · intro before m' after hsplit
      exact h (m :: before) m' after (by rw [hsplit]; rfl)

/-- The fold blocks when a member does, or returns a mask that does not fit, and then nothing is
masked or counted. It leaves the composition of the masks otherwise. -/
theorem fold_segments_exact (members : List (ChainMember Hit)) (texts : List String) (call : Call) :
    ((foldSegments members texts call).verdict.isBlock = true ↔
      Refused call (members.filter (takesPart call)) texts) ∧
    ((foldSegments members texts call).verdict.isBlock = true →
      (foldSegments members texts call).masked = none ∧
      (foldSegments members texts call).counts = ∅) ∧
    ((foldSegments members texts call).verdict.isBlock = false →
      (foldSegments members texts call).masked.getD texts =
      composed call (members.filter (takesPart call)) texts ∧
      (∀ k, (foldSegments members texts call).counts.get k =
        ((answers call (members.filter (takesPart call)) texts).map (maskCount k)).sum) ∧
      (foldSegments members texts call).verdict =
        ((answers call (members.filter (takesPart call)) texts).findSome?
          (·.verdict.bypassReason)).elim .allow .bypass) ∧
    (∀ before m after, members.filter (takesPart call) = before ++ m :: after →
      ¬ m.Fails call (composed call before texts) → ∀ i < texts.length,
      (∀ mask, (m.answer call (composed call before texts)).masked = some mask →
        m.reads call i = true →
        (composed call (before ++ [m]) texts)[i]? = mask[rank (m.reads call) i]?) ∧
      (¬ m.Masks call (composed call before texts) i →
        (composed call (before ++ [m]) texts)[i]? = (composed call before texts)[i]?)) ∧
    ∀ i, (∀ before m after, members.filter (takesPart call) = before ++ m :: after →
      ¬ m.Masks call (composed call before texts) i) →
      (composed call (members.filter (takesPart call)) texts)[i]? = texts[i]? := by
  have hrefused : Refused call (members.filter (takesPart call)) texts →
      (foldSegments members texts call).verdict.isBlock = true ∧
        (foldSegments members texts call).masked = none ∧
          (foldSegments members texts call).counts = ∅ := by
    intro h
    obtain ⟨verdict, hits, hout, hblock⟩ := foldFrom_of_refused (p := ⟨none, ∅, none, []⟩) h
    have hfold : foldSegments members texts call = ⟨verdict, none, ∅, hits⟩ := hout
    rw [hfold]
    exact ⟨hblock, rfl, rfl⟩
  have hpasses : ¬ Refused call (members.filter (takesPart call)) texts →
      Passes call (members.filter (takesPart call)) texts ⟨none, ∅, none, []⟩
        (foldSegments members texts call) :=
    fun h => foldFrom_of_not_refused (p := ⟨none, ∅, none, []⟩) h
  have hiff : (foldSegments members texts call).verdict.isBlock = true ↔
      Refused call (members.filter (takesPart call)) texts := by
    constructor
    · intro hblock
      by_contra hnot
      rw [(hpasses hnot).verdict] at hblock
      revert hblock
      cases ((none : Option String).or _) <;> exact Bool.false_ne_true
    · intro h
      exact (hrefused h).1
  refine ⟨hiff, ?_, ?_, ?_, ?_⟩
  · intro hblock
    exact (hrefused (hiff.mp hblock)).2
  · intro hpass
    have hnot : ¬ Refused call (members.filter (takesPart call)) texts := by
      intro h
      rw [hiff.mpr h] at hpass
      cases hpass
    obtain ⟨htext, -, hcounts, hverdict, -⟩ := hpasses hnot
    refine ⟨htext, ?_, ?_⟩
    · intro k
      rw [hcounts k, Counts.get_empty, UInt32.zero_add]
      rfl
    · rw [hverdict, Option.none_or]
      rfl
  · intro before m after hsplit hfits i hi
    have hcomposed :
        composed call (before ++ [m]) texts = m.apply call (composed call before texts) :=
      List.foldl_append ..
    rw [hcomposed]
    refine ⟨?_, ChainMember.getElem?_apply_of_not_masks⟩
    intro mask hmask hreads
    have hlength :
        mask.length = (positions (m.reads call) (composed call before texts).length).length := by
      by_contra hne
      exact hfits (.inr ⟨mask, hmask, hne⟩)
    rw [ChainMember.apply, hmask]
    exact getElem?_overlay_of_picks hlength (by rw [length_composed]; exact hi) hreads
  · intro i h
    exact getElem?_composed_of_not_masks h

end

end Guardrails
end Aisix
