import Aisix.Guardrails.Segments
import Mathlib.Logic.Function.Basic

/-!
# Aisix.Redact.Walk

A walker visits the texts of a body in a fixed order and offers each to a probe: `SegmentCollector`
records them and `SegmentApplier` gives back the masked texts by position. The texts have addresses;
a field is rewritten in place, a structural text is only found to have a match, and an observed one
is not offered for a rewrite at all.

* `walk_collector` — a collect walk changes nothing and records the offers.
* `walk_applier`   — what an apply walk leaves, when the offers are the recorded ones.
-/

namespace Aisix
namespace Redact

open Guardrails

inductive Direction where
  | input
  | inputHistory
  | output
  | outputEcho
  deriving DecidableEq, Repr

inductive SegmentRole where
  | rewritable
  | scanOnly
  | label
  | echo
  deriving DecidableEq, Repr

/-- Whether a slot goes to the remote pass, and comes back through the apply walk. -/
def reachesRemotePass : SegmentRole → Bool
  | .rewritable => true
  | .echo => true
  | _ => false

structure ScanSegment where
  text : String
  role : SegmentRole
  inLatestTurn : Bool
  deriving DecidableEq, Repr

structure Redaction where
  text : String
  counts : Counts

/-- What a walker calls of a guardrail; `σ` is the probe's state. -/
structure Probe (σ : Type) where
  redactInputTextInTurn : String → Bool → σ → Option Redaction × σ
  redactOutputText : String → σ → Option Redaction × σ
  redactOutputEcho : String → σ → Option Redaction × σ
  observeUnrewritable : String → SegmentRole → Bool → σ → σ
  segmentMessageStart : σ → σ

def redactStr {σ : Type} (p : Probe σ) (dir : Direction) (text : String) :
    σ → Option Redaction × σ :=
  match dir with
  | .input => p.redactInputTextInTurn text true
  | .inputHistory => p.redactInputTextInTurn text false
  | .output => p.redactOutputText text
  | .outputEcho => p.redactOutputEcho text

/-! ### Walking -/

/-- A body: its texts by address, and everything else of it. -/
structure Body (ι R : Type) where
  text : ι → String
  rest : R

def Body.write {ι R : Type} [DecidableEq ι] (body : Body ι R) (a : ι) (text : String) : Body ι R :=
  { body with text := Function.update body.text a text }

/-- One thing a walker does: `malformed` is a shape that it can only refuse. -/
inductive Visit (ι : Type) where
  | field (a : ι) (dir : Direction)
  | structural (a : ι) (dir : Direction)
  | observed (a : ι) (dir : Direction) (role : SegmentRole) (kept : reachesRemotePass role = false)
  | messageStart
  | malformed

structure Walked (ι R σ : Type) where
  body : Body ι R
  counts : Counts
  unrewritableToolKey : Bool
  probe : σ

section

variable {ι R σ : Type} [DecidableEq ι]

def visit (p : Probe σ) (w : Walked ι R σ) : Visit ι → Walked ι R σ
  | .field a dir =>
    if (w.body.text a).isEmpty then w
    else
      match redactStr p dir (w.body.text a) w.probe with
      | (some r, s) =>
        { w with
          body := w.body.write a r.text, counts := w.counts.mergeCounts r.counts, probe := s }
      | (none, s) => { w with probe := s }
  | .structural a dir =>
    match redactStr p dir (w.body.text a) w.probe with
    | (some r, s) =>
      { w with
        counts := w.counts.mergeCounts r.counts
        unrewritableToolKey := r.text != w.body.text a || w.unrewritableToolKey
        probe := s }
    | (none, s) => { w with probe := s }
  | .observed a dir role _ =>
    if (w.body.text a).isEmpty then w
    else { w with
      probe := p.observeUnrewritable (w.body.text a) role (dir != .inputHistory) w.probe }
  | .messageStart => { w with probe := p.segmentMessageStart w.probe }
  | .malformed => { w with unrewritableToolKey := true }

def walk (p : Probe σ) (vs : List (Visit ι)) (body : Body ι R) (s : σ) : Walked ι R σ :=
  vs.foldl (visit p) ⟨body, ∅, false, s⟩

/-- The addresses that a walk rewrites. -/
def fields (vs : List (Visit ι)) : List ι :=
  vs.filterMap fun
    | .field a _ => some a
    | _ => none

/-- The addresses that a walk only reads. -/
def scanned (vs : List (Visit ι)) : List ι :=
  vs.filterMap fun
    | .structural a _ => some a
    | .observed a _ _ _ => some a
    | _ => none

/-- What each walk of a body visits: no field twice, and none that it also reads elsewhere. The
walks are numbered, since a walker may change from one to the next. -/
structure Walker (ι : Type) where
  visits : Nat → List (Visit ι)
  nodup : ∀ n, (fields (visits n)).Nodup
  apart : ∀ n, ∀ a ∈ scanned (visits n), a ∉ fields (visits n)

/-- The texts a walk offers for a rewrite, each with its address when it is a field. -/
def offers (body : Body ι R) : List (Visit ι) → List (Option ι × String)
  | [] => []
  | .field a _ :: vs =>
    if (body.text a).isEmpty then offers body vs else (some a, body.text a) :: offers body vs
  | .structural a _ :: vs => (none, body.text a) :: offers body vs
  | .observed .. :: vs => offers body vs
  | .messageStart :: vs => offers body vs
  | .malformed :: vs => offers body vs

/-! ### Collecting -/

structure Collected where
  segments : List ScanSegment
  messageStarts : List Nat
  remoteSlots : Nat

namespace Collected

def empty : Collected := ⟨[], [], 0⟩

def push (c : Collected) (text : String) (role : SegmentRole) (inLatestTurn : Bool) : Collected :=
  { c with
    segments := c.segments ++ [⟨text, role, inLatestTurn⟩]
    remoteSlots := if reachesRemotePass role then c.remoteSlots + 1 else c.remoteSlots }

def takeRewritableTexts (c : Collected) : List String :=
  (c.segments.filter fun s => reachesRemotePass s.role).map (·.text)

def newestFrom (c : Collected) : Option Nat := c.messageStarts.reverse.find? (· < c.remoteSlots)

theorem takeRewritableTexts_push (c : Collected) (text : String) (role : SegmentRole)
    (inLatestTurn : Bool) :
    (c.push text role inLatestTurn).takeRewritableTexts =
      c.takeRewritableTexts ++ if reachesRemotePass role then [text] else [] := by
  unfold takeRewritableTexts push
  rw [List.filter_append, List.map_append]
  cases hrole : reachesRemotePass role with
  | true => simp [hrole]
  | false => simp [hrole]

end Collected

def segmentCollector : Probe Collected where
  redactInputTextInTurn text inLatestTurn c := (none, c.push text .rewritable inLatestTurn)
  redactOutputText text c := (none, c.push text .rewritable true)
  redactOutputEcho text c := (none, c.push text .echo true)
  observeUnrewritable text role inLatestTurn c := c.push text role inLatestTurn
  segmentMessageStart c := { c with messageStarts := c.messageStarts ++ [c.remoteSlots] }

/-! ### Applying -/

def SEGMENT_APPLY_MARKER : String := "__segment_apply__"

structure ApplierState where
  masked : List String
  originals : List String
  cursor : Nat
  mismatchedText : Bool

namespace ApplierState

def start (masked originals : List String) : ApplierState := ⟨masked, originals, 0, false⟩

@[simp] theorem start_masked (masked originals : List String) :
    (start masked originals).masked = masked := rfl

@[simp] theorem start_cursor (masked originals : List String) :
    (start masked originals).cursor = 0 := rfl

def apply (original : String) (s : ApplierState) : Option Redaction × ApplierState :=
  if s.originals[s.cursor]? ≠
    some original then (none, { s with cursor := s.cursor + 1, mismatchedText := true })
  else
    match s.masked[s.cursor]? with
    | some m =>
      if m ≠ original then (some ⟨m, AList.singleton SEGMENT_APPLY_MARKER 1⟩,
        { s with cursor := s.cursor + 1 })
      else (none, { s with cursor := s.cursor + 1 })
    | none => (none, { s with cursor := s.cursor + 1 })

def isAligned (s : ApplierState) : Bool :=
  !s.mismatchedText && s.cursor == s.masked.length && s.originals.length == s.masked.length

end ApplierState

def segmentApplier : Probe ApplierState where
  redactInputTextInTurn text _ := ApplierState.apply text
  redactOutputText := ApplierState.apply
  redactOutputEcho := ApplierState.apply
  observeUnrewritable _ _ _ s := s
  segmentMessageStart s := s

variable {vs : List (Visit ι)} {body : Body ι R}

@[simp] theorem Body.write_text_self (body : Body ι R) (a : ι) :
    body.write a (body.text a) = body := by
  unfold Body.write
  rw [Function.update_eq_self]

theorem Body.text_write_of_ne {a b : ι} (h : b ≠ a) (body : Body ι R) (t : String) :
    (body.write a t).text b = body.text b := by
  unfold Body.write
  exact Function.update_of_ne h t body.text

theorem offers_write {a : ι} (hfield : a ∉ fields vs) (hscanned : a ∉ scanned vs) (t : String) :
    offers (body.write a t) vs = offers body vs := by
  induction vs with
  | nil => rfl
  | cons v vs ih =>
    cases v with
    | field b dir =>
      obtain ⟨hne, hrest⟩ := not_or.mp (mt List.mem_cons.mpr hfield)
      rw [offers, offers, Body.text_write_of_ne (Ne.symm hne), ih hrest hscanned]
    | structural b dir =>
      obtain ⟨hne, hrest⟩ := not_or.mp (mt List.mem_cons.mpr hscanned)
      rw [offers, offers, Body.text_write_of_ne (Ne.symm hne), ih hfield hrest]
    | observed b dir role kept => exact ih hfield (not_or.mp (mt List.mem_cons.mpr hscanned)).2
    | messageStart => exact ih hfield hscanned
    | malformed => exact ih hfield hscanned

omit [DecidableEq ι] in
theorem mem_fields_of_offer {a : ι} {t : String} (h : (some a, t) ∈ offers body vs) :
    a ∈ fields vs := by
  induction vs with
  | nil => cases h
  | cons v vs ih =>
    cases v with
    | field b dir =>
      rw [offers] at h
      split at h
      · exact List.mem_cons_of_mem b (ih h)
      · rcases List.mem_cons.mp h with heq | h
        · cases heq
          exact List.mem_cons_self
        · exact List.mem_cons_of_mem b (ih h)
    | structural b dir =>
      rcases List.mem_cons.mp h with heq | h
      · cases heq
      · exact ih h
    | observed b dir role kept => exact ih h
    | messageStart => exact ih h
    | malformed => exact ih h

/-! ### The collect walk -/

theorem redactStr_collector (dir : Direction) (text : String) (c : Collected) :
    ∃ c', redactStr segmentCollector dir text c = (none, c') ∧
      c'.takeRewritableTexts = c.takeRewritableTexts ++ [text] := by
  cases dir with
  | input => exact ⟨_, rfl, Collected.takeRewritableTexts_push ..⟩
  | inputHistory => exact ⟨_, rfl, Collected.takeRewritableTexts_push ..⟩
  | output => exact ⟨_, rfl, Collected.takeRewritableTexts_push ..⟩
  | outputEcho => exact ⟨_, rfl, Collected.takeRewritableTexts_push ..⟩

theorem foldl_collector (vs : List (Visit ι)) (w : Walked ι R Collected) :
    (vs.foldl (visit segmentCollector) w).body = w.body ∧
      (vs.foldl (visit segmentCollector) w).probe.takeRewritableTexts =
        w.probe.takeRewritableTexts ++ (offers w.body vs).map (·.2) := by
  induction vs generalizing w with
  | nil => exact ⟨rfl, (List.append_nil _).symm⟩
  | cons v vs ih =>
    rw [List.foldl_cons]
    cases v with
    | field a dir =>
      rw [visit, offers]
      split
      · exact ih w
      · obtain ⟨c', hstep, htexts⟩ := redactStr_collector dir (w.body.text a) w.probe
        rw [hstep]
        obtain ⟨hbody, hrest⟩ := ih { w with probe := c' }
        rw [List.map_cons, List.append_cons, ← htexts]
        exact ⟨hbody, hrest⟩
    | structural a dir =>
      obtain ⟨c', hstep, htexts⟩ := redactStr_collector dir (w.body.text a) w.probe
      rw [visit, hstep, offers]
      obtain ⟨hbody, hrest⟩ := ih { w with probe := c' }
      rw [List.map_cons, List.append_cons, ← htexts]
      exact ⟨hbody, hrest⟩
    | observed a dir role kept =>
      rw [visit, offers]
      split
      · exact ih w
      · have htexts :
            (w.probe.push (w.body.text a) role (dir != .inputHistory)).takeRewritableTexts =
              w.probe.takeRewritableTexts := by
          rw [Collected.takeRewritableTexts_push, kept]
          exact List.append_nil _
        rw [← htexts]
        exact ih _
    | messageStart => exact ih _
    | malformed => exact ih _

theorem walk_collector (vs : List (Visit ι)) (body : Body ι R) :
    (walk segmentCollector vs body .empty).body = body ∧
      (walk segmentCollector vs body .empty).probe.takeRewritableTexts =
      (offers body vs).map (·.2) :=
  foldl_collector vs ⟨body, ∅, false, .empty⟩

/-! ### The apply walk -/

theorem redactStr_applier (dir : Direction) (text : String) (s : ApplierState) :
    redactStr segmentApplier dir text s = s.apply text := by
  cases dir <;> rfl

/-- What the applier stands for a text it is offered next. -/
def ApplierState.next (s : ApplierState) (text : String) : String :=
  if s.originals[s.cursor]? = some text then (s.masked[s.cursor]?).getD text else text

def ApplierState.advance (s : ApplierState) (text : String) : ApplierState :=
  { s with
    cursor := s.cursor + 1
    mismatchedText := s.mismatchedText || decide (s.originals[s.cursor]? ≠ some text) }

theorem ApplierState.apply_spec (s : ApplierState) (text : String) :
    (s.apply text).2 = s.advance text ∧
      ((s.apply text).1 = none ∧ s.next text = text ∨
        ∃ counts, (s.apply text).1 = some ⟨s.next text, counts⟩ ∧ s.next text ≠ text) := by
  unfold apply advance next
  by_cases h : s.originals[s.cursor]? = some text
  · rw [if_neg (not_not.mpr h), if_pos h]
    cases hmask : s.masked[s.cursor]? with
    | none => simp [h]
    | some m =>
      by_cases hm : m = text
      · simp [h, hm]
      · simp [h, hm]
  · rw [if_pos h, if_neg h]
    simp [h]

theorem visit_field (w : Walked ι R ApplierState) {a : ι} (dir : Direction)
    (h : (w.body.text a).isEmpty = false) : ∃ counts, visit segmentApplier w (.field a dir) =
      ⟨w.body.write a (w.probe.next (w.body.text a)), counts, w.unrewritableToolKey,
        w.probe.advance (w.body.text a)⟩ := by
  obtain ⟨hstate, hanswer⟩ := w.probe.apply_spec (w.body.text a)
  rw [visit, if_neg (by simp [h]), redactStr_applier]
  rcases hanswer with ⟨hnone, hsame⟩ | ⟨counts, hsome, -⟩
  · have hpair : w.probe.apply (w.body.text a) =
        (none, w.probe.advance (w.body.text a)) := Prod.ext hnone hstate
    rw [hpair, hsame, Body.write_text_self]
    exact ⟨w.counts, rfl⟩
  · have hpair : w.probe.apply (w.body.text a) =
        (some ⟨w.probe.next (w.body.text a), counts⟩, w.probe.advance (w.body.text a)) :=
          Prod.ext hsome hstate
    rw [hpair]
    exact ⟨_, rfl⟩

theorem visit_structural (w : Walked ι R ApplierState) (a : ι) (dir : Direction) :
    ∃ counts, visit segmentApplier w (.structural a dir) =
      ⟨w.body, counts, w.probe.next (w.body.text a) != w.body.text a || w.unrewritableToolKey,
        w.probe.advance (w.body.text a)⟩ := by
  obtain ⟨hstate, hanswer⟩ := w.probe.apply_spec (w.body.text a)
  rw [visit, redactStr_applier]
  rcases hanswer with ⟨hnone, hsame⟩ | ⟨counts, hsome, -⟩
  · have hpair : w.probe.apply (w.body.text a) = (none, w.probe.advance (w.body.text a)) :=
      Prod.ext hnone hstate
    rw [hpair, hsame, bne_self_eq_false, Bool.false_or]
    exact ⟨w.counts, rfl⟩
  · have hpair : w.probe.apply (w.body.text a) =
        (some ⟨w.probe.next (w.body.text a), counts⟩, w.probe.advance
          (w.body.text a)) := Prod.ext hsome hstate
    rw [hpair]
    exact ⟨_, rfl⟩

/-- The texts offered from now on are the recorded ones. -/
def ApplierState.Matches (s : ApplierState) (os : List (Option ι × String)) : Prop :=
  ∀ i o, os[i]? = some o → s.originals[s.cursor + i]? = some o.2

omit [DecidableEq ι] in
theorem ApplierState.matches_cons {s : ApplierState} {o : Option ι × String}
    {os : List (Option ι × String)} :
    s.Matches (o :: os) ↔ s.originals[s.cursor]? = some o.2 ∧ (s.advance o.2).Matches os := by
  constructor
  · intro h
    refine ⟨h 0 o rfl, ?_⟩
    intro i o' ho'
    have hnext := h (i + 1) o' ho'
    rwa [Nat.add_comm i 1, ← Nat.add_assoc] at hnext
  · rintro ⟨hhead, htail⟩ i o' ho'
    cases i with
    | zero =>
      cases ho'
      exact hhead
    | succ i =>
      rw [Nat.add_comm i 1, ← Nat.add_assoc]
      exact htail i o' ho'

/-- A mask changes a text that the walk only offers. -/
def MasksStructural (os : List (Option ι × String)) (mask : Nat → Option String) : Prop :=
  ∃ i t, os[i]? = some (none, t) ∧ (mask i).getD t ≠ t

omit [DecidableEq ι] in
theorem masksStructural_cons {o : Option ι × String} {os : List (Option ι × String)}
    {mask : Nat → Option String} : MasksStructural (o :: os) mask ↔
      (o.1 = none ∧ (mask 0).getD o.2 ≠ o.2) ∨ MasksStructural os fun i => mask (i + 1) := by
  constructor
  · rintro ⟨i, t, hi, hne⟩
    cases i with
    | zero =>
      cases hi
      exact .inl ⟨rfl, hne⟩
    | succ i => exact .inr ⟨i, t, hi, hne⟩
  · rintro (⟨hnone, hne⟩ | ⟨i, t, hi, hne⟩)
    · obtain ⟨o1, t⟩ := o
      obtain rfl : o1 = none := hnone
      exact ⟨0, t, rfl, hne⟩
    · exact ⟨i + 1, t, hi, hne⟩

/-- What visits that offer `os` make of `w` with the applier. -/
structure Applied (os : List (Option ι × String)) (malformed : Prop)
    (w w' : Walked ι R ApplierState) : Prop where
  masked : w'.probe.masked = w.probe.masked
  originals : w'.probe.originals = w.probe.originals
  cursor : w'.probe.cursor = w.probe.cursor + os.length
  mismatched : w'.probe.mismatchedText = false ↔ w.probe.mismatchedText = false ∧ w.probe.Matches os
  rest : w'.body.rest = w.body.rest
  written : w.probe.Matches os → ∀ i a t, os[i]? = some (some a, t) →
    w'.body.text a = (w.probe.masked[w.probe.cursor + i]?).getD t
  kept : ∀ a, (∀ t, (some a, t) ∉ os) → w'.body.text a = w.body.text a
  key : w.probe.Matches os →
    (w'.unrewritableToolKey = true ↔ w.unrewritableToolKey = true ∨ malformed ∨
      MasksStructural os fun i => w.probe.masked[w.probe.cursor + i]?)

omit [DecidableEq ι] in
theorem applied_nil (w : Walked ι R ApplierState) : Applied [] False w w where
  masked := rfl
  originals := rfl
  cursor := rfl
  mismatched := by
    refine (and_iff_left ?_).symm
    intro i o ho
    cases ho
  rest := rfl
  written := by
    intro _ i a t ht
    cases ht
  kept := by
    intro a _
    rfl
  key := by
    intro _
    simp [MasksStructural]

omit [DecidableEq ι] in
theorem malformed_mem {v : Visit ι} (h : v ≠ .malformed) :
    (Visit.malformed ∈ v :: vs) = (Visit.malformed ∈ vs) := by
  rw [List.mem_cons, eq_false (Ne.symm h), false_or]

theorem next_of_matches {s : ApplierState} {t : String} (h : s.originals[s.cursor]? = some t) :
    s.next t = (s.masked[s.cursor]?).getD t := if_pos h

theorem advance_mismatched (s : ApplierState) (t : String) :
    (s.advance t).mismatchedText = false ↔ s.mismatchedText = false ∧
    s.originals[s.cursor]? = some t := by
  simp [ApplierState.advance]

theorem foldl_applier : ∀ (vs : List (Visit ι)) (w : Walked ι R ApplierState), (fields vs).Nodup →
    (∀ a ∈ scanned vs, a ∉ fields vs) →
    Applied (offers w.body vs) (Visit.malformed ∈ vs) w (vs.foldl (visit segmentApplier) w)
  | [], w, _, _ => by
    rw [eq_false (List.not_mem_nil : Visit.malformed ∉ ([] : List (Visit ι)))]
    exact applied_nil w
  | .field a dir :: vs, w, hnodup, hapart => by
    obtain ⟨hfield, hnodup⟩ := List.nodup_cons.mp hnodup
    have hscanned : a ∉ scanned vs := fun h => hapart a h List.mem_cons_self
    have hapart : ∀ b ∈ scanned vs, b ∉ fields vs :=
      fun b hb h => hapart b hb (List.mem_cons_of_mem a h)
    rw [List.foldl_cons]
    cases hempty : (w.body.text a).isEmpty with
    | true =>
      have hvisit : visit segmentApplier w (.field a dir) = w := if_pos hempty
      have hoffers : offers w.body (.field a dir :: vs) = offers w.body vs := if_pos hempty
      rw [hvisit, hoffers, malformed_mem (by simp)]
      exact foldl_applier vs w hnodup hapart
    | false =>
      obtain ⟨counts, hvisit⟩ := visit_field w dir hempty
      have hoffers : offers w.body (.field a dir :: vs) = (some a, w.body.text a) ::
          offers w.body vs := by
        rw [offers, hempty]
        rfl
      obtain ⟨hmasked, horiginals, hcursor, hmismatched, hrest, hwritten, hkept, hkey⟩ :=
        foldl_applier vs (visit segmentApplier w (.field a dir)) hnodup hapart
      rw [hvisit] at hmasked horiginals hcursor hmismatched hrest hwritten hkept hkey ⊢
      dsimp only at hmasked horiginals hcursor hmismatched hrest hwritten hkept hkey
      rw [offers_write hfield hscanned] at hcursor hmismatched hwritten hkept hkey
      have hhere : ∀ t, (some a, t) ∉ offers w.body vs := fun t h => hfield (mem_fields_of_offer h)
      rw [hoffers, malformed_mem (by simp)]
      constructor
      · exact hmasked
      · exact horiginals
      · rw [hcursor, List.length_cons]
        exact Nat.add_right_comm ..
      · rw [hmismatched, advance_mismatched, ApplierState.matches_cons, and_assoc]
      · exact hrest
      · rw [ApplierState.matches_cons]
        rintro ⟨hhead, htail⟩ i b t hb
        cases i with
        | zero =>
          cases hb
          have hnext : w.probe.next (w.body.text a) = _ := next_of_matches hhead
          rw [hkept a hhere, Nat.add_zero, ← hnext]
          exact Function.update_self ..
        | succ i =>
          rw [Nat.add_comm i 1, ← Nat.add_assoc]
          exact hwritten htail i b t hb
      · intro b hb
        have hne : b ≠ a := by
          rintro rfl
          exact hb _ List.mem_cons_self
        rw [hkept b fun t h => hb t (List.mem_cons_of_mem _ h), Body.text_write_of_ne hne]
      · rw [ApplierState.matches_cons, masksStructural_cons]
        rintro ⟨-, htail⟩
        rw [hkey htail]
        simp [ApplierState.advance, Nat.add_comm, Nat.add_left_comm]
  | .structural a dir :: vs, w, hnodup, hapart => by
    have hapart : ∀ b ∈ scanned vs, b ∉ fields vs :=
      fun b hb => hapart b (List.mem_cons_of_mem a hb)
    have hnodup : (fields vs).Nodup := hnodup
    obtain ⟨counts, hvisit⟩ := visit_structural w a dir
    rw [List.foldl_cons]
    have hoffers : offers w.body (.structural a dir :: vs) =
        (none, w.body.text a) :: offers w.body vs := rfl
    obtain ⟨hmasked, horiginals, hcursor, hmismatched, hrest, hwritten, hkept, hkey⟩ :=
      foldl_applier vs (visit segmentApplier w (.structural a dir)) hnodup hapart
    rw [hvisit] at hmasked horiginals hcursor hmismatched hrest hwritten hkept hkey ⊢
    dsimp only at hmasked horiginals hcursor hmismatched hrest hwritten hkept hkey
    rw [hoffers, malformed_mem (by simp)]
    constructor
    · exact hmasked
    · exact horiginals
    · rw [hcursor, List.length_cons]
      exact Nat.add_right_comm ..
    · rw [hmismatched, advance_mismatched, ApplierState.matches_cons, and_assoc]
    · exact hrest
    · rw [ApplierState.matches_cons]
      rintro ⟨-, htail⟩ i b t hb
      cases i with
      | zero => cases hb
      | succ i =>
        rw [Nat.add_comm i 1, ← Nat.add_assoc]
        exact hwritten htail i b t hb
    · intro b hb
      exact hkept b fun t h => hb t (List.mem_cons_of_mem _ h)
    · rw [ApplierState.matches_cons, masksStructural_cons]
      rintro ⟨hhead, htail⟩
      rw [hkey htail, next_of_matches hhead, Bool.or_eq_true, bne_iff_ne]
      simp only [ApplierState.advance, Nat.add_comm, Nat.add_left_comm, true_and]
      constructor
      · rintro ((hne | hkey) | hmalformed | hmask)
        · exact .inr (.inr (.inl hne))
        · exact .inl hkey
        · exact .inr (.inl hmalformed)
        · exact .inr (.inr (.inr hmask))
      · rintro (hkey | hmalformed | hne | hmask)
        · exact .inl (.inr hkey)
        · exact .inr (.inl hmalformed)
        · exact .inl (.inl hne)
        · exact .inr (.inr hmask)
  | .observed a dir role kept :: vs, w, hnodup, hapart => by
    have hapart : ∀ b ∈ scanned vs, b ∉ fields vs := fun b hb =>
      hapart b (List.mem_cons_of_mem a hb)
    have hvisit : visit segmentApplier w (.observed a dir role kept) = w := by
      rw [visit]
      split <;> rfl
    rw [List.foldl_cons, hvisit, malformed_mem (by simp)]
    exact foldl_applier vs w hnodup hapart
  | .messageStart :: vs, w, hnodup, hapart => by
    rw [malformed_mem (by simp)]
    exact foldl_applier vs w hnodup hapart
  | .malformed :: vs, w, hnodup, hapart => by
    obtain ⟨hmasked, horiginals, hcursor, hmismatched, hrest, hwritten, hkept, hkey⟩ :=
      foldl_applier vs { w with unrewritableToolKey := true } hnodup hapart
    refine ⟨hmasked, horiginals, hcursor, hmismatched, hrest, hwritten, hkept, ?_⟩
    intro hmatches
    rw [List.foldl_cons]
    exact iff_of_true ((hkey hmatches).mpr (.inl rfl)) (.inr (.inl List.mem_cons_self))

/-- The rewritable slots hold the masks, and everything else is as before. -/
structure Exact (vs : List (Visit ι)) (body : Body ι R) (masks : List String) (final : Body ι R) :
    Prop where
  written : ∀ (i : Nat) a t, (offers body vs)[i]? = some (some a, t) →
    masks[i]? = some (final.text a)
  kept : ∀ a, (∀ t, (some a, t) ∉ offers body vs) → final.text a = body.text a
  rest : final.rest = body.rest

/-- An apply walk that finds the recorded texts writes the masks and nothing else. -/
theorem walk_applier (hnodup : (fields vs).Nodup) (hapart : ∀ a ∈ scanned vs, a ∉ fields vs)
    (body : Body ι R) (masks originals : List String) :
    ((walk segmentApplier vs body (.start masks originals)).probe.isAligned = true ↔
      (offers body vs).map (·.2) = originals ∧ originals.length = masks.length) ∧
    ((offers body vs).map (·.2) = originals → originals.length = masks.length →
      Exact vs body masks (walk segmentApplier vs body (.start masks originals)).body ∧
      ((walk segmentApplier vs body (.start masks originals)).unrewritableToolKey = true ↔
        Visit.malformed ∈ vs ∨ MasksStructural (offers body vs) fun i => masks[i]?)) := by
  obtain ⟨hmasked, horiginals, hcursor, hmismatched, hrest, hwritten, hkept, hkey⟩ :=
    foldl_applier vs ⟨body, ∅, false, .start masks originals⟩ hnodup hapart
  have hmatches : ApplierState.Matches (.start masks originals) (offers body vs) ↔
      (offers body vs).map (·.2) <+: originals := by
    rw [List.prefix_iff_getElem?]
    constructor
    · intro h i hi
      have hi' : i < (offers body vs).length := by simpa using hi
      have hget := h i _ (List.getElem?_eq_getElem hi')
      simpa [ApplierState.start] using hget
    · intro h i o ho
      have hlt : i < ((offers body vs).map (·.2)).length := by
        simpa using (List.getElem?_eq_some_iff.mp ho).1
      have hget := h i hlt
      simpa [ApplierState.start, (List.getElem?_eq_some_iff.mp ho).2] using hget
  have hwalk : walk segmentApplier vs body (.start masks originals) =
      vs.foldl (visit segmentApplier) ⟨body, ∅, false, .start masks originals⟩ := rfl
  rw [hwalk]
  refine ⟨?_, ?_⟩
  · rw [ApplierState.isAligned, Bool.and_eq_true, Bool.and_eq_true, Bool.not_eq_true',
      beq_iff_eq, beq_iff_eq, hmismatched, hmasked, horiginals, hcursor]
    dsimp only [ApplierState.start]
    constructor
    · rintro ⟨⟨⟨-, hpre⟩, hlength⟩, hsame⟩
      have heq := (hmatches.mp hpre).eq_of_length (by rw [List.length_map]; omega)
      exact ⟨heq, hsame⟩
    · rintro ⟨heq, hsame⟩
      refine ⟨⟨⟨rfl, hmatches.mpr (heq ▸ List.prefix_rfl)⟩, ?_⟩, hsame⟩
      rw [← hsame, ← heq, List.length_map, Nat.zero_add]
  · intro heq hsame
    have hpre : ApplierState.Matches (.start masks originals) (offers body vs) :=
      hmatches.mpr (heq ▸ List.prefix_rfl)
    have hlength : (offers body vs).length = masks.length := by
      rw [← hsame, ← heq, List.length_map]
    refine ⟨⟨?_, hkept, hrest⟩, ?_⟩
    · intro i a t ht
      have hi : i < masks.length := hlength ▸ (List.getElem?_eq_some_iff.mp ht).1
      have htext := hwritten hpre i a t ht
      rw [ApplierState.start_masked, ApplierState.start_cursor, Nat.zero_add,
        List.getElem?_eq_getElem hi, Option.getD_some] at htext
      rw [htext, List.getElem?_eq_getElem hi]
    · have hfound := hkey hpre
      simp only [ApplierState.start_masked, ApplierState.start_cursor, Nat.zero_add] at hfound
      rw [hfound]
      exact or_iff_right (by simp)

end

end Redact
end Aisix
