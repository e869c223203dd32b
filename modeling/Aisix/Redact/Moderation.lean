import Aisix.Redact.Walk

/-!
# Aisix.Redact.Moderation

The moderation of a body: one walk collects its texts, the guardrails judge them and may mask them,
a second walk compares, and a third writes the masks. `moderate_body_exact` says what the body holds
in the end.
-/

namespace Aisix
namespace Guardrails

/-- Block wins, then a bypass. -/
def GuardrailVerdict.mergedWith : GuardrailVerdict → GuardrailVerdict → GuardrailVerdict
  | .block r g u, _ => .block r g u
  | _, .block r g u => .block r g u
  | .bypass r, _ => .bypass r
  | _, .bypass r => .bypass r
  | .allow, .allow => .allow

theorem GuardrailVerdict.isBlock_mergedWith (v w : GuardrailVerdict) :
    (v.mergedWith w).isBlock = (v.isBlock || w.isBlock) := by
  cases v <;> cases w <;> rfl

end Guardrails

namespace Redact

open Guardrails

/-- What the moderation asks of a chain. -/
structure Chain (Hit : Type) where
  checksLocalSegments : Bool
  moderatesSegments : Bool
  checkLocalSegments : List ScanSegment → Bool → GuardrailVerdict × List Hit
  moderateInputSegmentsInTurn : List String → List Bool → Option Nat → Option String →
    SegmentsOutcome Hit
  moderateOutputSegments : List String → SegmentsOutcome Hit

inductive LocalSegments where
  | walk (extra : List ScanSegment)
  | given (segments : List ScanSegment)

def Direction.isInput (dir : Direction) : Bool := dir == .input || dir == .inputHistory

def TAG_MASK_WRITEBACK_FAILED : String := "mask_writeback_failed"

def segmentWalkDriftVerdict : GuardrailVerdict :=
  .blockUnavailable
    "segment apply walk drifted from collect walk; blocking to avoid releasing unmasked text"
    TAG_MASK_WRITEBACK_FAILED

def unrewritableToolKeyVerdict : GuardrailVerdict :=
  .block "data-loss prevention matched a tool structural field that cannot be safely rewritten" none
    none

/-- The moderated body, with the two lists that the function adds to. -/
structure BodyModeration (ι R Hit : Type) where
  verdict : GuardrailVerdict
  captureSafe : Bool
  body : Body ι R
  countsOut : Counts
  monitorHitsOut : List Hit

section

variable {ι R Hit : Type} [DecidableEq ι]

/-- What every pass is given. -/
structure Request (Hit : Type) where
  chain : Chain Hit
  dir : Direction
  model : Option String
  scanOnly : List (String × Bool)

namespace Request

variable (q : Request Hit)

/-- The texts of the remote pass: those that are only scanned come first. -/
def texts (collected : Collected) : List String :=
  q.scanOnly.map (·.1) ++ collected.takeRewritableTexts

def inLatestTurn (collected : Collected) : List Bool :=
  q.scanOnly.map (·.2) ++ (collected.segments.filter fun s => reachesRemotePass s.role).map
    (·.inLatestTurn)

def remoteOutcome (collected : Collected) : SegmentsOutcome Hit :=
  if q.dir.isInput then
    q.chain.moderateInputSegmentsInTurn (q.texts collected) (q.inLatestTurn collected)
      (collected.newestFrom.map (· + q.scanOnly.length)) q.model
  else q.chain.moderateOutputSegments (q.texts collected)

def localSegments (given : LocalSegments) (collected : Collected) : List ScanSegment :=
  match given with
  | .given segments => segments
  | .walk extra => collected.segments ++ q.scanOnly.map (fun s => ⟨s.1, .scanOnly, s.2⟩) ++ extra

/-- The remote pass, once nothing has blocked. -/
def moderateRemote (verdict : GuardrailVerdict) (countsOut : Counts) (hits : List Hit)
    (collected : Collected) (walker : Walker ι) (body : Body ι R) : BodyModeration ι R Hit :=
  let outcome := q.remoteOutcome collected
  let hits := hits ++ outcome.monitorHits
  if outcome.verdict.isBlock then ⟨verdict.mergedWith outcome.verdict, false, body, countsOut, hits⟩
  else
    match outcome.masked with
    | none =>
      let verdict := verdict.mergedWith outcome.verdict
      ⟨verdict, !verdict.isBlock && verdict.bypassReason.isNone &&
        outcome.verdict.bypassReason.isNone, body, countsOut, hits⟩
    | some masked =>
      let originals := collected.takeRewritableTexts
      let verified := walk segmentCollector (walker.visits 1) body .empty
      if verified.probe.takeRewritableTexts ≠ originals ∨
        masked.length ≠ (q.texts collected).length then
        ⟨verdict.mergedWith segmentWalkDriftVerdict, false, verified.body, countsOut, hits⟩
      else
        let applied := walk segmentApplier (walker.visits 2) verified.body
          (.start (masked.drop q.scanOnly.length) originals)
        if applied.probe.isAligned = false then
          ⟨verdict.mergedWith segmentWalkDriftVerdict, false, applied.body, countsOut, hits⟩
        else
          let verdict :=
            if applied.unrewritableToolKey then unrewritableToolKeyVerdict
            else verdict.mergedWith outcome.verdict
          ⟨verdict, !verdict.isBlock && verdict.bypassReason.isNone &&
            outcome.verdict.bypassReason.isNone, applied.body, countsOut.mergeCounts outcome.counts,
            hits⟩

def moderateBodyInner (nonSegmentVerdict : GuardrailVerdict) (countsOut : Counts) (hits : List Hit)
    (given : LocalSegments) (walker : Walker ι) (body : Body ι R) : BodyModeration ι R Hit :=
  if nonSegmentVerdict.isBlock || !(q.chain.checksLocalSegments || q.chain.moderatesSegments) then
    ⟨nonSegmentVerdict, !nonSegmentVerdict.isBlock && nonSegmentVerdict.bypassReason.isNone, body,
      countsOut, hits⟩
  else
    let collected := walk segmentCollector (walker.visits 0) body .empty
    let judged :=
      if q.chain.checksLocalSegments then
        let answer :=
          q.chain.checkLocalSegments (q.localSegments given collected.probe) q.dir.isInput
        (nonSegmentVerdict.mergedWith answer.1, hits ++ answer.2)
      else (nonSegmentVerdict, hits)
    if judged.1.isBlock then ⟨judged.1, false, collected.body, countsOut, judged.2⟩
    else if q.chain.moderatesSegments = false then
      ⟨judged.1, judged.1.bypassReason.isNone, collected.body, countsOut, judged.2⟩
    else q.moderateRemote judged.1 countsOut judged.2 collected.probe walker collected.body

end Request

def moderateBody (chain : Chain Hit) (dir : Direction) (model : Option String)
    (nonSegmentVerdict : GuardrailVerdict) (countsOut : Counts) (hits : List Hit)
    (walker : Walker ι) (body : Body ι R) : BodyModeration ι R Hit :=
  Request.moderateBodyInner ⟨chain, dir, model, []⟩ nonSegmentVerdict countsOut hits
    (.walk []) walker body

def moderateBodyScanning (chain : Chain Hit) (dir : Direction) (model : Option String)
    (nonSegmentVerdict : GuardrailVerdict) (countsOut : Counts) (hits : List Hit)
    (scanOnly : List (String × Bool)) (walker : Walker ι) (body : Body ι R) :
    BodyModeration ι R Hit :=
  Request.moderateBodyInner ⟨chain, dir, model, scanOnly⟩ nonSegmentVerdict countsOut hits
    (.walk []) walker body

/-! ### What the body holds -/

/-- The remote pass's answer on a body. -/
def Request.reply (q : Request Hit) (walker : Walker ι) (body : Body ι R) : SegmentsOutcome Hit :=
  q.remoteOutcome (walk segmentCollector (walker.visits 0) body .empty).probe

/-- The texts that the `n`-th walk offers. -/
def offered (walker : Walker ι) (n : Nat) (body : Body ι R) : List String :=
  (offers body (walker.visits n)).map (·.2)

/-- The moderation of `body` leaves it exact or refuses it. -/
structure ExactOrRefused (q : Request Hit) (walker : Walker ι) (body : Body ι R)
    (out : BodyModeration ι R Hit) : Prop where
  unmasked : q.chain.moderatesSegments = false ∨ (q.reply walker body).masked = none →
    out.body = body
  /-- A walker that visits the same slots each time. -/
  fixed : ∀ mask, q.chain.moderatesSegments = true → (q.reply walker body).masked = some mask →
    (∀ n, walker.visits n = walker.visits 0) →
    Exact (walker.visits 0) body (mask.drop q.scanOnly.length) out.body ∨
      out.body = body ∧ out.verdict.isBlock = true
  /-- Any walker, when the body goes on. -/
  passed : ∀ mask, q.chain.moderatesSegments = true → (q.reply walker body).masked = some mask →
    out.verdict.isBlock = false → mask.length = q.scanOnly.length + (offered walker 0 body).length ∧
      offered walker 1 body = offered walker 0 body ∧
        offered walker 2 body = offered walker 0 body ∧
      Exact (walker.visits 2) body (mask.drop q.scanOnly.length) out.body ∧
      ¬ MasksStructural (offers body (walker.visits 2)) fun i => (mask.drop q.scanOnly.length)[i]?
  drifted : ∀ mask, q.chain.moderatesSegments = true → (q.reply walker body).masked = some mask →
    mask.length ≠ q.scanOnly.length + (offered walker 0 body).length ∨
      offered walker 1 body ≠ offered walker 0 body →
    out.body = body ∧ out.verdict.isBlock = true

variable {q : Request Hit} {walker : Walker ι} {body : Body ι R}

theorem exactOrRefused_of_block {out : BodyModeration ι R Hit} (hbody : out.body = body)
    (hblock : out.verdict.isBlock = true) : ExactOrRefused q walker body out where
  unmasked := by
    intro _
    exact hbody
  fixed := by
    intro _ _ _ _
    exact .inr ⟨hbody, hblock⟩
  passed := by
    intro _ _ _ hpass
    rw [hblock] at hpass
    cases hpass
  drifted := by
    intro _ _ _ _
    exact ⟨hbody, hblock⟩

theorem exactOrRefused_of_unmasked {out : BodyModeration ι R Hit} (hbody : out.body = body)
    (hnone : q.chain.moderatesSegments = false ∨ (q.reply walker body).masked = none) :
    ExactOrRefused q walker body out := by
  have habsurd : ∀ mask, q.chain.moderatesSegments = true →
      (q.reply walker body).masked = some mask → False := by
    intro mask hremote hmask
    rcases hnone with hlocal | hnone
    · rw [hlocal] at hremote
      cases hremote
    · rw [hnone] at hmask
      cases hmask
  constructor
  · intro _
    exact hbody
  · intro mask hremote hmask
    exact (habsurd mask hremote hmask).elim
  · intro mask hremote hmask
    exact (habsurd mask hremote hmask).elim
  · intro mask hremote hmask
    exact (habsurd mask hremote hmask).elim

theorem collector_texts (walker : Walker ι) (n : Nat) (body : Body ι R) :
    (walk segmentCollector (walker.visits n) body .empty).probe.takeRewritableTexts =
    offered walker n body :=
  (walk_collector (walker.visits n) body).2

theorem collector_body (walker : Walker ι) (n : Nat) (body : Body ι R) :
    (walk segmentCollector (walker.visits n) body .empty).body = body :=
  (walk_collector (walker.visits n) body).1

theorem exactOrRefused_of_mask (verdict : GuardrailVerdict) (countsOut : Counts) (hits : List Hit)
    {mask : List String} (hremote : q.chain.moderatesSegments = true)
    (hpass : (q.reply walker body).verdict.isBlock = false)
    (hmask : (q.reply walker body).masked = some mask) :
    ExactOrRefused q walker body (q.moderateRemote verdict countsOut hits
      (walk segmentCollector (walker.visits 0) body .empty).probe walker body) := by
  have hdrift : ∀ v : GuardrailVerdict, (v.mergedWith segmentWalkDriftVerdict).isBlock = true := by
    intro v
    rw [GuardrailVerdict.isBlock_mergedWith]
    exact Bool.or_true _
  have htexts : (q.texts (walk segmentCollector (walker.visits 0) body .empty).probe).length =
      q.scanOnly.length + (offered walker 0 body).length := by
    rw [Request.texts, collector_texts, List.length_append, List.length_map]
  unfold Request.reply at hpass hmask
  unfold Request.moderateRemote
  dsimp only
  rw [hpass, hmask, if_neg Bool.false_ne_true]
  dsimp only
  rw [collector_texts, collector_texts, collector_body, htexts]
  by_cases hdrifted : offered walker 1 body ≠ offered walker 0 body ∨
      mask.length ≠ q.scanOnly.length + (offered walker 0 body).length
  · rw [if_pos hdrifted]
    exact exactOrRefused_of_block rfl (hdrift _)
  · rw [if_neg hdrifted]
    obtain ⟨hsame, hlength⟩ := not_or.mp hdrifted
    rw [not_not] at hsame hlength
    have hmasks : (offered walker 0 body).length = (mask.drop q.scanOnly.length).length := by
      rw [List.length_drop, hlength, Nat.add_sub_cancel_left]
    obtain ⟨haligned, hexact⟩ :=
      walk_applier (walker.nodup 2) (walker.apart 2) body (mask.drop q.scanOnly.length)
      (offered walker 0 body)
    cases hwalk : (walk segmentApplier (walker.visits 2) body
        (.start (mask.drop q.scanOnly.length) (offered walker 0 body))).probe.isAligned with
    | false =>
      -- only a walker that changes between the second walk and the third gets here
      rw [if_pos rfl]
      refine ⟨?_, ?_, ?_, ?_⟩
      · rintro (hlocal | hnone)
        · rw [hremote] at hlocal
          cases hlocal
        · unfold Request.reply at hnone
          rw [hmask] at hnone
          cases hnone
      · intro _ _ _ hfixed
        have htwo : offered walker 2 body = offered walker 0 body := by
          rw [offered, offered, hfixed 2]
        rw [haligned.mpr ⟨htwo, hmasks⟩] at hwalk
        cases hwalk
      · intro _ _ _ hnotBlock
        rw [hdrift] at hnotBlock
        cases hnotBlock
      · intro mask' _ hmask' hor
        unfold Request.reply at hmask'
        rw [hmask] at hmask'
        cases hmask'
        exact absurd hor.symm hdrifted
    | true =>
      rw [if_neg (by decide)]
      have htwo := (haligned.mp hwalk).1
      obtain ⟨hexact, hkey⟩ := hexact htwo hmasks
      refine ⟨?_, ?_, ?_, ?_⟩
      · rintro (hlocal | hnone)
        · rw [hremote] at hlocal
          cases hlocal
        · unfold Request.reply at hnone
          rw [hmask] at hnone
          cases hnone
      · intro mask' _ hmask' hfixed
        unfold Request.reply at hmask'
        rw [hmask] at hmask'
        cases hmask'
        rw [hfixed 2] at hexact
        rw [hfixed 2]
        exact .inl hexact
      · intro mask' _ hmask' hnotBlock
        unfold Request.reply at hmask'
        rw [hmask] at hmask'
        cases hmask'
        refine ⟨hlength, hsame, htwo, hexact, ?_⟩
        intro hstructural
        dsimp only at hnotBlock
        rw [if_pos (hkey.mpr (.inr hstructural))] at hnotBlock
        cases hnotBlock
      · intro mask' _ hmask' hor
        unfold Request.reply at hmask'
        rw [hmask] at hmask'
        cases hmask'
        exact absurd hor.symm hdrifted

theorem moderateBodyInner_exact (q : Request Hit) (nonSegmentVerdict : GuardrailVerdict)
    (countsOut : Counts) (hits : List Hit) (given : LocalSegments) (walker : Walker ι)
    (body : Body ι R) :
    ExactOrRefused q walker body
      (q.moderateBodyInner nonSegmentVerdict countsOut hits given walker body) := by
  unfold Request.moderateBodyInner
  split
  · next hearly =>
    rcases (Bool.or_eq_true _ _).mp hearly with hblock | hnothing
    · exact exactOrRefused_of_block rfl hblock
    · refine exactOrRefused_of_unmasked rfl (.inl ?_)
      rw [Bool.not_eq_true', Bool.or_eq_false_iff] at hnothing
      exact hnothing.2
  · dsimp only
    rw [collector_body]
    generalize (if q.chain.checksLocalSegments = true then _ else _ : GuardrailVerdict × List Hit) =
      judged
    split
    · next hblock => exact exactOrRefused_of_block rfl hblock
    · split
      · next hlocal => exact exactOrRefused_of_unmasked rfl (.inl hlocal)
      · next hremote =>
        rw [Bool.not_eq_false] at hremote
        cases hverdict : (q.reply walker body).verdict.isBlock with
        | true =>
          have hout : q.moderateRemote judged.1 countsOut judged.2
              (walk segmentCollector (walker.visits 0) body .empty).probe walker body = _ :=
                if_pos hverdict
          rw [hout]
          refine exactOrRefused_of_block rfl ?_
          rw [GuardrailVerdict.isBlock_mergedWith, Bool.or_eq_true]
          exact .inr hverdict
        | false =>
          cases hmask : (q.reply walker body).masked with
          | some mask =>
            exact exactOrRefused_of_mask judged.1 countsOut judged.2 hremote hverdict hmask
          | none =>
            refine exactOrRefused_of_unmasked ?_ (.inr hmask)
            unfold Request.reply at hverdict hmask
            unfold Request.moderateRemote
            dsimp only
            rw [hverdict, hmask, if_neg Bool.false_ne_true]

/-- However it is entered. -/
theorem moderate_body_exact (q : Request Hit) (nonSegmentVerdict : GuardrailVerdict)
    (countsOut : Counts) (hits : List Hit) (given : LocalSegments) (walker : Walker ι)
    (body : Body ι R) :
    ExactOrRefused q walker body
        (q.moderateBodyInner nonSegmentVerdict countsOut hits given walker body) ∧
      ExactOrRefused { q with scanOnly := [] } walker body
        (moderateBody q.chain q.dir q.model nonSegmentVerdict countsOut hits walker body) ∧
      ExactOrRefused q walker body
        (moderateBodyScanning q.chain q.dir q.model nonSegmentVerdict countsOut hits q.scanOnly
          walker body) := by
  refine ⟨?_, ?_, ?_⟩
  · exact moderateBodyInner_exact q nonSegmentVerdict countsOut hits given walker body
  · exact moderateBodyInner_exact _ nonSegmentVerdict countsOut hits (.walk []) walker body
  · exact moderateBodyInner_exact q nonSegmentVerdict countsOut hits (.walk []) walker body

end

end Redact
end Aisix
