import Aisix.Policy.Conditions
import Aisix.RateLimit.KeyState
import Mathlib.Data.List.Sort

/-!
# Aisix.Policy.Layer

A rate-limit policy (`rate_limit_policy.rs`) and the layer it adds to a request (`quota.rs`):
whether it applies at a phase, the limits it asks for and the keys of the buckets it counts in.

A policy is one of two forms, which `validateSemantics` keeps apart: the classic form names one
subject by `(scope, scope_ref)`, the conditional form matches a tree of conditions and splits its
bucket by the dimensions in `group_by`.
-/

namespace Aisix
namespace Policy

open RateLimit (Limits)

/-- `RateLimit::is_unrestricted`. -/
def isUnrestricted (l : Limits) : Bool :=
  l.tpm.isNone && l.tph.isNone && l.tpd.isNone && l.rps.isNone && l.rpm.isNone && l.rph.isNone &&
    l.rpd.isNone && l.concurrency.isNone && l.grantedMicroUsd.isNone

inductive PolicyScope where
  | apiKey | model | team | member | teamMember
  deriving DecidableEq, Repr

def PolicyScope.asStr : PolicyScope → String
  | .apiKey => "api_key"
  | .model => "model"
  | .team => "team"
  | .member => "member"
  | .teamMember => "team_member"

inductive PolicyWindow where
  | second | minute | hour | day
  deriving DecidableEq, Repr

inductive PolicyAction where
  | reject
  deriving DecidableEq, Repr

structure RateLimitPolicy where
  scope : Option PolicyScope := none
  scopeRef : Option String := none
  window : Option PolicyWindow := none
  maxRequests : Option UInt64 := none
  maxTokens : Option UInt64 := none
  maxSpendMicroUsd : Option UInt64 := none
  grantedMicroUsd : Option UInt64 := none
  conditions : Option (List ConditionNode) := none
  groupBy : Option (List GroupByDimension) := none
  limits : Option Limits := none
  action : Option PolicyAction := none

mutual

def nodeRefs : ConditionNode → Bool
  | .leaf leaf => leaf.dimension.isModelProperty
  | .group _ _ children => anyNodeRefs children

def anyNodeRefs : List ConditionNode → Bool
  | [] => false
  | node :: nodes => nodeRefs node || anyNodeRefs nodes

end

namespace RateLimitPolicy

/-- `limits` is the form discriminator. -/
def isConditional (p : RateLimitPolicy) : Bool := p.limits.isSome

/-- Whether any condition leaf or `group_by` dimension names a model property. -/
def referencesModelProperty (p : RateLimitPolicy) : Bool :=
  p.conditions.any anyNodeRefs ||
    p.groupBy.any fun dims => dims.any fun d => d == .model || d == .provider

/-- The first dimension that already stands before it in the list. -/
def repeated (seen : List GroupByDimension) : List GroupByDimension → Option GroupByDimension
  | [] => none
  | dim :: dims => if seen.contains dim then some dim else repeated (seen ++ [dim]) dims

/-- A field of the classic form is set. -/
def classic (p : RateLimitPolicy) : Bool :=
  p.scope.isSome || p.scopeRef.isSome || p.window.isSome || p.maxRequests.isSome ||
    p.maxTokens.isSome || p.maxSpendMicroUsd.isSome

/-- A field of the conditional form is set. -/
def conditional (p : RateLimitPolicy) : Bool :=
  p.conditions.isSome || p.groupBy.isSome || p.limits.isSome || p.action.isSome

/-- Cross-field checks the JSON Schema cannot express; a failing row is rejected whole. -/
def validateSemantics (host : Externals) (p : RateLimitPolicy) : Except String Unit :=
  if p.classic && p.conditional then
    .error ("policy mixes the classic (scope/scope_ref/window/max_*) and conditional " ++
      "(conditions/group_by/limits/action) forms — a row is exactly one")
  else if p.conditional then
    match p.limits with
    | none => .error "conditional policy requires `limits`"
    | some limits =>
      if isUnrestricted limits then .error "`limits` must set at least one field"
      else
        match (p.conditions.elim (.ok ()) (validateConditionNodes host) : Except String Unit) with
        | .error e => .error e
        | .ok () =>
          match p.groupBy.bind (repeated []) with
          | some dim => .error s!"`group_by` repeats dimension `{dim.name}`"
          | none => .ok ()
  else if p.scope.isNone || p.scopeRef.isNone then
    .error "classic policy requires `scope` and `scope_ref`"
  else
    let windowed := p.maxRequests.isSome || p.maxTokens.isSome || p.maxSpendMicroUsd.isSome
    if windowed && p.window.isNone then
      .error ("classic policy requires `window` alongside `max_requests`, `max_tokens` or " ++
        "`max_spend_micro_usd`")
    else if !windowed && p.grantedMicroUsd.isNone then
      .error ("classic policy requires `max_requests`, `max_tokens`, `max_spend_micro_usd` or " ++
        "`granted_micro_usd`")
    else .ok ()

theorem forms_of_validate {host : Externals} {p : RateLimitPolicy}
    (h : p.validateSemantics host = .ok ()) :
    (p.isConditional = true ∧ p.classic = false) ∨
      (p.isConditional = false ∧ p.conditional = false ∧ p.scope.isSome ∧ p.scopeRef.isSome) := by
  unfold validateSemantics at h
  split at h
  · cases h
  · next hmix =>
    split at h
    · next hcond =>
      split at h
      · cases h
      · next limits hlim => exact .inl ⟨by simp [isConditional, hlim], by simpa [hcond] using hmix⟩
    · next hcond =>
      split at h
      · cases h
      · next hsc =>
        have hlim : p.limits.isSome = false := by
          simp only [conditional, Bool.or_eq_true, not_or, Bool.not_eq_true] at hcond
          exact hcond.1.2
        simp only [Bool.or_eq_true, not_or, Bool.not_eq_true, Option.isNone_eq_false_iff] at hsc
        exact .inr ⟨hlim, by simpa using hcond, hsc⟩

end RateLimitPolicy

/-- Which scan of the policy table this is. -/
inductive PolicyPhase where
  | request (deferModelProperties : Bool)
  | modelTarget
  deriving DecidableEq, Repr

/-- The spend side of a `PolicyLayer`, with a bucket and limits of its own. -/
structure SpendLayer where
  bucketKey : String
  limits : Limits
  deriving DecidableEq

/-- One policy layer a request must reserve at the current phase. -/
structure PolicyLayer where
  bucketKey : String
  limits : Limits
  spend : Option SpendLayer
  deriving DecidableEq

/-- Convert a classic row's `window` and `max_*` into a rate limit. -/
def classicRateLimit (p : RateLimitPolicy) : Option Limits :=
  p.window.map fun window =>
    match window with
    | .second => { rps := p.maxRequests }
    | .minute => { rpm := p.maxRequests, tpm := p.maxTokens }
    | .hour => { rph := p.maxRequests, tph := p.maxTokens }
    | .day => { rpd := p.maxRequests, tpd := p.maxTokens }

/-- Project the spend ceiling onto the token counter of its window; a second has none. -/
def spendLimitsFor (window : PolicyWindow) (maxSpendMicroUsd : UInt64) : Limits :=
  match window with
  | .second => {}
  | .minute => { tpm := some maxSpendMicroUsd }
  | .hour => { tph := some maxSpendMicroUsd }
  | .day => { tpd := some maxSpendMicroUsd }

def applyGranted (rl : Limits) (grantedMicroUsd : Option UInt64) : Limits :=
  match grantedMicroUsd with
  | some g => { rl with grantedMicroUsd := some g }
  | none => rl

def spendBucketKey (scope scopeRef policyEntryId : String) : String :=
  s!"spend:{scope}:{scopeRef}:{policyEntryId}"

/-- `str::replace` of one character. -/
def replaceChar (c : Char) (by_ : String) (s : String) : String :=
  String.ofList (s.toList.flatMap fun d => if d = c then by_.toList else [d])

/-- Escape a `group_by` segment value for the bucket key. -/
def escapeBucketSegment (value : String) : String :=
  if value.toList.any (fun c => c == ':' || c == '=' || c == '%') then
    replaceChar '=' "%3D" (replaceChar ':' "%3A" (replaceChar '%' "%25" value))
  else value

/-- One `:<dim>=<value>` segment per dimension, `none` if the request does not carry one. -/
def appendSegments (input : ConditionInput) : List GroupByDimension → String → Option String
  | [], bucketKey => some bucketKey
  | dim :: dims, bucketKey =>
    match input.getGroupBy dim with
    | none => none
    | some value =>
      appendSegments input dims s!"{bucketKey}:{dim.name}={escapeBucketSegment value}"

/-- The order of `canonical_rank`, compared as a tuple. -/
def rankLe (a b : GroupByDimension) : Prop :=
  a.canonicalRank.1 < b.canonicalRank.1 ∨
    (a.canonicalRank.1 = b.canonicalRank.1 ∧ a.canonicalRank.2 ≤ b.canonicalRank.2)

instance : DecidableRel rankLe := fun a b =>
  inferInstanceAs (Decidable (a.canonicalRank.1 < b.canonicalRank.1 ∨
    (a.canonicalRank.1 = b.canonicalRank.1 ∧ a.canonicalRank.2 ≤ b.canonicalRank.2)))

/-- The policy's split dimensions, in canonical order. -/
def groupByOrder (p : RateLimitPolicy) : List GroupByDimension :=
  (p.groupBy.getD []).insertionSort rankLe

def matchConditionalLayer (host : Externals) (p : RateLimitPolicy) (policyEntryId : String)
    (input : ConditionInput) (phase : PolicyPhase) : Option PolicyLayer :=
  let followsModel := p.referencesModelProperty
  let dueHere :=
    match phase with
    | .request deferModelProperties => !(followsModel && deferModelProperties)
    | .modelTarget => followsModel
  if !dueHere then none
  else if !evalConditionNodes host (p.conditions.getD []) input then none
  else
    match appendSegments input (groupByOrder p) s!"policy:v2:{policyEntryId}" with
    | none => none
    | some bucketKey =>
      match p.limits with
      | none => none
      | some limits =>
        if isUnrestricted limits then none else some { bucketKey, limits, spend := none }

/-- Whether a classic row's subject is the request's. -/
def scopeApplies (input : ConditionInput) (scopeRef : String) : PolicyScope → Bool
  | .apiKey => input.apiKey == some scopeRef
  | .model => input.model == some scopeRef
  | .team => input.team == some scopeRef
  | .member => input.member == some scopeRef
  -- applies only when the key carries a member, which the bucket is keyed by
  | .teamMember => input.team == some scopeRef && input.member.isSome

/-- `team_member` counts each member of the team in a bucket of its own. -/
def memberSuffix (scope : PolicyScope) (member : Option String) : String :=
  match scope, member with
  | .teamMember, some member => s!":{member}"
  | _, _ => ""

def classicSpend (p : RateLimitPolicy) (scope : PolicyScope)
    (scopeRef policyEntryId suffix : String) :
    Option SpendLayer :=
  let limits :=
    match p.maxSpendMicroUsd, p.window with
    | some maxSpend, some window => spendLimitsFor window maxSpend
    | _, _ => {}
  let limits := applyGranted limits p.grantedMicroUsd
  if isUnrestricted limits then none
  else some { bucketKey := s!"{spendBucketKey scope.asStr scopeRef policyEntryId}{suffix}", limits }

/-- Decide whether the policy applies at this phase and build its bucket keys and limits. -/
def matchPolicyLayer (host : Externals) (p : RateLimitPolicy) (policyEntryId : String)
    (input : ConditionInput) (phase : PolicyPhase) : Option PolicyLayer :=
  if p.isConditional then matchConditionalLayer host p policyEntryId input phase
  else
    match p.scope, p.scopeRef with
    | some scope, some scopeRef =>
      if phase = .modelTarget ∧ scope ≠ .model then none
      else if !scopeApplies input scopeRef scope then none
      else
        let limits := (classicRateLimit p).getD {}
        let suffix := memberSuffix scope input.member
        let bucketKey := s!"policy:{scope.asStr}:{scopeRef}:{policyEntryId}{suffix}"
        let spend := classicSpend p scope scopeRef policyEntryId suffix
        if isUnrestricted limits && spend.isNone then none else some { bucketKey, limits, spend }
    | _, _ => none

variable {host : Externals} {p : RateLimitPolicy} {id : String} {input : ConditionInput}
  {phase : PolicyPhase} {l : PolicyLayer}

theorem matchConditionalLayer_some (h : matchConditionalLayer host p id input phase = some l) :
    evalConditionNodes host (p.conditions.getD []) input = true ∧
      appendSegments input (groupByOrder p) s!"policy:v2:{id}" = some l.bucketKey ∧
        l.spend = none := by
  unfold matchConditionalLayer at h
  dsimp only at h
  rw [Option.ite_none_left_eq_some, Option.ite_none_left_eq_some] at h
  obtain ⟨-, heval, h⟩ := h
  split at h
  · cases h
  · next key hkey =>
    split at h
    · cases h
    · split at h
      · cases h
      · cases h
        exact ⟨by simpa using heval, hkey, rfl⟩

theorem matchPolicyLayer_classic (hcond : p.isConditional = false)
    (h : matchPolicyLayer host p id input phase = some l) :
    ∃ scope scopeRef, p.scope = some scope ∧ p.scopeRef = some scopeRef ∧
      scopeApplies input scopeRef scope = true ∧
      l.bucketKey = s!"policy:{scope.asStr}:{scopeRef}:{id}{memberSuffix scope input.member}" ∧
      l.spend = classicSpend p scope scopeRef id (memberSuffix scope input.member) := by
  unfold matchPolicyLayer at h
  rw [if_neg (by simp [hcond])] at h
  split at h
  · next scope scopeRef hscope href =>
    rw [Option.ite_none_left_eq_some, Option.ite_none_left_eq_some] at h
    obtain ⟨-, happ, h⟩ := h
    dsimp only at h
    rw [Option.ite_none_left_eq_some] at h
    obtain ⟨-, h⟩ := h
    cases h
    exact ⟨scope, scopeRef, hscope, href, by simpa using happ, rfl, rfl⟩
  · cases h

theorem matchPolicyLayer_conditional (hcond : p.isConditional = true) :
    matchPolicyLayer host p id input phase = matchConditionalLayer host p id input phase :=
  if_pos hcond

end Policy
end Aisix
