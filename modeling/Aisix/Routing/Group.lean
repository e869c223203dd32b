import Aisix.Budgets.Gate
import Aisix.Health.RuntimeStatus
import Aisix.IpAddr
import Aisix.Pricing.Index
import Aisix.Routing.Target

/-!
# Aisix.Routing.Group

A Model Group, and the filters in front of its strategy: provider groups, tags, what the route can
use, client addresses and budgets. No filter lets a target in that an earlier one kept out
(`mem_left_iff`).
-/

namespace Aisix
namespace Routing

open Budgets Etcd Pricing

inductive RoutingStrategy where
  | roundRobin
  | consistentHash
  | failover
  | leastCost
  | leastLatency
  | leastBusy
  deriving DecidableEq, Repr

def RoutingStrategy.isMetricBased : RoutingStrategy → Bool
  | leastCost | leastLatency | leastBusy => true
  | _ => false

inductive WhenAllUnavailablePolicy where
  | fail
  | tryAnyway
  deriving DecidableEq, Repr

inductive HashOnType where
  | header
  | cookie
  | apiKey
  | clientIp
  deriving DecidableEq, Repr

/-- One source of the hash key. -/
structure HashOnSource where
  sourceType : HashOnType
  name : Option String
  deriving DecidableEq, Repr

def defaultHashOn : List HashOnSource := [⟨.header, some "x-aisix-routing-key"⟩, ⟨.apiKey, none⟩]

structure ModelRouting where
  strategy : RoutingStrategy
  targets : List RoutingTarget
  maxFallbacks : Option UInt32
  whenAllUnavailable : Option WhenAllUnavailablePolicy
  hashOn : Option (List HashOnSource)
  deriving DecidableEq, Repr

namespace ModelRouting

def hashOnOrDefault (r : ModelRouting) : List HashOnSource :=
  match r.hashOn with
  | none | some [] => defaultHashOn
  | some chain => chain

def maxFallbacksOrDefault (r : ModelRouting) : Nat :=
  let laterTargets := r.targets.length - 1
  match r.maxFallbacks with
  | some n => min n.toNat laterTargets
  | none => laterTargets

def whenAllUnavailableOrDefault (r : ModelRouting) : WhenAllUnavailablePolicy :=
  r.whenAllUnavailable.getD .fail

end ModelRouting

structure BackgroundModelCheck where
  staleAfterSeconds : Nat
  deriving DecidableEq, Repr

/-- What routing reads of a model. -/
structure Model where
  displayName : String
  routing : Option ModelRouting
  isEnsemble : Bool
  isSemantic : Bool
  providerKeyId : Option String
  allowedCidrs : Option (List String)
  backgroundModelCheck : Option BackgroundModelCheck
  pricingKey : Option String
  cost : Option ModelCost

abbrev Row := ResourceEntry Model

structure ProviderKey where
  displayName : String
  groups : List String

structure AisixSnapshot where
  models : ResourceTable Model Model.displayName
  providerKeys : ResourceTable ProviderKey ProviderKey.displayName

/-- What the selection asks of other libraries. -/
structure Library where
  /-- The network a text names, as the addresses in it. -/
  parseNet : String → Option (IpAddr → Bool)
  /-- The debug text of a list of tags. -/
  debugTags : List String → String
  /-- Floating-point numbers are their bits. -/
  add : UInt64 → UInt64 → UInt64
  div : UInt64 → UInt64 → UInt64
  ofNat : Nat → UInt64

/-- The headers of a request under their lower-case names, each with its value where that is text.
-/
abbrev HeaderMap := List (String × Option String)

structure RoutingRequest where
  tags : List String
  headers : Option HeaderMap
  apiKeyId : String
  sourceIp : String
  /-- The target that produced the context a follow-up carries. -/
  contextOrigin : Option String
  budget : Option BudgetGate
  /-- Of a route that only some targets can answer. -/
  serves : Option (Model → Bool)
  allowedGroups : List String

inductive ProxyError where
  | modelNotFound (requested : String)
  | allCandidatesUnavailable (retryAfterSecs : Option Nat)
  | invalidRequest (message : String)
  | modelIpRestricted (addressed : String)
  | budgetExceeded (reason : BudgetReason)
  | budgetUnverified

/-! ### Provider groups and tags -/

def DEFAULT_ROUTING_TAG : String := "default"

section Filters

variable (snap : AisixSnapshot)

namespace RoutingTarget

/-- The name of the model a target points at; an id that leads nowhere stands for itself. -/
def modelRef (t : RoutingTarget) : String :=
  match t.modelId with
  | some id =>
    match snap.models.getById id with
    | some entry => entry.value.displayName
    | none => id
  | none => t.model

def hasTags (t : RoutingTarget) : Bool := t.tags.any fun tags => !tags.isEmpty

def isDefaultTarget (t : RoutingTarget) : Bool :=
  t.tags.any fun tags => tags.any (· == DEFAULT_ROUTING_TAG)

def matchesRequestTags (t : RoutingTarget) (requestTags : List String) : Bool :=
  t.tags.any fun tags => tags.any fun tag => requestTags.any (· == tag)

end RoutingTarget

def providerKeyInGroups (pk : ProviderKey) (allowed : List String) : Bool :=
  allowed.isEmpty || pk.groups.any fun g => allowed.contains g

def targetInGroups (model : Model) (allowed : List String) : Bool :=
  if allowed.isEmpty then true
  else (model.providerKeyId.bind snap.providerKeys.getById).any fun pk =>
    providerKeyInGroups pk.value allowed

def targetsInGroups (targets : List RoutingTarget) (allowed : List String) : List RoutingTarget :=
  if allowed.isEmpty then targets
  else targets.filter fun t =>
    (snap.models.getByName (t.modelRef snap)).any fun entry =>
      targetInGroups snap entry.value allowed

def noTargetInGroups : ProxyError := .allCandidatesUnavailable none

def eligibleTargets (targets : List RoutingTarget) (requestTags : List String) :
    List RoutingTarget :=
  if !targets.any RoutingTarget.hasTags then targets
  else
    let defaults := targets.filter RoutingTarget.isDefaultTarget
    if requestTags.isEmpty then
      if defaults.isEmpty then targets else defaults
    else
      let matched := targets.filter (·.matchesRequestTags requestTags)
      if matched.isEmpty then defaults else matched

/-- The group's targets for a key's provider groups and the request's tags. -/
def narrowed (lib : Library) (routing : ModelRouting) (req : RoutingRequest) :
    Except ProxyError (List RoutingTarget) :=
  let grouped := targetsInGroups snap routing.targets req.allowedGroups
  if grouped.isEmpty then .error noTargetInGroups
  else
    let eligible := eligibleTargets grouped req.tags
    if eligible.isEmpty then
      if !req.allowedGroups.isEmpty then .error noTargetInGroups
      else .error
        (.invalidRequest ("no routing target matches request tags " ++ lib.debugTags req.tags))
    else .ok eligible

/-! ### One target for each model -/

/-- The targets under the names of their models, one for each name that was not seen. -/
def collapse (seen : List String) : List RoutingTarget → List RoutingTarget
  | [] => []
  | t :: ts =>
    let model := t.modelRef snap
    if model ∈ seen then collapse seen ts
    else { t with model, modelId := none } :: collapse (model :: seen) ts

def alreadyNormalized (seen : List String) : List RoutingTarget → Bool
  | [] => true
  | t :: ts => t.modelId.isNone && !seen.contains t.model && alreadyNormalized (t.model :: seen) ts

def normalized (eligible : List RoutingTarget) : List RoutingTarget :=
  if alreadyNormalized [] eligible then eligible else collapse snap [] eligible

/-! ### What a request can use -/

/-- The targets a partial route can use; `none` when it can use none. -/
def servedTargets (serves : Option (Model → Bool)) (eligible : List RoutingTarget) :
    Option (List RoutingTarget) :=
  match serves with
  | some serves =>
    let kept :=
      eligible.filter fun t => (snap.models.getByName t.model).any fun entry => serves entry.value
    if kept.isEmpty then none else some kept
  | none => some eligible

variable (lib : Library)

def Model.ipAllowed (model : Model) (sourceIp : String) : Bool :=
  match model.allowedCidrs with
  | none | some [] => true
  | some ranges =>
    match IpAddr.fromStr sourceIp.toList with
    | some ip => (ranges.filterMap lib.parseNet).any fun contains => contains ip.toCanonical
    | none => false

/-- A name that leads nowhere stays, to be counted as a missing member later. -/
def targetsAllowedForIp (targets : List RoutingTarget) (sourceIp : String) : List RoutingTarget :=
  targets.filter fun t => (snap.models.getByName t.model).all fun entry =>
    entry.value.ipAllowed lib sourceIp

def intoResult : Verdict → Except ProxyError Unit
  | .allow => .ok ()
  | .exceeded reason => .error (.budgetExceeded reason)
  | .unverified => .error .budgetUnverified

def checkModel (gate : BudgetGate) (model : Model) : Except ProxyError Unit :=
  match model.providerKeyId with
  | some id => intoResult (gate.providerKeyVerdict id)
  | none => .ok ()

def budgetOf (gate : BudgetGate) (t : RoutingTarget) : Except ProxyError Unit :=
  match snap.models.getByName t.model with
  | some entry => checkModel gate entry.value
  | none => .ok ()

/-- An exhausted budget is reported before one that cannot be verified. -/
def keepRefusal (gate : BudgetGate) (refusal : Option ProxyError) (t : RoutingTarget) :
    Option ProxyError :=
  match budgetOf snap gate t with
  | .ok () => refusal
  | .error err =>
    match refusal with
    | some (.budgetExceeded reason) => some (.budgetExceeded reason)
    | _ => some err

def targetsWithinBudget (gate : BudgetGate) (targets : List RoutingTarget) :
    Except ProxyError (List RoutingTarget) :=
  let kept := targets.filter fun t => (budgetOf snap gate t).isOk
  match targets.foldl (keepRefusal snap gate) none with
  | some err => if kept.isEmpty then .error err else .ok kept
  | none => .ok kept

/-- The targets for the caller's address and the budgets of their credentials. -/
def reachable (virtualName : String) (req : RoutingRequest) (eligible : List RoutingTarget) :
    Except ProxyError (List RoutingTarget) :=
  let allowed := targetsAllowedForIp snap lib eligible req.sourceIp
  if allowed.isEmpty then .error (.modelIpRestricted virtualName)
  else
    match req.budget with
    | some gate => targetsWithinBudget snap gate allowed
    | none => .ok allowed

end Filters

/-! ### Which targets are left -/

section Left

variable {snap : AisixSnapshot} {lib : Library} {routing : ModelRouting} {req : RoutingRequest}

/-- Among `targets`, tags do not rule `t` out: none has tags, or `t` has one of the request's, or
the targets for everything else stand in. -/
def TagEligible (targets : List RoutingTarget) (requestTags : List String) (t : RoutingTarget) :
    Prop :=
  (∀ u ∈ targets, u.hasTags = false) ∨
    (requestTags = [] ∧ (t.isDefaultTarget = true ∨ ∀ u ∈ targets, u.isDefaultTarget = false)) ∨
    (requestTags ≠ [] ∧ (t.matchesRequestTags requestTags = true ∨
      t.isDefaultTarget = true ∧ ∀ u ∈ targets, u.matchesRequestTags requestTags = false))

theorem mem_eligibleTargets_iff {targets : List RoutingTarget} {requestTags : List String}
    {t : RoutingTarget} :
    t ∈ eligibleTargets targets requestTags ↔ t ∈ targets ∧ TagEligible targets requestTags t := by
  have hnone : ∀ p : RoutingTarget → Bool, (targets.filter p).isEmpty = true ↔
      ∀ u ∈ targets, p u = false := by
    intro p
    simp
  unfold eligibleTargets TagEligible
  by_cases htags : ∀ u ∈ targets, u.hasTags = false
  · have hany : targets.any RoutingTarget.hasTags = false := by simpa using htags
    rw [hany, if_pos Bool.not_false]
    exact (and_iff_left (.inl htags)).symm
  · have hany : targets.any RoutingTarget.hasTags = true := by simpa using htags
    rw [hany, if_neg (by decide)]
    dsimp only
    by_cases hempty : requestTags = []
    · rw [if_pos (by rw [hempty]; rfl)]
      by_cases hdefault : ∀ u ∈ targets, u.isDefaultTarget = false
      · rw [if_pos ((hnone _).2 hdefault)]
        exact (and_iff_left (.inr (.inl ⟨hempty, .inr hdefault⟩))).symm
      · rw [if_neg (mt (hnone _).1 hdefault), List.mem_filter]
        simp only [htags, hempty, hdefault, or_false, false_or, true_and, ne_eq,
          not_true_eq_false, false_and]
    · rw [if_neg (by simpa using hempty)]
      by_cases hmatch : ∀ u ∈ targets, u.matchesRequestTags requestTags = false
      · rw [if_pos ((hnone _).2 hmatch), List.mem_filter]
        refine and_congr_right fun ht => ?_
        simp only [htags, hempty, hmatch t ht, Bool.false_eq_true, false_or, false_and, ne_eq,
          not_false_eq_true, true_and]
        exact (and_iff_left hmatch).symm
      · rw [if_neg (mt (hnone _).1 hmatch), List.mem_filter]
        simp only [htags, hempty, hmatch, and_false, or_false, false_or, false_and, ne_eq,
          not_false_eq_true, true_and]

theorem mem_targetsInGroups_iff {targets : List RoutingTarget} {allowed : List String}
    {t : RoutingTarget} {e : Row} (h : snap.models.getByName (t.modelRef snap) = some e) :
    t ∈ targetsInGroups snap targets allowed ↔ t ∈ targets ∧
      targetInGroups snap e.value allowed = true := by
  unfold targetsInGroups
  cases hallowed : allowed.isEmpty with
  | true =>
    have hin : targetInGroups snap e.value allowed = true := by rw [targetInGroups, if_pos hallowed]
    rw [if_pos rfl]
    exact (and_iff_left hin).symm
  | false => rw [if_neg Bool.false_ne_true, List.mem_filter, h, Option.any_some]

/-- A target under the name of its model. -/
def normal (snap : AisixSnapshot) (t : RoutingTarget) : RoutingTarget :=
  { t with model := t.modelRef snap, modelId := none }

theorem collapse_of_normalized {seen : List String} {ts : List RoutingTarget}
    (h : alreadyNormalized seen ts = true) : collapse snap seen ts = ts := by
  induction ts generalizing seen with
  | nil => rfl
  | cons t ts ih =>
    simp only [alreadyNormalized, Bool.and_eq_true, Option.isNone_iff_eq_none, Bool.not_eq_true',
      List.contains_eq_mem, decide_eq_false_iff_not] at h
    obtain ⟨⟨hid, hnew⟩, hrest⟩ := h
    have href : t.modelRef snap = t.model := by rw [RoutingTarget.modelRef, hid]
    rw [collapse, href, if_neg hnew, ih hrest, ← hid]

theorem normalized_eq (ts : List RoutingTarget) : normalized snap ts = collapse snap [] ts := by
  unfold normalized
  split
  · next h => exact (collapse_of_normalized h).symm
  · rfl

theorem mem_collapse_iff {seen : List String} {ts : List RoutingTarget} {u : RoutingTarget} :
    u ∈ collapse snap seen ts ↔
      ∃ t, ts.find? (fun t' => t'.modelRef snap = t.modelRef snap) = some t ∧
        t.modelRef snap ∉ seen ∧ u = normal snap t := by
  induction ts generalizing seen with
  | nil => simp [collapse]
  | cons t₀ ts ih =>
    have hfind :
        ∀ t, (t₀ :: ts).find? (fun t' => decide (t'.modelRef snap = t.modelRef snap)) = some t ↔
        t₀ = t ∨ t₀.modelRef snap ≠ t.modelRef snap ∧
          ts.find? (fun t' => decide (t'.modelRef snap = t.modelRef snap)) = some t := by
      intro t
      by_cases hname : t₀.modelRef snap = t.modelRef snap
      · rw [List.find?_cons_of_pos (by simpa using hname), Option.some.injEq]
        exact ⟨.inl, fun h => h.resolve_right fun h => h.1 hname⟩
      · rw [List.find?_cons_of_neg (by simpa using hname)]
        exact ⟨fun h => .inr ⟨hname, h⟩,
          fun h => (h.resolve_left fun heq => hname (congrArg _ heq)).2⟩
    simp only [hfind]
    rw [collapse]
    split
    · next hseen =>
      rw [ih]
      refine exists_congr fun t => ⟨fun ⟨h, hnew, hu⟩ => ?_, fun ⟨h, hnew, hu⟩ => ?_⟩
      · exact ⟨.inr ⟨fun heq => hnew (heq ▸ hseen), h⟩, hnew, hu⟩
      · rcases h with rfl | h
        · exact absurd hseen hnew
        · exact ⟨h.2, hnew, hu⟩
    · next hnew₀ =>
      rw [List.mem_cons, ih]
      constructor
      · rintro (rfl | ⟨t, h, hnew, hu⟩)
        · exact ⟨t₀, .inl rfl, hnew₀, rfl⟩
        · have hne : t₀.modelRef snap ≠ t.modelRef snap :=
            fun heq => hnew (heq ▸ List.mem_cons_self)
          exact ⟨t, .inr ⟨hne, h⟩, fun hmem => hnew (List.mem_cons_of_mem _ hmem), hu⟩
      · rintro ⟨t, rfl | ⟨hne, h⟩, hnew, hu⟩
        · exact .inl hu
        · refine .inr ⟨t, h, fun hmem => ?_, hu⟩
          rcases List.mem_cons.1 hmem with heq | hmem
          · exact hne heq.symm
          · exact hnew hmem

theorem nodup_collapse (seen : List String) (ts : List RoutingTarget) :
    ((collapse snap seen ts).map (·.model)).Nodup ∧
    ∀ u ∈ collapse snap seen ts, u.model ∉ seen := by
  induction ts generalizing seen with
  | nil => exact ⟨List.nodup_nil, by simp [collapse]⟩
  | cons t ts ih =>
    rw [collapse]
    split
    · exact ih seen
    · next hnew =>
      obtain ⟨hnodup, hseen⟩ := ih (t.modelRef snap :: seen)
      constructor
      · rw [List.map_cons, List.nodup_cons]
        refine ⟨fun hmem => ?_, hnodup⟩
        obtain ⟨u, hu, hname⟩ := List.mem_map.1 hmem
        exact hseen u hu (hname ▸ List.mem_cons_self)
      · intro u hu
        rcases List.mem_cons.1 hu with rfl | hu
        · exact hnew
        · exact fun hmem => hseen u hu (List.mem_cons_of_mem _ hmem)

theorem narrowed_ok {tagged : List RoutingTarget} (h : narrowed snap lib routing req = .ok tagged) :
    tagged = eligibleTargets (targetsInGroups snap routing.targets req.allowedGroups) req.tags := by
  unfold narrowed at h
  dsimp only at h
  split at h
  · cases h
  · split at h
    · split at h <;> cases h
    · exact (Except.ok.inj h).symm

/-- A row for the part of a request that a filter reads. -/
def isServed (req : RoutingRequest) (e : Row) : Bool := req.serves.all fun serves => serves e.value

def isAdmitted (lib : Library) (req : RoutingRequest) (e : Row) : Bool :=
  e.value.ipAllowed lib req.sourceIp

def isWithinBudget (req : RoutingRequest) (e : Row) : Bool :=
  req.budget.all fun gate => (checkModel gate e.value).isOk

theorem mem_servedTargets {ts kept : List RoutingTarget}
    (h : servedTargets snap req.serves ts = some kept) {u : RoutingTarget} {e : Row}
    (hu : snap.models.getByName u.model = some e) :
    u ∈ kept ↔ u ∈ ts ∧ isServed req e = true := by
  unfold servedTargets at h
  unfold isServed
  cases hserves : req.serves with
  | none =>
    rw [hserves] at h
    obtain rfl := Option.some.inj h
    exact (and_iff_left rfl).symm
  | some serves =>
    rw [hserves] at h
    dsimp only at h
    split at h
    · cases h
    · obtain rfl := Option.some.inj h
      rw [List.mem_filter, hu, Option.any_some, Option.all_some]

theorem targetsWithinBudget_ok {gate : BudgetGate} {ts kept : List RoutingTarget}
    (h : targetsWithinBudget snap gate ts = .ok kept) :
    kept = ts.filter fun t => (budgetOf snap gate t).isOk := by
  unfold targetsWithinBudget at h
  dsimp only at h
  split at h
  · split at h
    · cases h
    · exact (Except.ok.inj h).symm
  · exact (Except.ok.inj h).symm

theorem mem_reachable {virtualName : String} {ts kept : List RoutingTarget}
    (h : reachable snap lib virtualName req ts = .ok kept) {u : RoutingTarget} {e : Row}
    (hu : snap.models.getByName u.model = some e) :
    u ∈ kept ↔ u ∈ ts ∧ isAdmitted lib req e = true ∧ isWithinBudget req e = true := by
  have hallowed : u ∈ targetsAllowedForIp snap lib ts req.sourceIp ↔
      u ∈ ts ∧ isAdmitted lib req e = true := by
    rw [targetsAllowedForIp, List.mem_filter, hu]
    rfl
  unfold reachable at h
  unfold isWithinBudget
  dsimp only at h
  split at h
  · cases h
  · cases hbudget : req.budget with
    | none =>
      rw [hbudget] at h
      obtain rfl := Except.ok.inj h
      rw [hallowed, Option.all_none, and_iff_left rfl]
    | some gate =>
      rw [hbudget] at h
      have hgate : budgetOf snap gate u = checkModel gate e.value := by rw [budgetOf, hu]
      rw [targetsWithinBudget_ok h, List.mem_filter, hallowed, hgate, and_assoc]
      rfl

/-- A target of the group that the request may be sent to, with the row of its model. Where several
targets name one model, the first of those with the right tags speaks for it. -/
structure Candidate (lib : Library) (snap : AisixSnapshot) (routing : ModelRouting)
    (req : RoutingRequest) (t : RoutingTarget) (e : Row) : Prop where
  listed : t ∈ routing.targets
  resolves : snap.models.getByName (t.modelRef snap) = some e
  in_groups : targetInGroups snap e.value req.allowedGroups = true
  tagged : TagEligible (targetsInGroups snap routing.targets req.allowedGroups) req.tags t
  first : (eligibleTargets (targetsInGroups snap routing.targets req.allowedGroups) req.tags).find?
    (fun u => u.modelRef snap = t.modelRef snap) = some t
  served : ∀ serves, req.serves = some serves → serves e.value = true
  admitted : e.value.ipAllowed lib req.sourceIp = true
  within_budget : ∀ gate, req.budget = some gate → checkModel gate e.value = .ok ()

theorem isOk_iff {ε : Type} {r : Except ε Unit} : r.isOk = true ↔ r = .ok () := by
  cases r with
  | ok _ => exact ⟨fun _ => rfl, fun _ => rfl⟩
  | error _ => exact ⟨fun h => absurd h Bool.false_ne_true, fun h => by cases h⟩

/-- What the filters leave is the candidates, each under the name of its model. -/
theorem mem_left_iff {virtualName : String} {tagged served left : List RoutingTarget}
    (hnarrowed : narrowed snap lib routing req = .ok tagged)
    (hserved : servedTargets snap req.serves (normalized snap tagged) = some served)
    (hleft : reachable snap lib virtualName req served = .ok left) {u : RoutingTarget} {e : Row} :
    u ∈ left ∧ snap.models.getByName u.model = some e ↔ ∃ t, Candidate lib snap routing req t e ∧
      u = normal snap t := by
  rw [narrowed_ok hnarrowed, normalized_eq] at hserved
  have hmem : ∀ {u : RoutingTarget}, snap.models.getByName u.model = some e → (u ∈ left ↔
      (u ∈ collapse snap []
        (eligibleTargets (targetsInGroups snap routing.targets req.allowedGroups) req.tags) ∧
        isServed req e = true) ∧ isAdmitted lib req e = true ∧ isWithinBudget req e = true) := by
    intro u hu
    rw [mem_reachable hleft hu, mem_servedTargets hserved hu]
  constructor
  · rintro ⟨hu, hget⟩
    obtain ⟨⟨hcollapse, hserves⟩, hadmitted, hbudget⟩ := (hmem hget).1 hu
    obtain ⟨t, hfirst, -, rfl⟩ := mem_collapse_iff.1 hcollapse
    have helig := mem_eligibleTargets_iff.1 (List.mem_of_find?_eq_some hfirst)
    have hlisted := (mem_targetsInGroups_iff hget).1 helig.1
    exact ⟨t, {
      listed := hlisted.1
      resolves := hget
      in_groups := hlisted.2
      tagged := helig.2
      first := hfirst
      served := fun serves hs => by rwa [isServed, hs, Option.all_some] at hserves
      admitted := hadmitted
      within_budget :=
        fun gate hg => by rwa [isWithinBudget, hg, Option.all_some, isOk_iff] at hbudget }, rfl⟩
  · rintro ⟨t, h, rfl⟩
    refine ⟨(hmem h.resolves).2 ⟨⟨mem_collapse_iff.2 ⟨t, h.first, List.not_mem_nil, rfl⟩, ?_⟩,
      h.admitted, ?_⟩, h.resolves⟩
    · unfold isServed
      cases hs : req.serves with
      | none => rfl
      | some serves => exact h.served serves hs
    · unfold isWithinBudget
      cases hg : req.budget with
      | none => rfl
      | some gate => exact isOk_iff.2 (h.within_budget gate hg)

theorem nodup_left {virtualName : String} {tagged served left : List RoutingTarget}
    (hserved : servedTargets snap req.serves (normalized snap tagged) = some served)
    (hleft : reachable snap lib virtualName req served = .ok left) :
    (left.map (·.model)).Nodup := by
  have hserved : served.Sublist (normalized snap tagged) := by
    unfold servedTargets at hserved
    cases hserves : req.serves with
    | none =>
      rw [hserves] at hserved
      exact Option.some.inj hserved ▸ List.Sublist.refl _
    | some serves =>
      rw [hserves] at hserved
      dsimp only at hserved
      split at hserved
      · cases hserved
      · exact Option.some.inj hserved ▸ List.filter_sublist
  have hleft : left.Sublist served := by
    unfold reachable at hleft
    dsimp only at hleft
    split at hleft
    · cases hleft
    · cases hbudget : req.budget with
      | none =>
        rw [hbudget] at hleft
        exact Except.ok.inj hleft ▸ List.filter_sublist
      | some gate =>
        rw [hbudget] at hleft
        rw [targetsWithinBudget_ok hleft]
        exact List.filter_sublist.trans List.filter_sublist
  have hnodup : ((normalized snap tagged).map (·.model)).Nodup := by
    rw [normalized_eq]
    exact (nodup_collapse [] tagged).1
  exact hnodup.sublist ((hleft.trans hserved).map _)

end Left

end Routing
end Aisix
