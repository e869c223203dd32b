import Aisix.Routing.PickTargets

/-!
# Aisix.Routing.Attempts

The models a request attempts, in their order (`resolve_attempt_models`): the candidates of a group,
those that are healthy, the strategy's order of them, and the targets a conversation is bound to in
front. `resolveAttemptModels_allowed` says what holds of the list in every state, and
`resolveAttemptModels_constrained` when it is empty.
-/

namespace Aisix
namespace Routing

open Health Pricing

/-- A model that a request will attempt. -/
structure AttemptModel where
  id : String
  model : Model
  priority : Int
  weight : UInt32

/-- What the runtime status shows at the moment it is read. -/
structure RuntimeView where
  tracker : Tracker
  now : Nat
  latencyPenalized : String → Bool
  latencyEwmaMs : String → Option UInt64

namespace RuntimeView

def status (view : RuntimeView) (a : AttemptModel) : Status :=
  view.tracker.status a.id view.now
    (a.model.backgroundModelCheck.map fun check => check.staleAfterSeconds * 10 ^ 9)

def unavailable (view : RuntimeView) (a : AttemptModel) : Bool :=
  match view.status a with
  | .unhealthy | .cooldown => true
  | .healthy | .notApplicable => false

end RuntimeView

/-! ### The candidates -/

/-- A target with the row it leads to. -/
def attempt (t : RoutingTarget) (e : Row) : AttemptModel :=
  ⟨e.id, e.value, t.priorityOrDefault, t.weightOrDefault⟩

def attemptOf (snap : AisixSnapshot) (t : RoutingTarget) : Option AttemptModel :=
  (snap.models.getByName t.model).map (attempt t)

def RoutingStrategy.readsWeight : RoutingStrategy → Bool
  | roundRobin | consistentHash | leastBusy => true
  | failover | leastCost | leastLatency => false

/-- A weight of zero takes a candidate out while another has a share. -/
def drained (strategy : RoutingStrategy) (candidates : List AttemptModel) : List AttemptModel :=
  if strategy.readsWeight && candidates.any (0 < ·.weight) then candidates.filter
    (0 < ·.weight) else candidates

inductive FilterOutcome where
  | selected (attempts : List AttemptModel)
  | allUnhealthy (retryAfterSecs : Option Nat)

def FALLBACK_ALL_UNHEALTHY_RETRY_AFTER : Nat := 30

def filterAttemptModels (view : RuntimeView) (attempts : List AttemptModel)
    (policy : WhenAllUnavailablePolicy) :
    FilterOutcome :=
  let healthy := attempts.filter fun a => !view.unavailable a
  let cooldownOnly := attempts.filter fun a => view.status a = .cooldown
  if !healthy.isEmpty then .selected healthy
  -- better a cooldown that has not run out than what a probe found broken
  else if !cooldownOnly.isEmpty then .selected cooldownOnly
  else
    match policy with
    | .fail => .allUnhealthy (some FALLBACK_ALL_UNHEALTHY_RETRY_AFTER)
    | .tryAnyway => .selected attempts

/-- The targets behind the attempts. -/
def availableTargets (attempts : List AttemptModel) (eligible : List RoutingTarget) :
    List RoutingTarget :=
  if attempts.length = eligible.length then eligible
  else eligible.filter fun t => attempts.any fun a => a.model.displayName == t.model

/-! ### Ranking by a metric -/

def INFINITY : UInt64 := 0x7ff0000000000000

def NEG_INFINITY : UInt64 := 0xfff0000000000000

/-- The place of a floating-point number in the order of `total_cmp`. -/
def totalOrder (bits : UInt64) : Int :=
  if bits.toNat < 2 ^ 63 then bits.toNat else -1 - (bits.toNat - 2 ^ 63)

def priceOf (pricing : PricingIndex) (model : Model) : Option ModelCost :=
  (model.pricingKey.bind pricing.get).or model.cost

section Rank

variable (lib : Library) (view : RuntimeView) (pricing : PricingIndex)

def costKey (model : Model) : UInt64 :=
  match priceOf pricing model with
  | some c => lib.add c.inputPer1k c.outputPer1k
  | none => INFINITY

def latencyKey (id : String) : UInt64 :=
  if view.latencyPenalized id then INFINITY else (view.latencyEwmaMs id).getD NEG_INFINITY

def busyScore (a : AttemptModel) : UInt64 :=
  lib.div (lib.add (lib.ofNat (view.tracker.inFlight a.id)) (lib.ofNat 1))
    (lib.ofNat (max a.weight.toNat 1))

def orderAttemptsByMetric (strategy : RoutingStrategy) (attempts : List AttemptModel) :
    List AttemptModel :=
  let sortBy := fun key : AttemptModel → UInt64 =>
    attempts.insertionSort fun a b => totalOrder (key a) ≤ totalOrder (key b)
  match strategy with
  | .leastCost => sortBy fun a => costKey lib pricing a.model
  | .leastLatency => sortBy fun a => latencyKey view a.id
  | .leastBusy => sortBy (busyScore lib view)
  | .failover | .roundRobin | .consistentHash => attempts

def byPriority (attempts : List AttemptModel) : List AttemptModel :=
  attempts.insertionSort fun a b => b.priority ≤ a.priority

def ranked (strategy : RoutingStrategy) (resolved : List AttemptModel) : List AttemptModel :=
  if strategy.isMetricBased then byPriority
    (orderAttemptsByMetric lib view pricing strategy resolved) else resolved

end Rank

/-! ### The conversation's context -/

/-- The targets that can read the context of one of them. -/
structure Boundary where
  originId : String
  providerKeyId : Option String

namespace Boundary

def of (snap : AisixSnapshot) (originId : String) : Boundary :=
  ⟨originId, (snap.models.getById originId).bind (·.value.providerKeyId)⟩

variable (b : Boundary)

def isOrigin (targetId : String) : Bool := b.originId == targetId

def contains (targetId : String) (targetProviderKeyId : Option String) : Bool :=
  b.isOrigin targetId || (b.providerKeyId.isSome && b.providerKeyId == targetProviderKeyId)

end Boundary

/-- A target that the strategy left out comes back behind the others. -/
def bringBack (snap : AisixSnapshot) (candidates : List AttemptModel) (t : RoutingTarget) :
    List AttemptModel :=
  match attemptOf snap t with
  | none => candidates
  | some a => if candidates.any (·.id == a.id) then candidates else candidates ++ [a]

def pinContextOrigin (snap : AisixSnapshot) (view : RuntimeView) (targets : List RoutingTarget)
    (resolved : List AttemptModel) (origin : String) : List AttemptModel :=
  let boundary := Boundary.of snap origin
  let candidates := targets.foldl (bringBack snap) resolved
  let isInside := fun a : AttemptModel => boundary.contains a.id a.model.providerKeyId
  let inside := (candidates.filter isInside).insertionSort fun a b =>
    (!boundary.isOrigin a.id).toNat ≤ (!boundary.isOrigin b.id).toNat
  let outside := candidates.filter fun a => !isInside a
  (inside.filter fun a => !view.unavailable a) ++ outside ++ inside.filter fun a =>
    view.unavailable a

/-! ### Resolution -/

def PARTIAL_ROUTE_ROTATION : String := "\x00partial"

/-- A request that gets no list: it is refused, or an index leads out of a list. -/
inductive Stop where
  | refused (error : ProxyError)
  | panicked

def refuseEnsembleToGroupedKey (requested : String) (model : Model) (allowedGroups : List String) :
    Except ProxyError Unit :=
  if model.isEnsemble && !allowedGroups.isEmpty then .error (.modelNotFound requested) else .ok ()

section Resolve

-- the health filter reads `view`, the ranking and the pinning read `later`
variable (lib : Library) (view later : RuntimeView) (pricing : PricingIndex) (snap : AisixSnapshot)

/-- A model that is no group. -/
def resolveDirect (virtualId : String) (model : Model) (req : RoutingRequest) :
    Except ProxyError (List AttemptModel) :=
  if !model.isSemantic && !targetInGroups snap model req.allowedGroups then .error noTargetInGroups
  else
    match req.budget.map (checkModel · model) with
    | some (.error err) => .error err
    | _ => .ok [⟨virtualId, model, 0, 1⟩]

/-- The candidates among the targets left, with those the weights and the health filter take out. -/
def healthyAttempts (routing : ModelRouting) (left : List RoutingTarget) :
    Except ProxyError (List AttemptModel) :=
  let candidates := left.filterMap (attemptOf snap)
  if candidates.isEmpty then .error
    (.invalidRequest "routing model has no target that resolves to a Model")
  else
    match filterAttemptModels view (drained routing.strategy candidates)
      routing.whenAllUnavailableOrDefault with
    | .selected attempts => .ok attempts
    | .allUnhealthy retryAfterSecs => .error (.allCandidatesUnavailable retryAfterSecs)

/-- The attempts in the strategy's order, the targets of the conversation's context in front. -/
def inOrder (virtualName : String) (routing : ModelRouting) (req : RoutingRequest)
    (left : List RoutingTarget) (attempts : List AttemptModel) (registry : Registry) :
    Except Stop (List AttemptModel × Registry) :=
  let available := availableTargets attempts left
  let hashKey := if routing.strategy = .consistentHash then resolveHashKey routing req else ""
  let rotation := if req.serves.isSome then virtualName ++ PARTIAL_ROUTE_ROTATION else virtualName
  match registry.pickTargets rotation routing available hashKey with
  | none => .error .panicked
  | some (names, registry) =>
    if names.isEmpty then .error (.refused (.invalidRequest "routing model has no targets"))
    else
      let resolved := names.filterMap fun name => attempts.find? (·.model.displayName == name)
      let resolved := ranked lib later pricing routing.strategy resolved
      let resolved :=
        match req.contextOrigin with
        | some origin => pinContextOrigin snap later available resolved origin
        | none => resolved
      .ok (resolved.take (routing.maxFallbacksOrDefault + 1), registry)

def resolveGroup (virtualName : String) (routing : ModelRouting) (req : RoutingRequest)
    (registry : Registry) : Except Stop (List AttemptModel × Registry) :=
  match narrowed snap lib routing req with
  | .error err => .error (.refused err)
  | .ok tagged =>
    match servedTargets snap req.serves (normalized snap tagged) with
    | none => .ok ([], registry)
    | some served =>
      match reachable snap lib virtualName req served with
      | .error err => .error (.refused err)
      | .ok left =>
        match healthyAttempts view snap routing left with
        | .error err => .error (.refused err)
        | .ok attempts =>
          inOrder lib later pricing snap virtualName routing req left attempts registry

/-- The models to attempt, and the rotations and rings that are left. -/
def resolveAttemptModels (virtualName virtualId : String) (model : Model) (req : RoutingRequest)
    (registry : Registry) : Except Stop (List AttemptModel × Registry) :=
  match refuseEnsembleToGroupedKey virtualName model req.allowedGroups with
  | .error err => .error (.refused err)
  | .ok () =>
    match model.routing with
    | some routing => resolveGroup lib view later pricing snap virtualName routing req registry
    | none =>
      match resolveDirect snap virtualId model req with
      | .error err => .error (.refused err)
      | .ok list => .ok (list, registry)

end Resolve

/-! ### What a list of attempts is -/

section Lists

variable {snap : AisixSnapshot} {left : List RoutingTarget} {attempts : List AttemptModel}

theorem attemptOf_eq_some {t : RoutingTarget} {a : AttemptModel} :
    attemptOf snap t = some a ↔ ∃ e, snap.models.getByName t.model = some e ∧ a = attempt t e := by
  rw [attemptOf, Option.map_eq_some_iff]
  exact exists_congr fun e => and_congr_right fun _ => eq_comm

theorem displayName_of_attemptOf {t : RoutingTarget} {a : AttemptModel}
    (h : attemptOf snap t = some a) : a.model.displayName = t.model := by
  obtain ⟨e, he, rfl⟩ := attemptOf_eq_some.1 h
  exact ResourceTable.name_of_getByName he

theorem model_eq_of_id {t u : RoutingTarget} {a b : AttemptModel} (ha : attemptOf snap t = some a)
    (hb : attemptOf snap u = some b) (h : a.id = b.id) : t.model = u.model := by
  obtain ⟨e, he, rfl⟩ := attemptOf_eq_some.1 ha
  obtain ⟨f, hf, rfl⟩ := attemptOf_eq_some.1 hb
  have hrow : e = f :=
    ResourceTable.eq_of_id (ResourceTable.getByName_eq_some.1 he).1
      (ResourceTable.getByName_eq_some.1 hf).1 h
  rw [← ResourceTable.name_of_getByName he, ← ResourceTable.name_of_getByName hf, hrow]

/-- A list that attempts each model at most once, and none but those of `attempts`. -/
structure Sound (attempts l : List AttemptModel) : Prop where
  nodup : (l.map (·.id)).Nodup
  mem : ∀ a ∈ l, a ∈ attempts

theorem Sound.perm {l l' : List AttemptModel} (h : Sound attempts l) (hperm : l'.Perm l) :
    Sound attempts l' where
  nodup := (hperm.map _).nodup_iff.2 h.nodup
  mem := fun a ha => h.mem a (hperm.mem_iff.1 ha)

theorem Sound.sublist {l l' : List AttemptModel} (h : Sound attempts l) (hsub : l'.Sublist l) :
    Sound attempts l' where
  nodup := h.nodup.sublist (hsub.map _)
  mem := fun a ha => h.mem a (hsub.subset ha)

theorem sound_filterMap {order : List RoutingTarget} (hnodup : (order.map (·.model)).Nodup)
    (h : ∀ t ∈ order, ∀ a, attemptOf snap t = some a → a ∈ attempts) :
    Sound attempts (order.filterMap (attemptOf snap)) where
  nodup := by
    rw [List.Nodup, List.pairwise_map] at hnodup ⊢
    refine List.pairwise_filterMap.2
      (hnodup.imp fun hne a ha b hb hid => hne (model_eq_of_id ha hb hid))
  mem := by
    intro a ha
    obtain ⟨t, ht, hta⟩ := List.mem_filterMap.1 ha
    exact h t ht a hta

theorem mem_drained {strategy : RoutingStrategy} {candidates : List AttemptModel}
    {a : AttemptModel} : a ∈ drained strategy candidates ↔ a ∈ candidates ∧
      (strategy.readsWeight = true → 0 < a.weight ∨ ∀ c ∈ candidates, c.weight = 0) := by
  unfold drained
  cases hreads : strategy.readsWeight with
  | false =>
    rw [Bool.false_and, if_neg Bool.false_ne_true]
    exact (and_iff_left fun h => absurd h Bool.false_ne_true).symm
  | true =>
    rw [Bool.true_and]
    split
    · next hany =>
      obtain ⟨c, hc, hpos⟩ := List.any_eq_true.1 hany
      rw [List.mem_filter, decide_eq_true_eq]
      refine and_congr_right fun _ =>
        ⟨fun h _ => .inl h, fun h => (h rfl).resolve_right fun hzero => ?_⟩
      rw [decide_eq_true_eq, hzero c hc] at hpos
      exact UInt32.pos_iff_ne_zero.1 hpos rfl
    · next hany =>
      refine (and_iff_left fun _ => .inr fun c hc => ?_).symm
      by_contra hne
      exact hany (List.any_eq_true.2 ⟨c, hc, decide_eq_true (UInt32.pos_iff_ne_zero.2 hne)⟩)

theorem drained_ne {strategy : RoutingStrategy} {candidates : List AttemptModel}
    (h : candidates ≠ []) : drained strategy candidates ≠ [] := by
  unfold drained
  split
  · next hany =>
    obtain ⟨c, hc, hpos⟩ := List.any_eq_true.1 (Bool.and_eq_true_iff.1 hany).2
    exact List.ne_nil_of_mem (List.mem_filter.2 ⟨hc, hpos⟩)
  · exact h

theorem drained_sublist (strategy : RoutingStrategy) (candidates : List AttemptModel) :
    (drained strategy candidates).Sublist candidates := by
  unfold drained
  split
  · exact List.filter_sublist
  · exact List.Sublist.refl _

theorem filterAttemptModels_selected {view : RuntimeView} {candidates : List AttemptModel}
    {policy : WhenAllUnavailablePolicy}
    (h : filterAttemptModels view candidates policy = .selected attempts) :
    attempts.Sublist candidates ∧ (candidates ≠ [] → attempts ≠ []) ∧
      ∀ a ∈ attempts, view.unavailable a = true → ∀ c ∈ candidates, view.unavailable c = true := by
  have hne : ∀ {l : List AttemptModel}, ¬ (!l.isEmpty) = true → l = [] := by
    intro l h
    simpa using h
  unfold filterAttemptModels at h
  dsimp only at h
  split at h
  · next hhealthy =>
    obtain rfl := FilterOutcome.selected.inj h
    refine ⟨List.filter_sublist, fun _ hnil => ?_, fun a ha hdown => ?_⟩
    · rw [hnil] at hhealthy
      exact Bool.false_ne_true hhealthy
    · rw [List.mem_filter, hdown] at ha
      exact absurd ha.2 Bool.false_ne_true
  · next hhealthy =>
    have hall : ∀ c ∈ candidates, view.unavailable c = true := by
      intro c hc
      simpa using List.filter_eq_nil_iff.1 (hne hhealthy) c hc
    split at h
    · next hcooling =>
      obtain rfl := FilterOutcome.selected.inj h
      refine ⟨List.filter_sublist, fun _ hnil => ?_, fun _ _ _ => hall⟩
      rw [hnil] at hcooling
      exact Bool.false_ne_true hcooling
    · cases policy with
      | fail => cases h
      | tryAnyway =>
        obtain rfl := FilterOutcome.selected.inj h
        exact ⟨List.Sublist.refl _, id, fun _ _ _ => hall⟩

theorem ranked_perm {lib : Library} {view : RuntimeView} {pricing : PricingIndex}
    {strategy : RoutingStrategy}
    (l : List AttemptModel) : (ranked lib view pricing strategy l).Perm l := by
  have hmetric : (orderAttemptsByMetric lib view pricing strategy l).Perm l := by
    unfold orderAttemptsByMetric
    cases strategy with
    | leastCost | leastLatency | leastBusy => exact List.perm_insertionSort _ _
    | failover | roundRobin | consistentHash => exact .refl l
  unfold ranked
  split
  · exact (List.perm_insertionSort _ _).trans hmetric
  · exact .refl l

theorem sound_bringBack {available : List RoutingTarget} {l : List AttemptModel}
    (h : Sound attempts l)
    (havailable : ∀ t ∈ available, ∀ a, attemptOf snap t = some a → a ∈ attempts) :
    Sound attempts (available.foldl (bringBack snap) l) ∧
      l.length ≤ (available.foldl (bringBack snap) l).length := by
  induction available generalizing l with
  | nil => exact ⟨h, le_refl _⟩
  | cons t ts ih =>
    have hrest : ∀ u ∈ ts, ∀ a, attemptOf snap u = some a → a ∈ attempts :=
      fun u hu => havailable u (List.mem_cons_of_mem _ hu)
    have hstep : Sound attempts (bringBack snap l t) ∧ l.length ≤ (bringBack snap l t).length := by
      unfold bringBack
      cases ht : attemptOf snap t with
      | none => exact ⟨h, le_refl _⟩
      | some a =>
        dsimp only
        split
        · exact ⟨h, le_refl _⟩
        · next hnew =>
          have hid : a.id ∉ l.map (·.id) := by
            intro hmem
            obtain ⟨b, hb, heq⟩ := List.mem_map.1 hmem
            exact hnew (List.any_eq_true.2 ⟨b, hb, beq_iff_eq.2 heq⟩)
          refine ⟨⟨?_, fun b hb => ?_⟩, by simp⟩
          · rw [List.map_append, List.map_singleton, ← List.concat_eq_append]
            exact h.nodup.concat hid
          · rcases List.mem_append.1 hb with hb | hb
            · exact h.mem b hb
            · rw [List.mem_singleton.1 hb]
              exact havailable t List.mem_cons_self a ht
    obtain ⟨hsound, hlength⟩ := ih hstep.1 hrest
    exact ⟨hsound, hstep.2.trans hlength⟩

theorem pinContextOrigin_perm (view : RuntimeView) (available : List RoutingTarget)
    (l : List AttemptModel) (origin : String) :
    (pinContextOrigin snap view available l origin).Perm (available.foldl (bringBack snap) l) := by
  unfold pinContextOrigin
  dsimp only
  generalize available.foldl (bringBack snap) l = candidates
  generalize hinside : (candidates.filter fun a : AttemptModel =>
      (Boundary.of snap origin).contains a.id a.model.providerKeyId).insertionSort (fun a b =>
        (!(Boundary.of snap origin).isOrigin a.id).toNat ≤
          (!(Boundary.of snap origin).isOrigin b.id).toNat) = inside
  have hin :
      inside.Perm
      (candidates.filter fun a => (Boundary.of snap origin).contains a.id
      a.model.providerKeyId) := by
    rw [← hinside]
    exact List.perm_insertionSort _ _
  refine List.perm_append_comm.trans ?_
  rw [← List.append_assoc]
  exact ((List.filter_append_perm _ _).append_right _).trans
    ((hin.append_right _).trans (List.filter_append_perm _ _))

/-- Pinning puts the attempts in another order and adds some of those left out. -/
theorem sound_pinContextOrigin (view : RuntimeView) (origin : String)
    {available : List RoutingTarget} {l : List AttemptModel} (h : Sound attempts l)
    (havailable : ∀ t ∈ available, ∀ a, attemptOf snap t = some a → a ∈ attempts) :
    Sound attempts (pinContextOrigin snap view available l origin) ∧
      l.length ≤ (pinContextOrigin snap view available l origin).length := by
  obtain ⟨hsound, hlength⟩ := sound_bringBack h havailable
  have hperm :
      (pinContextOrigin snap view available l origin).Perm (available.foldl (bringBack snap) l) :=
    pinContextOrigin_perm view available l origin
  exact ⟨hsound.perm hperm, hperm.length_eq ▸ hlength⟩

end Lists

/-! ### No forbidden upstream is attempted -/

section Constrained

variable {lib : Library} {view later : RuntimeView} {pricing : PricingIndex} {snap : AisixSnapshot}
    {routing : ModelRouting} {req : RoutingRequest} {left : List RoutingTarget}
  {attempts : List AttemptModel}

/-- The weights leave a target in: they are not read, or it has a share, or no candidate has one. -/
def InRotation (lib : Library) (snap : AisixSnapshot) (routing : ModelRouting)
    (req : RoutingRequest) (t : RoutingTarget) : Prop :=
  routing.strategy.readsWeight = true →
    0 < t.weightOrDefault ∨ ∀ u e, Candidate lib snap routing req u e → u.weightOrDefault = 0

/-- The targets left are the candidates. -/
structure Filtered (lib : Library) (snap : AisixSnapshot) (routing : ModelRouting)
    (req : RoutingRequest) (left : List RoutingTarget) : Prop where
  nodup : (left.map (·.model)).Nodup
  mem : ∀ u e, u ∈ left ∧ snap.models.getByName u.model = some e ↔
    ∃ t, Candidate lib snap routing req t e ∧ u = normal snap t

theorem Filtered.mem_filterMap (h : Filtered lib snap routing req left) {a : AttemptModel} :
    a ∈ left.filterMap (attemptOf snap) ↔ ∃ t e, Candidate lib snap routing req t e ∧
      a = attempt t e := by
  simp only [List.mem_filterMap, attemptOf_eq_some]
  constructor
  · rintro ⟨u, hu, e, he, rfl⟩
    obtain ⟨t, ht, rfl⟩ := (h.mem u e).1 ⟨hu, he⟩
    exact ⟨t, e, ht, rfl⟩
  · rintro ⟨t, e, ht, rfl⟩
    obtain ⟨hu, he⟩ := (h.mem _ e).2 ⟨t, ht, rfl⟩
    exact ⟨normal snap t, hu, e, he, rfl⟩

theorem Filtered.mem_drained (h : Filtered lib snap routing req left) {a : AttemptModel} :
    a ∈ drained routing.strategy (left.filterMap (attemptOf snap)) ↔
      ∃ t e, Candidate lib snap routing req t e ∧ InRotation lib snap routing req t ∧
        a = attempt t e := by
  have hzero : (∀ c ∈ left.filterMap (attemptOf snap), c.weight = 0) ↔
      ∀ u e, Candidate lib snap routing req u e → u.weightOrDefault = 0 := by
    simp only [h.mem_filterMap]
    exact ⟨fun hall u e hu => hall _ ⟨u, e, hu, rfl⟩,
      fun hall c ⟨u, e, hu, hc⟩ => by rw [hc]; exact hall u e hu⟩
  rw [Routing.mem_drained, h.mem_filterMap, hzero]
  constructor
  · rintro ⟨⟨t, e, ht, rfl⟩, hrotation⟩
    exact ⟨t, e, ht, hrotation, rfl⟩
  · rintro ⟨t, e, ht, hrotation, rfl⟩
    exact ⟨⟨t, e, ht, rfl⟩, hrotation⟩

/-- The attempts that the health filter selected from the candidates in rotation. -/
structure Selected (view : RuntimeView) (snap : AisixSnapshot) (routing : ModelRouting)
    (left : List RoutingTarget) (attempts : List AttemptModel) : Prop where
  sublist : attempts.Sublist (drained routing.strategy (left.filterMap (attemptOf snap)))
  ne_nil : attempts ≠ []
  health : ∀ a ∈ attempts, view.unavailable a = true →
    ∀ c ∈ drained routing.strategy (left.filterMap (attemptOf snap)), view.unavailable c = true

theorem selected_healthyAttempts (h : healthyAttempts view snap routing left = .ok attempts) :
    Selected view snap routing left attempts := by
  unfold healthyAttempts at h
  dsimp only at h
  split at h
  · cases h
  · next hne =>
    cases hfilter :
      filterAttemptModels view (drained routing.strategy (left.filterMap (attemptOf snap)))
        routing.whenAllUnavailableOrDefault with
    | allUnhealthy retryAfterSecs => rw [hfilter] at h; cases h
    | selected attempts' =>
      rw [hfilter] at h
      obtain rfl := Except.ok.inj h
      obtain ⟨hsub, hsome, hhealth⟩ := filterAttemptModels_selected hfilter
      exact ⟨hsub, hsome (drained_ne fun hnil => hne (List.isEmpty_iff.2 hnil)), hhealth⟩

theorem Selected.sublist_filterMap (hs : Selected view snap routing left attempts) :
    attempts.Sublist (left.filterMap (attemptOf snap)) :=
  hs.sublist.trans (drained_sublist _ _)

/-- Behind every available target there is an attempt, and behind every attempt such a target. -/
theorem attemptOf_available (h : (left.map (·.model)).Nodup)
    (hs : Selected view snap routing left attempts) {t : RoutingTarget}
    (ht : t ∈ availableTargets attempts left) : ∃ a ∈ attempts, attemptOf snap t = some a := by
  unfold availableTargets at ht
  split at ht
  · next hlength =>
    have hle : (left.filterMap (attemptOf snap)).length ≤ attempts.length :=
      hlength ▸ List.length_filterMap_le _ _
    have hall : attempts = left.filterMap (attemptOf snap) :=
      hs.sublist_filterMap.eq_of_length_le hle
    have hsome := List.filterMap_length_eq_length.1 (hall ▸ hlength) t ht
    obtain ⟨a, ha⟩ := Option.isSome_iff_exists.1 hsome
    exact ⟨a, hall ▸ List.mem_filterMap.2 ⟨t, ht, ha⟩, ha⟩
  · obtain ⟨ht, hany⟩ := List.mem_filter.1 ht
    obtain ⟨a, ha, hname⟩ := List.any_eq_true.1 hany
    obtain ⟨u, hu, hua⟩ := List.mem_filterMap.1 (hs.sublist_filterMap.subset ha)
    have hut : u.model = t.model := (displayName_of_attemptOf hua).symm.trans (beq_iff_eq.1 hname)
    obtain rfl := List.inj_on_of_nodup_map h hu ht hut
    exact ⟨a, ha, hua⟩

theorem availableTargets_sublist (attempts : List AttemptModel) (left : List RoutingTarget) :
    (availableTargets attempts left).Sublist left := by
  unfold availableTargets
  split
  · exact List.Sublist.refl _
  · exact List.filter_sublist

theorem availableTargets_ne (hs : Selected view snap routing left attempts) :
    availableTargets attempts left ≠ [] := by
  obtain ⟨a, ha⟩ := List.exists_mem_of_ne_nil _ hs.ne_nil
  obtain ⟨u, hu, hua⟩ := List.mem_filterMap.1 (hs.sublist_filterMap.subset ha)
  unfold availableTargets
  split
  · exact List.ne_nil_of_mem hu
  · refine List.ne_nil_of_mem (List.mem_filter.2 ⟨hu, List.any_eq_true.2 ⟨a, ha, ?_⟩⟩)
    simp [displayName_of_attemptOf hua]

theorem find_attempt (h : (left.map (·.model)).Nodup)
    (hs : Selected view snap routing left attempts) {t : RoutingTarget}
    (ht : t ∈ availableTargets attempts left) :
    attempts.find? (fun a => a.model.displayName == t.model) = attemptOf snap t := by
  obtain ⟨a, ha, hta⟩ := attemptOf_available h hs ht
  have hsome : (attempts.find? fun a => a.model.displayName == t.model).isSome := by
    rw [List.find?_isSome]
    exact ⟨a, ha, by simp [displayName_of_attemptOf hta]⟩
  obtain ⟨b, hb⟩ := Option.isSome_iff_exists.1 hsome
  obtain ⟨u, hu, hub⟩ :=
    List.mem_filterMap.1 (hs.sublist_filterMap.subset (List.mem_of_find?_eq_some hb))
  have hname : u.model = t.model := by
    rw [← displayName_of_attemptOf hub]
    simpa using List.find?_some hb
  obtain rfl :=
    List.inj_on_of_nodup_map h hu ((availableTargets_sublist attempts left).subset ht) hname
  rw [hb, hub]

/-- Looking the picked names up among the attempts finds the attempts of their targets. -/
theorem filterMap_find (h : (left.map (·.model)).Nodup)
    (hs : Selected view snap routing left attempts) {order : List RoutingTarget}
    (horder : order ⊆ availableTargets attempts left) :
    (order.map (·.model)).filterMap (fun name => attempts.find? (·.model.displayName == name)) =
    order.filterMap (attemptOf snap) := by
  rw [List.filterMap_map]
  exact List.filterMap_congr fun t ht => find_attempt h hs (horder ht)

/-- What holds of the attempts for a request to a group, whatever the rotations, the rings and the
runtime status are. -/
structure Allowed (lib : Library) (view : RuntimeView) (snap : AisixSnapshot)
    (routing : ModelRouting) (req : RoutingRequest) (list : List AttemptModel) : Prop where
  nodup : (list.map (·.id)).Nodup
  length_le : list.length ≤ routing.maxFallbacksOrDefault + 1
  candidates : ∀ a ∈ list, ∃ t e,
    Candidate lib snap routing req t e ∧ InRotation lib snap routing req t ∧ a = attempt t e
  healthy : ∀ a ∈ list, view.unavailable a = true → ∀ t e, Candidate lib snap routing req t e →
    InRotation lib snap routing req t → view.unavailable (attempt t e) = true
  priorities : req.contextOrigin = none → list.Pairwise fun a b => b.priority ≤ a.priority
  unserved : list = [] → req.serves.isSome = true ∧ ∀ t e, ¬ Candidate lib snap routing req t e

theorem priority_of_attemptOf {t : RoutingTarget} {a : AttemptModel}
    (h : attemptOf snap t = some a) : a.priority = t.priorityOrDefault := by
  obtain ⟨e, -, rfl⟩ := attemptOf_eq_some.1 h
  rfl

theorem nodup_map_of_subperm {α β : Type} {f : α → β} {l l' : List α} (h : l.Subperm l')
    (hl' : (l'.map f).Nodup) :
    (l.map f).Nodup := by
  obtain ⟨l₀, hperm, hsub⟩ := h
  exact (hperm.map f).nodup_iff.1 (hl'.sublist (hsub.map f))

/-- The names picked, looked up and ranked: attempts once each, tier by tier. -/
theorem sound_picked (h : (left.map (·.model)).Nodup)
    (hs : Selected view snap routing left attempts) {rotation hashKey : String}
    {names : List String} {registry registry' : Registry}
    (hpick : registry.pickTargets rotation routing (availableTargets attempts left) hashKey =
      some (names, registry'))
    {resolved : List AttemptModel}
    (hresolved : resolved = ranked lib later pricing routing.strategy
      (names.filterMap fun name => attempts.find? (·.model.displayName == name))) :
    Sound attempts resolved ∧ resolved ≠ [] ∧
      resolved.Pairwise fun a b => b.priority ≤ a.priority := by
  obtain ⟨order, rfl, hsub, hne, hsorted⟩ := pickTargets_spec hpick
  have havailable : ∀ t ∈ order, t ∈ availableTargets attempts left := fun t ht => hsub.subset ht
  rw [filterMap_find h hs havailable] at hresolved
  have hmodels : (order.map (·.model)).Nodup :=
    nodup_map_of_subperm hsub (h.sublist ((availableTargets_sublist attempts left).map _))
  have hfound : ∀ t ∈ order, ∀ a, attemptOf snap t = some a → a ∈ attempts := by
    intro t ht a hta
    obtain ⟨b, hb, htb⟩ := attemptOf_available h hs (havailable t ht)
    obtain rfl := Option.some.inj (hta.symm.trans htb)
    exact hb
  have hsound : Sound attempts (order.filterMap (attemptOf snap)) := sound_filterMap hmodels hfound
  have hperm : resolved.Perm (order.filterMap (attemptOf snap)) := hresolved ▸ ranked_perm _
  refine ⟨hsound.perm hperm, fun hnil => ?_, ?_⟩
  · obtain ⟨t, ht⟩ := List.exists_mem_of_ne_nil _ (hne (availableTargets_ne hs))
    obtain ⟨a, -, hta⟩ := attemptOf_available h hs (havailable t ht)
    have hmem : a ∈ resolved := hperm.mem_iff.2 (List.mem_filterMap.2 ⟨t, ht, hta⟩)
    rw [hnil] at hmem
    exact List.not_mem_nil hmem
  · rw [hresolved, ranked]
    cases hmetric : routing.strategy.isMetricBased with
    | true =>
      rw [if_pos rfl]
      have : Std.Total fun a b : AttemptModel => b.priority ≤ a.priority :=
        ⟨fun a b => le_total b.priority a.priority⟩
      have : IsTrans AttemptModel fun a b => b.priority ≤ a.priority :=
        ⟨fun _ _ _ hab hbc => hbc.trans hab⟩
      exact List.pairwise_insertionSort _ _
    | false =>
      rw [if_neg Bool.false_ne_true]
      refine List.pairwise_filterMap.2 ((hsorted hmetric).imp fun {t u} hle a ha b hb => ?_)
      rw [priority_of_attemptOf ha, priority_of_attemptOf hb]
      exact hle

theorem allowed_inOrder (hf : Filtered lib snap routing req left)
    (hs : Selected view snap routing left attempts) {virtualName : String}
    {registry registry' : Registry} {list : List AttemptModel}
    (h : inOrder lib later pricing snap virtualName routing req left attempts registry =
      .ok (list, registry')) :
    Allowed lib view snap routing req list := by
  unfold inOrder at h
  dsimp only at h
  split at h
  · cases h
  · next names registry₁ hpick =>
    split at h
    · cases h
    · generalize hresolved : ranked lib later pricing routing.strategy
        (names.filterMap fun name => attempts.find? (·.model.displayName == name)) = resolved at h
      obtain ⟨hsound, hne, hsorted⟩ := sound_picked hf.nodup hs hpick hresolved.symm
      have havailable : ∀ t ∈ availableTargets attempts left, ∀ a, attemptOf snap t = some a →
          a ∈ attempts := by
        intro t ht a hta
        obtain ⟨b, hb, htb⟩ := attemptOf_available hf.nodup hs ht
        obtain rfl := Option.some.inj (hta.symm.trans htb)
        exact hb
      -- pinned or not, the list is cut from one that is sound and not empty
      obtain ⟨pinned, hpinned, hpsound, hpne, hplist⟩ :
          ∃ pinned, Except.ok (pinned.take (routing.maxFallbacksOrDefault + 1), registry₁) =
          (Except.ok (list, registry') : Except Stop _) ∧ Sound attempts pinned ∧ pinned ≠ [] ∧
          (req.contextOrigin = none → pinned = resolved) := by
        cases horigin : req.contextOrigin with
        | none =>
          rw [horigin] at h
          exact ⟨resolved, h, hsound, hne, fun _ => rfl⟩
        | some origin =>
          rw [horigin] at h
          obtain ⟨hpsound, hlength⟩ := sound_pinContextOrigin later origin hsound havailable
          refine ⟨pinContextOrigin snap later (availableTargets attempts left) resolved origin, h,
            hpsound, fun hnil => ?_, fun hnone => by cases hnone⟩
          rw [hnil] at hlength
          exact hne (List.eq_nil_of_length_eq_zero (Nat.le_zero.1 hlength))
      obtain ⟨rfl, -⟩ := Prod.mk.inj (Except.ok.inj hpinned)
      have hsub := List.take_sublist (routing.maxFallbacksOrDefault + 1) pinned
      have hmem : ∀ a ∈ pinned.take (routing.maxFallbacksOrDefault + 1), a ∈ attempts :=
        fun a ha => hpsound.mem a (hsub.subset ha)
      exact {
        nodup := (hpsound.sublist hsub).nodup
        length_le := List.length_take_le _ _
        candidates := fun a ha => hf.mem_drained.1 (hs.sublist.subset (hmem a ha))
        healthy := fun a ha hdown t e ht hrotation =>
          hs.health a (hmem a ha) hdown _ (hf.mem_drained.2 ⟨t, e, ht, hrotation, rfl⟩)
        priorities := fun hnone => (hplist hnone ▸ hsorted).sublist hsub
        unserved := fun hnil => by
          rcases List.take_eq_nil_iff.1 hnil with hzero | hnil
          · exact absurd hzero (Nat.succ_ne_zero _)
          · exact absurd hnil hpne }

/-- None of the group's targets that the key's provider groups and the request's tags leave can
serve the request. -/
def Unserved (snap : AisixSnapshot) (routing : ModelRouting) (req : RoutingRequest) : Prop :=
  ∃ serves, req.serves = some serves ∧ ∀ t ∈ routing.targets, ∀ e,
    snap.models.getByName (t.modelRef snap) = some e →
    targetInGroups snap e.value req.allowedGroups = true →
    TagEligible (targetsInGroups snap routing.targets req.allowedGroups) req.tags t →
    serves e.value = false

theorem unserved_of_servedTargets {tagged : List RoutingTarget}
    (htagged : narrowed snap lib routing req = .ok tagged)
    (h : servedTargets snap req.serves (normalized snap tagged) = none) :
    Unserved snap routing req := by
  unfold servedTargets at h
  split at h
  · next serves hserves =>
    dsimp only at h
    split at h
    · next hempty =>
      refine ⟨serves, hserves, fun t ht e he hgroups htags => ?_⟩
      have hmem : t ∈ tagged := by
        rw [narrowed_ok htagged, mem_eligibleTargets_iff, mem_targetsInGroups_iff he]
        exact ⟨⟨ht, hgroups⟩, htags⟩
      -- the first target of the name stands for `t`, with the same row
      have hfind : (tagged.find? fun u => u.modelRef snap = t.modelRef snap).isSome = true :=
        List.find?_isSome.2 ⟨t, hmem, by simp⟩
      obtain ⟨u, hu⟩ := Option.isSome_iff_exists.1 hfind
      have hname : u.modelRef snap = t.modelRef snap := by simpa using List.find?_some hu
      have hnormal : normal snap u ∈ normalized snap tagged := by
        rw [normalized_eq]
        exact mem_collapse_iff.2 ⟨u, by rw [hname]; exact hu, List.not_mem_nil, rfl⟩
      have hrow : snap.models.getByName (normal snap u).model = some e :=
        (congrArg _ hname).trans he
      have hnot := List.filter_eq_nil_iff.1 (List.isEmpty_iff.1 hempty) _ hnormal
      rwa [hrow, Option.any_some, Bool.not_eq_true] at hnot
    · cases h
  · cases h

theorem Unserved.not_candidate (h : Unserved snap routing req) :
    req.serves.isSome = true ∧ ∀ t e, ¬ Candidate lib snap routing req t e := by
  obtain ⟨serves, hserves, hnone⟩ := h
  refine ⟨by rw [hserves]; rfl, fun t e ht => ?_⟩
  have hno := hnone t ht.listed e ht.resolves ht.in_groups ht.tagged
  rw [ht.served serves hserves] at hno
  cases hno

/-- How a group comes to its list. -/
theorem resolveGroup_cases {virtualName : String} {registry registry' : Registry}
    {list : List AttemptModel}
    (h : resolveGroup lib view later pricing snap virtualName routing req registry =
      .ok (list, registry')) :
    list = [] ∧ Unserved snap routing req ∨
      ∃ left attempts, Filtered lib snap routing req left ∧
        Selected view snap routing left attempts ∧
        inOrder lib later pricing snap virtualName routing req left attempts registry =
          .ok (list, registry') := by
  unfold resolveGroup at h
  split at h
  · cases h
  · next tagged htagged =>
    split at h
    · next hunserved =>
      obtain ⟨rfl, -⟩ := Prod.mk.inj (Except.ok.inj h)
      exact .inl ⟨rfl, unserved_of_servedTargets htagged hunserved⟩
    · next served hserved =>
      split at h
      · cases h
      · next left hleft =>
        split at h
        · cases h
        · next attempts hattempts =>
          have hf : Filtered lib snap routing req left :=
            ⟨nodup_left hserved hleft, fun u e => mem_left_iff htagged hserved hleft⟩
          exact .inr ⟨left, attempts, hf, selected_healthyAttempts hattempts, h⟩

theorem allowed_resolveGroup {virtualName : String} {registry registry' : Registry}
    {list : List AttemptModel}
    (h : resolveGroup lib view later pricing snap virtualName routing req registry =
      .ok (list, registry')) :
    Allowed lib view snap routing req list := by
  obtain ⟨rfl, hunserved⟩ | ⟨left, attempts, hf, hs, h⟩ := resolveGroup_cases h
  · exact {
      nodup := List.nodup_nil
      length_le := Nat.zero_le _
      candidates := fun a ha => absurd ha List.not_mem_nil
      healthy := fun a ha => absurd ha List.not_mem_nil
      priorities := fun _ => .nil
      unserved := fun _ => hunserved.not_candidate }
  · exact allowed_inOrder hf hs h

theorem unserved_of_resolveGroup {virtualName : String} {registry registry' : Registry}
    (h : resolveGroup lib view later pricing snap virtualName routing req registry =
      .ok ([], registry')) :
    Unserved snap routing req := by
  obtain ⟨-, hunserved⟩ | ⟨left, attempts, hf, hs, hrun⟩ := resolveGroup_cases h
  · exact hunserved
  · obtain ⟨a, ha⟩ := List.exists_mem_of_ne_nil _ hs.ne_nil
    obtain ⟨t, e, ht, -⟩ := hf.mem_filterMap.1 (hs.sublist_filterMap.subset ha)
    exact absurd ht (((allowed_inOrder hf hs hrun).unserved rfl).2 t e)

theorem resolveGroup_of_resolveAttemptModels {virtualName virtualId : String} {model : Model}
    {registry registry' : Registry} {list : List AttemptModel}
    (hgroup : model.routing = some routing)
    (h : resolveAttemptModels lib view later pricing snap virtualName virtualId model req registry =
      .ok (list, registry')) :
    resolveGroup lib view later pricing snap virtualName routing req registry =
      .ok (list, registry') := by
  unfold resolveAttemptModels at h
  split at h
  · cases h
  · rwa [hgroup] at h

/-- No forbidden upstream is attempted. A group's attempts are candidates of the group, each once
and no more than it allows, none of them unavailable while a candidate in rotation is not, their
tiers from the highest down unless a conversation binds the request. -/
theorem resolveAttemptModels_allowed {virtualName virtualId : String} {model : Model}
    {registry registry' : Registry} {list : List AttemptModel}
    (hgroup : model.routing = some routing)
    (h : resolveAttemptModels lib view later pricing snap virtualName virtualId model req registry =
      .ok (list, registry')) :
    Allowed lib view snap routing req list :=
  allowed_resolveGroup (resolveGroup_of_resolveAttemptModels hgroup h)

/-- The hard constraints: the list is allowed, and nothing but `serves` empties it. -/
theorem resolveAttemptModels_constrained {virtualName virtualId : String} {model : Model}
    {registry registry' : Registry} {list : List AttemptModel}
    (hgroup : model.routing = some routing)
    (h : resolveAttemptModels lib view later pricing snap virtualName virtualId model req registry =
      .ok (list, registry')) :
    Allowed lib view snap routing req list ∧ (list = [] → Unserved snap routing req) := by
  have hrun := resolveGroup_of_resolveAttemptModels hgroup h
  refine ⟨allowed_resolveGroup hrun, ?_⟩
  rintro rfl
  exact unserved_of_resolveGroup hrun

end Constrained

/-! ### A group of two -/

def plainModel (displayName : String) : Model :=
  ⟨displayName, none, false, false, none, none, none, none, none⟩

def twoModels : AisixSnapshot where
  models :=
    (ResourceTable.empty.insert ⟨"b", plainModel "backup", 1⟩).insert ⟨"a", plainModel "main", 1⟩
  providerKeys := ResourceTable.empty

/-- The backup is written first, a tier below. -/
def twoTiers : ModelRouting where
  strategy := .failover
  targets :=
    [{ RoutingTarget.new "backup" with priority := some (-1) },
      { RoutingTarget.new "" with modelId := some "a" }]
  maxFallbacks := none
  whenAllUnavailable := none
  hashOn := none

def plainRequest : RoutingRequest := ⟨[], none, "key", "192.0.2.1", none, none, none, []⟩

def noLibrary : Library := ⟨fun _ => none, fun _ => "[]", fun a _ => a, fun a _ => a, fun _ => 0⟩

def nothingSeen : RuntimeView := ⟨.new, 0, fun _ => false, fun _ => none⟩

theorem attempts_twoTiers : ∃ list registry',
    resolveAttemptModels noLibrary nothingSeen nothingSeen ⟨fun _ => none⟩ twoModels "group" "g"
      { plainModel "group" with routing := some twoTiers } plainRequest .new =
      .ok (list, registry') ∧
    list.map (·.id) = ["a", "b"] :=
  ⟨_, _, rfl, rfl⟩

theorem resolveAttemptModels_allowed_twoTiers : ∃ list, list.map (·.id) = ["a", "b"] ∧
    Allowed noLibrary nothingSeen twoModels twoTiers plainRequest list := by
  obtain ⟨list, registry', hrun, hids⟩ := attempts_twoTiers
  exact ⟨list, hids, resolveAttemptModels_allowed rfl hrun⟩

/-- Of a route that the models of these names can answer. -/
def servedBy (names : List String) : RoutingRequest :=
  { plainRequest with serves := some fun model => names.contains model.displayName }

theorem resolveAttemptModels_constrained_backup :
    (∃ list, list.map (·.id) = ["b"] ∧
      Allowed noLibrary nothingSeen twoModels twoTiers (servedBy ["backup"]) list) ∧
    Unserved twoModels twoTiers (servedBy []) := by
  have hbackup : ∃ list registry',
      resolveAttemptModels noLibrary nothingSeen nothingSeen ⟨fun _ => none⟩ twoModels "group" "g"
        { plainModel "group" with routing := some twoTiers } (servedBy ["backup"]) .new =
        .ok (list, registry') ∧
      list.map (·.id) = ["b"] := ⟨_, _, rfl, rfl⟩
  have hnone : ∃ registry',
      resolveAttemptModels noLibrary nothingSeen nothingSeen ⟨fun _ => none⟩ twoModels "group" "g"
        { plainModel "group" with routing := some twoTiers } (servedBy []) .new =
        .ok ([], registry') := ⟨_, rfl⟩
  obtain ⟨list, registry', hrun, hids⟩ := hbackup
  obtain ⟨registry'', hempty⟩ := hnone
  exact ⟨⟨list, hids, (resolveAttemptModels_constrained rfl hrun).1⟩,
    (resolveAttemptModels_constrained rfl hempty).2 rfl⟩

end Routing
end Aisix
