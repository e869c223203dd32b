import Aisix.Routing.Group
import Aisix.Routing.HashRing
import Aisix.Routing.RoundRobin
import Mathlib.Data.List.Destutter

/-!
# Aisix.Routing.PickTargets

The strategy's order of the targets that are left: tier by tier from the highest priority down, each
tier as the strategy says. Whatever rotations and rings a gateway keeps, a tier's targets are
neither lost nor doubled (`pickTargets_spec`).
-/

namespace Aisix
namespace Routing

/-! ### The hash key -/

/-- Whitespace, as `str::trim` knows it. -/
def isWhitespace (c : Char) : Bool :=
  let n := c.toNat
  (0x09 ≤ n && n ≤ 0x0d) || n == 0x20 || n == 0x85 || n == 0xa0 || n == 0x1680 ||
    (0x2000 ≤ n && n ≤ 0x200a) || n == 0x2028 || n == 0x2029 || n == 0x202f || n ==
    0x205f || n == 0x3000

def trim (s : List Char) : List Char :=
  ((s.dropWhile isWhitespace).reverse.dropWhile isWhitespace).reverse

def nonEmpty (s : List Char) : Option String := if s.isEmpty then none else some (String.ofList s)

/-- The value of a `name=value` pair, if it is the cookie's and not empty. -/
def cookieOfPair (name : String) (pair : List Char) : Option String :=
  let key := trim (pair.takeWhile (· != '='))
  if String.ofList key = name then nonEmpty (trim ((pair.dropWhile (· != '=')).drop 1)) else none

def cookieValue (headers : HeaderMap) (name : String) : Option String :=
  (headers.filter (·.1 == "cookie")).findSome? fun header =>
    header.2.bind fun raw => (raw.toList.splitOn ';').findSome? (cookieOfPair name)

def hashSource (req : RoutingRequest) (source : HashOnSource) : Option String :=
  match source.sourceType with
  | .header =>
    source.name.bind fun name => req.headers.bind fun headers =>
      (headers.find? (·.1 == name.toLower)).bind fun header => header.2.bind fun raw =>
        nonEmpty (trim raw.toList)
  | .cookie => source.name.bind fun name => req.headers.bind fun headers => cookieValue headers name
  | .apiKey => nonEmpty (trim req.apiKeyId.toList)
  | .clientIp => nonEmpty (trim req.sourceIp.toList)

def resolveHashKey (routing : ModelRouting) (req : RoutingRequest) : String :=
  (routing.hashOnOrDefault.findSome? (hashSource req)).getD ""

/-! ### The order of the targets -/

/-- The ring kept for a tier. -/
structure CachedRing extends HashRing where
  fingerprint : UInt64

/-- The rotations and the rings a gateway keeps. -/
structure Registry extends RoutingRegistry where
  rings : KeyMap TierKey CachedRing

namespace Registry

def new : Registry := ⟨.new, ∅⟩

/-- The bytes of a 64-bit number, lowest first. -/
def toLeBytes64 (n : Nat) : List UInt8 := (List.range 8).map fun i => UInt8.ofNat (n / 256 ^ i)

def ringFor (r : Registry) (virtualName : String) (priority : Int) (tier : List RoutingTarget)
    (scale : RingScale) : HashRing × Registry :=
  let fingerprint :=
    fnv1aExtend (fnv1aExtend (tierFingerprint tier) (toLeBytes64 scale.gcd)) (toLeBytes64 scale.sum)
  match (r.rings.lookup (virtualName, priority)).filter (·.fingerprint = fingerprint) with
  | some ring => (ring.toHashRing, r)
  | none =>
    let ring := HashRing.build tier scale
    (ring, { r with rings := r.rings.insert (virtualName, priority) ⟨ring, fingerprint⟩ })

/-- So many targets from `startIdx` on, round the list. -/
def attemptOrder (targets : List RoutingTarget) (startIdx limit : Nat) : List String :=
  (List.range limit).map fun i => (targets.getD ((startIdx + i) % targets.length) (.new "")).model

def tierOf (targets : List RoutingTarget) (priority : Int) : List RoutingTarget :=
  targets.filter fun t => t.priorityOrDefault = priority

/-- The priorities in use, highest first. -/
def priorities (targets : List RoutingTarget) : List Int :=
  ((targets.map (·.priorityOrDefault)).insertionSort (· ≥ ·)).destutter (· ≠ ·)

def partitionByPriority (targets : List RoutingTarget) : List (List RoutingTarget) :=
  (priorities targets).map (tierOf targets)

/-- One tier's targets by name, in the strategy's order; `none` is a panic. -/
def pickTier (r : Registry) (virtualName : String) (routing : ModelRouting) (hashKey : String)
    (tier : List RoutingTarget) : Option (List String × Registry) :=
  let priority := (tier.head?.map (·.priorityOrDefault)).getD 0
  match routing.strategy with
  | .failover => some (tier.map (·.model), r)
  | .roundRobin =>
    let configFingerprint := tierFingerprint routing.targets
    -- counters kept for another tier under the same fingerprint are too few
    if (RoutingRegistry.current (r.stateFor (virtualName, priority) configFingerprint)
      tier).length < tier.length then none
    else
      let (start, wrr) := r.wrrPick virtualName priority configFingerprint tier
      some (attemptOrder tier start tier.length, { r with toRoutingRegistry := wrr })
  | .consistentHash =>
    let (ring, r) :=
      r.ringFor virtualName priority tier (RingScale.of (tierOf routing.targets priority))
    -- and a ring kept for another tier leads out of this one
    ((ring.preferenceOrder (stableHash hashKey).toNat tier.length).mapM fun idx => (tier[idx]?).map
      (·.model)).map (·, r)
  | .leastCost | .leastLatency | .leastBusy => none

def pickTiers (virtualName : String) (routing : ModelRouting) (hashKey : String) :
    Registry → List (List RoutingTarget) → Option (List String × Registry)
  | r, [] => some ([], r)
  | r, tier :: tiers =>
    match r.pickTier virtualName routing hashKey tier with
    | none => none
    | some (names, r) => (pickTiers virtualName routing hashKey r tiers).map fun rest =>
      (names ++ rest.1, rest.2)

/-- The names to attempt; a strategy that ranks by a metric has them ranked later. -/
def pickTargets (r : Registry) (virtualName : String) (routing : ModelRouting)
    (targets : List RoutingTarget) (hashKey : String) : Option (List String × Registry) :=
  if targets.isEmpty then some ([], r)
  else if routing.strategy.isMetricBased then some (targets.map (·.model), r)
  else
    (pickTiers virtualName routing hashKey r (partitionByPriority targets)).map fun picked =>
      (picked.1.take (routing.maxFallbacksOrDefault + 1), picked.2)

end Registry

/-! ### A tier keeps its targets -/

section Rings

variable {ring : HashRing} {start n : Nat}

theorem subset_finished_walk {offs order : List Nat} {seen : List Bool} :
    order ⊆ HashRing.finished n (HashRing.walk ring start n offs seen order) := by
  induction offs generalizing seen order with
  | nil => exact List.subset_append_left _ _
  | cons off offs ih =>
    rw [HashRing.walk]
    dsimp only
    split
    · exact ih
    · split
      · exact List.subset_append_left _ _
      · exact fun i hi => ih (List.mem_append_left _ hi)

/-- A walk round any ring that stays among the targets meets each of them once. -/
theorem finished_walk_perm {offs order : List Nat} {seen : List Bool}
    (hseen : ∀ i < n, seen.getD i false = true ↔ i ∈ order) (hlength : seen.length = n)
    (hnodup : order.Nodup)
    (hbound : ∀ i ∈ HashRing.finished n (HashRing.walk ring start n offs seen order), i < n) :
    (HashRing.finished n (HashRing.walk ring start n offs seen order)).Perm (List.range n) := by
  induction offs generalizing seen order with
  | nil =>
    have hdisjoint : ∀ i ∈ order, i ∉ (List.range n).filter fun i => !seen.getD i false := by
      intro i hi hmem
      have hlt : i < n := List.mem_range.1 (List.mem_filter.1 hmem).1
      have hunseen := (List.mem_filter.1 hmem).2
      rw [(hseen i hlt).2 hi] at hunseen
      exact Bool.false_ne_true hunseen
    have hall : (order ++ (List.range n).filter fun i => !seen.getD i false).Nodup :=
      hnodup.append (List.nodup_range.filter _) fun i hi hmem => hdisjoint i hi hmem
    refine (List.perm_ext_iff_of_nodup hall List.nodup_range).2 fun i =>
      ⟨fun hi => List.mem_range.2 (hbound i hi), fun hi => ?_⟩
    have hlt := List.mem_range.1 hi
    by_cases hin : i ∈ order
    · exact List.mem_append_left _ hin
    · refine List.mem_append_right _ (List.mem_filter.2 ⟨hi, ?_⟩)
      rw [Bool.eq_false_iff.2 (mt (hseen i hlt).1 hin)]
      rfl
  | cons off offs ih =>
    rw [HashRing.walk] at hbound ⊢
    dsimp only at hbound ⊢
    generalize (ofLex (ring.points.getD ((start + off) % ring.points.length) (toLex (0, 0)))).2 =
      idx at hbound ⊢
    split at hbound
    · next hidx =>
      rw [if_pos hidx]
      exact ih hseen hlength hnodup hbound
    · next hidx =>
      rw [if_neg hidx]
      have hidx_mem : idx ∈ order ++ [idx] := List.mem_append_right _ (List.mem_singleton_self idx)
      have hnodup' : idx < n → (order ++ [idx]).Nodup := by
        intro hlt
        rw [← List.concat_eq_append]
        exact hnodup.concat fun h => hidx ((hseen idx hlt).2 h)
      split at hbound
      · next hfull =>
        rw [if_pos hfull]
        have hnodup' := hnodup' (hbound idx hidx_mem)
        refine (List.perm_ext_iff_of_nodup hnodup' List.nodup_range).2 fun i => ?_
        exact ⟨fun hi => List.mem_range.2 (hbound i hi), fun hi =>
          HashRing.mem_of_length_eq hnodup' hbound hfull (List.mem_range.1 hi)⟩
      · next hfull =>
        rw [if_neg hfull]
        have hlt : idx < n := hbound idx (subset_finished_walk hidx_mem)
        refine ih (fun i hi => ?_) (by rw [List.length_set, hlength]) (hnodup' hlt) hbound
        rw [List.getD_eq_getElem?_getD, List.getElem?_set, List.mem_append, List.mem_singleton]
        by_cases heq : idx = i
        · rw [if_pos heq, if_pos (by omega)]
          exact ⟨fun _ => .inr heq.symm, fun _ => rfl⟩
        · rw [if_neg heq, ← List.getD_eq_getElem?_getD, hseen i hi]
          exact ⟨.inl, fun h => h.resolve_right (Ne.symm heq)⟩

theorem preferenceOrder_perm {keyHash : Nat} (h : ∀ i ∈ ring.preferenceOrder keyHash n, i < n) :
    (ring.preferenceOrder keyHash n).Perm (List.range n) := by
  have hfinished : ring.preferenceOrder keyHash n =
      HashRing.finished n
        (HashRing.walk ring (ring.points.takeWhile fun p => (ofLex p).1 < keyHash).length n
        (List.range ring.points.length) (List.replicate n false) []) := by
    simp only [HashRing.preferenceOrder]
    rfl
  rw [hfinished] at h ⊢
  refine finished_walk_perm (fun i hi => ?_) List.length_replicate List.nodup_nil h
  simp [List.getD_eq_getElem?_getD, hi]

end Rings

section Tiers

variable {routing : ModelRouting} {virtualName hashKey : String} {tier targets : List RoutingTarget}
    {names : List String} {r r' : Registry}

theorem map_getD_range (tier : List RoutingTarget) (d : RoutingTarget) :
    (List.range tier.length).map (fun i => tier.getD i d) = tier := by
  refine List.ext_getElem (by simp) fun i hi hi' => ?_
  rw [List.getElem_map, List.getElem_range, List.getD_eq_getElem _ _ hi']

theorem mapM_model (d : RoutingTarget) {l : List Nat}
    (h : (l.mapM fun idx => (tier[idx]?).map (·.model)) = some names) :
    (∀ i ∈ l, i < tier.length) ∧ names = (l.map fun i => tier.getD i d).map (·.model) := by
  induction l generalizing names with
  | nil =>
    rw [List.mapM_nil] at h
    obtain rfl := Option.some.inj h
    exact ⟨fun i hi => absurd hi List.not_mem_nil, rfl⟩
  | cons i l ih =>
    rw [List.mapM_cons] at h
    obtain ⟨name, hname, h⟩ := Option.bind_eq_some_iff.1 h
    obtain ⟨rest, hrest, h⟩ := Option.bind_eq_some_iff.1 h
    obtain rfl := Option.some.inj h
    obtain ⟨t, ht, rfl⟩ := Option.map_eq_some_iff.1 hname
    obtain ⟨hi, rfl⟩ := List.getElem?_eq_some_iff.1 ht
    obtain ⟨hbound, rfl⟩ := ih hrest
    refine ⟨fun j hj => ?_, ?_⟩
    · rcases List.mem_cons.1 hj with rfl | hj
      · exact hi
      · exact hbound j hj
    · rw [List.map_cons, List.map_cons, List.getD_eq_getElem _ _ hi]

theorem pickTier_order (h : r.pickTier virtualName routing hashKey tier = some (names, r')) :
    ∃ order : List RoutingTarget, names = order.map (·.model) ∧ order.Perm tier := by
  unfold Registry.pickTier at h
  dsimp only at h
  generalize (tier.head?.map (·.priorityOrDefault)).getD 0 = priority at h
  cases hstrategy : routing.strategy with
  | failover =>
    rw [hstrategy] at h
    exact ⟨tier, (congrArg Prod.fst (Option.some.inj h)).symm, .refl tier⟩
  | roundRobin =>
    rw [hstrategy] at h
    dsimp only at h
    split at h
    · cases h
    · refine ⟨tier.rotate (r.wrrPick virtualName priority (tierFingerprint routing.targets) tier).1,
        ?_, List.rotate_perm _ _⟩
      rw [CircularWalk.rotate_eq_map_range _ _ (.new ""), List.map_map]
      exact (congrArg Prod.fst (Option.some.inj h)).symm
  | consistentHash =>
    rw [hstrategy] at h
    obtain ⟨names', hnames, h⟩ := Option.map_eq_some_iff.1 h
    obtain rfl : names' = names := congrArg Prod.fst h
    obtain ⟨hbound, rfl⟩ := mapM_model (.new "") hnames
    refine ⟨_, rfl, ((preferenceOrder_perm hbound).map _).trans (.of_eq (map_getD_range tier _))⟩
  | leastCost | leastLatency | leastBusy =>
    rw [hstrategy] at h
    cases h

theorem pickTiers_order {ps : List Int} (hps : ps.Pairwise (· > ·))
    (h : Registry.pickTiers virtualName routing hashKey r (ps.map (Registry.tierOf targets)) =
      some (names, r')) :
    ∃ order : List RoutingTarget, names = order.map (·.model) ∧
      order.Perm (ps.flatMap (Registry.tierOf targets)) ∧
      order.Pairwise fun t u => u.priorityOrDefault ≤ t.priorityOrDefault := by
  have hprio : ∀ {p : Int} {t : RoutingTarget}, t ∈ Registry.tierOf targets p →
      t.priorityOrDefault = p := by
    intro p t ht
    simpa using (List.mem_filter.1 ht).2
  induction ps generalizing r r' names with
  | nil =>
    obtain ⟨rfl, -⟩ := Prod.mk.inj (Option.some.inj h)
    exact ⟨[], rfl, .nil, .nil⟩
  | cons p ps ih =>
    obtain ⟨hlower, hps⟩ := List.pairwise_cons.1 hps
    rw [List.map_cons, Registry.pickTiers] at h
    cases htier : r.pickTier virtualName routing hashKey (Registry.tierOf targets p) with
    | none => rw [htier] at h; cases h
    | some picked =>
      obtain ⟨tierNames, r₁⟩ := picked
      rw [htier] at h
      obtain ⟨⟨rest, r₂⟩, hrest, h⟩ := Option.map_eq_some_iff.1 h
      obtain ⟨rfl, -⟩ := Prod.mk.inj h
      obtain ⟨first, hfirst, hperm⟩ := pickTier_order htier
      obtain ⟨later, hlater, hperm', hsorted⟩ := ih hps hrest
      refine ⟨first ++
        later, by
        rw [hfirst, hlater, List.map_append], hperm.append hperm',
          List.pairwise_append.2 ⟨?_, hsorted, ?_⟩⟩
      · refine List.pairwise_of_forall_mem_list fun t ht u hu => ?_
        rw [hprio (hperm.mem_iff.1 ht), hprio (hperm.mem_iff.1 hu)]
      · intro t ht u hu
        obtain ⟨q, hq, hu⟩ := List.mem_flatMap.1 (hperm'.mem_iff.1 hu)
        rw [hprio (hperm.mem_iff.1 ht), hprio hu]
        exact le_of_lt (hlower q hq)

theorem priorities_pairwise (targets : List RoutingTarget) :
    (Registry.priorities targets).Pairwise (· > ·) := by
  have hsorted : ((targets.map (·.priorityOrDefault)).insertionSort (· ≥ ·)).Pairwise (· ≥ ·) :=
    List.pairwise_insertionSort _ _
  rw [Registry.priorities, hsorted.destutter_eq_dedup]
  exact ((hsorted.sublist (List.dedup_sublist _)).and (List.nodup_dedup _)).imp fun h =>
    lt_of_le_of_ne h.1 (Ne.symm h.2)

theorem mem_priorities {t : RoutingTarget} (h : t ∈ targets) :
    t.priorityOrDefault ∈ Registry.priorities targets := by
  have hsorted : ((targets.map (·.priorityOrDefault)).insertionSort (· ≥ ·)).Pairwise (· ≥ ·) :=
    List.pairwise_insertionSort _ _
  rw [Registry.priorities, hsorted.destutter_eq_dedup, List.mem_dedup,
    (List.perm_insertionSort _ _).mem_iff]
  exact List.mem_map_of_mem h

theorem flatMap_tierOf_perm {ps : List Int} (hps : ps.Nodup)
    (h : ∀ t ∈ targets, t.priorityOrDefault ∈ ps) :
    (ps.flatMap (Registry.tierOf targets)).Perm targets := by
  induction ps generalizing targets with
  | nil =>
    obtain rfl := List.eq_nil_iff_forall_not_mem.2 fun t ht => List.not_mem_nil (h t ht)
    exact .nil
  | cons p ps ih =>
    obtain ⟨hp, hps⟩ := List.nodup_cons.1 hps
    let rest := targets.filter fun t => !decide (t.priorityOrDefault = p)
    have hrest : ps.flatMap (Registry.tierOf targets) = ps.flatMap (Registry.tierOf rest) := by
      refine List.flatMap_congr fun q hq => ?_
      rw [Registry.tierOf, Registry.tierOf, List.filter_filter]
      refine List.filter_congr fun t _ => ?_
      by_cases htq : t.priorityOrDefault = q
      · have hne : t.priorityOrDefault ≠ p := fun heq => hp (by rwa [← heq, htq])
        simp [htq, htq ▸ hne]
      · simp [htq]
    have hmem : ∀ t ∈ rest, t.priorityOrDefault ∈ ps := by
      intro t ht
      obtain ⟨ht, hne⟩ := List.mem_filter.1 ht
      exact (List.mem_cons.1 (h t ht)).resolve_left (by simpa using hne)
    rw [List.flatMap_cons, hrest]
    exact ((ih hps hmem).append_left _).trans (List.filter_append_perm _ _)

/-- The names picked are those of targets, none of them twice; without a metric their priorities
never rise. -/
theorem pickTargets_spec (h : r.pickTargets virtualName routing targets hashKey =
    some (names, r')) : ∃ order : List RoutingTarget, names = order.map (·.model) ∧
    order.Subperm targets ∧ (targets ≠ [] → order ≠ []) ∧
      (routing.strategy.isMetricBased = false →
        order.Pairwise fun t u => u.priorityOrDefault ≤ t.priorityOrDefault) := by
  unfold Registry.pickTargets at h
  split at h
  · next hempty =>
    obtain ⟨rfl, -⟩ := Prod.mk.inj (Option.some.inj h)
    exact ⟨[], rfl, List.nil_subperm, fun hne => absurd (List.isEmpty_iff.1 hempty) hne,
      fun _ => .nil⟩
  · split at h
    · next hmetric =>
      obtain ⟨rfl, -⟩ := Prod.mk.inj (Option.some.inj h)
      exact ⟨targets, rfl, .refl targets, id,
        fun h => absurd hmetric (by rw [h]; exact Bool.false_ne_true)⟩
    · obtain ⟨⟨picked, r₁⟩, hpicked, h⟩ := Option.map_eq_some_iff.1 h
      obtain ⟨rfl, -⟩ := Prod.mk.inj h
      obtain ⟨order, hnames, hperm, hsorted⟩ :=
        pickTiers_order (priorities_pairwise targets) hpicked
      have hperm : order.Perm targets :=
        hperm.trans (flatMap_tierOf_perm ((priorities_pairwise targets).imp fun h => ne_of_gt h)
          fun t ht => mem_priorities ht)
      have hsub := List.take_sublist (routing.maxFallbacksOrDefault + 1) order
      refine ⟨order.take
        (routing.maxFallbacksOrDefault + 1), by
        rw [hnames, List.map_take], hsub.subperm.trans hperm.subperm,
        fun hne hnil => ?_, fun _ => hsorted.sublist hsub⟩
      rcases List.take_eq_nil_iff.1 hnil with hzero | hnil
      · exact Nat.succ_ne_zero _ hzero
      · exact hne (hnil ▸ hperm).nil_eq.symm

end Tiers

end Routing
end Aisix
