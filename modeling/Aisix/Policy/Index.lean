import Aisix.KeyMap
import Aisix.Policy.Layer

/-!
# Aisix.Policy.Index

The index over the policy table (`policy_index.rs`). `build` files each policy under the values of
one dimension that a request must carry for the policy to match, and under `fallback` when it finds
no such dimension; `candidates` looks a request's values up.

* `selector_necessary`: a policy that matches a request was filed under a value the request carries.
* `mem_positions_of_matches`: so its position is among the candidates.
* `candidates_exact`: what is left of the candidates after the full match is what is left of the
  table, in table order.
-/

namespace Aisix
namespace Policy

/-- One row of the policy table. -/
structure Entry where
  id : String
  value : RateLimitPolicy

mutual

/-- The equality leaf a node cannot be true without, if it has one in a place where it is necessary.
-/
def nodeMatch : ConditionNode → Option (PolicyDimension × List String)
  | .leaf leaf =>
    if leaf.negate then none
    else
      match leaf.operator, leaf.value with
      | .eq, .one value => some (leaf.dimension, [value])
      | .in, .many values => some (leaf.dimension, values)
      | _, _ => none
  | .group logic negate children =>
    if logic = .and ∧ negate = false then requiredMatch children else none

def requiredMatch : List ConditionNode → Option (PolicyDimension × List String)
  | [] => none
  | node :: nodes =>
    match nodeMatch node with
    | some m => some m
    | none => requiredMatch nodes

end

def scopeDimension : PolicyScope → PolicyDimension
  | .apiKey => .apiKey
  | .model => .model
  | .team | .teamMember => .team
  | .member => .member

def selector (policy : RateLimitPolicy) : Option (PolicyDimension × List String) :=
  match policy.conditions with
  | some conditions => requiredMatch conditions
  | none =>
    match policy.scope, policy.scopeRef with
    | some scope, some scopeRef => some (scopeDimension scope, [scopeRef])
    | _, _ => none

structure PolicyIndex where
  entries : List Entry
  byValue : KeyMap PolicyDimension (KeyMap String (List Nat))
  fallback : List Nat

namespace PolicyIndex

def pushValue (position : Nat) (byValue : KeyMap String (List Nat)) (value : String) :
    KeyMap String (List Nat) :=
  byValue.insert value ((byValue.lookup value).getD [] ++ [position])

/-- File the policy at `position`. -/
def file (index : PolicyIndex) (position : Nat) (policy : RateLimitPolicy) : PolicyIndex :=
  match selector policy with
  | some (dimension, values) =>
    { index with
      byValue := index.byValue.insert dimension
        (values.foldl (pushValue position) ((index.byValue.lookup dimension).getD ∅)) }
  | none => { index with fallback := index.fallback ++ [position] }

def build (table : List Entry) : PolicyIndex :=
  table.zipIdx.foldl (fun index e => index.file e.2 e.1.value)
    { entries := table, byValue := ∅, fallback := [] }

/-- `Vec::dedup`: drop an element equal to the one after it. -/
def dedup : List Nat → List Nat
  | a :: b :: l => if a = b then dedup (b :: l) else a :: dedup (b :: l)
  | l => l

/-- The parent's value for a model dimension. -/
def parent (input : ConditionInput) : PolicyDimension → Option String
  | .model => input.routingParentModel
  | .modelName => input.routingParentModelName
  | _ => none

/-- The positions filed under a value of the request. The map of a `HashMap` is walked in an order
nothing fixes; `visit` is the order it happens to be walked in. -/
def positions (index : PolicyIndex) (visit : List (Σ _ : PolicyDimension, KeyMap String (List Nat)))
    (input : ConditionInput) : List Nat :=
  index.fallback ++ visit.flatMap fun e =>
    [input.get e.1, parent input e.1].flatMap fun value =>
      (value.bind fun v => e.2.lookup v).getD []

/-- A superset of the matching policies, in the snapshot's order. -/
def candidates (index : PolicyIndex)
    (visit : List (Σ _ : PolicyDimension, KeyMap String (List Nat)))
    (input : ConditionInput) : List Entry :=
  (dedup ((index.positions visit input).insertionSort (· ≤ ·))).filterMap (index.entries[·]?)

theorem mem_dedup (a : Nat) (l : List Nat) : a ∈ dedup l ↔ a ∈ l := by
  fun_induction dedup l with
  | case1 b l ih => rw [ih]; simp
  | case2 b c l hne ih => rw [List.mem_cons, ih, List.mem_cons (b := b)]
  | case3 l h => rfl

theorem sortedLT_dedup {l : List Nat} (h : l.Pairwise (· ≤ ·)) : (dedup l).Pairwise (· < ·) := by
  fun_induction dedup l with
  | case1 b l ih => exact ih (List.pairwise_cons.1 h).2
  | case2 b c l hne ih =>
    obtain ⟨hle, hrest⟩ := List.pairwise_cons.1 h
    refine List.pairwise_cons.2 ⟨fun x hx => ?_, ih hrest⟩
    have hbc : b ≤ c := hle c List.mem_cons_self
    have hcx : c ≤ x := by
      rcases List.mem_cons.1 ((mem_dedup x _).1 hx) with rfl | hx
      · exact Nat.le_refl _
      · exact (List.pairwise_cons.1 hrest).1 x hx
    omega
  | case3 l hshort =>
    match l, hshort with
    | [], _ => exact .nil
    | [_], _ => exact List.pairwise_singleton _ _
    | _ :: _ :: _, hshort => exact absurd rfl (hshort _ _ _)

theorem filterMap_getElem?_range (table : List Entry) :
    (List.range table.length).filterMap (table[·]?) = table := by
  induction table with
  | nil => rfl
  | cons e table ih =>
    rw [List.length_cons, List.range_succ_eq_map, List.filterMap_cons, List.filterMap_map]
    simpa using ih

/-- Rows picked at strictly increasing positions are the rows of the table, less those not picked.
-/
theorem filter_filterMap_getElem? {l : List Nat} (hl : l.Pairwise (· < ·)) (table : List Entry)
    (p : Entry → Bool) (h : ∀ i e, table[i]? = some e → p e = true → i ∈ l) :
    (l.filterMap (table[·]?)).filter p = table.filter p := by
  have hkeep : ∀ is : List Nat, (is.filterMap (table[·]?)).filter p =
      ((is.filter fun i => (table[i]?).any p).filterMap (table[·]?)) := by
    intro is
    induction is with
    | nil => rfl
    | cons i is ih =>
      cases he : table[i]? with
      | none => simpa [List.filterMap_cons, List.filter_cons, he] using ih
      | some e => cases hp : p e <;> simpa [List.filterMap_cons, List.filter_cons, he, hp] using ih
  conv_rhs => rw [← filterMap_getElem?_range table]
  rw [hkeep, hkeep]
  congr 1
  refine List.Pairwise.eq_of_mem_iff (hl.filter _) (List.pairwise_lt_range.filter _) fun i => ?_
  rw [List.mem_filter, List.mem_filter, List.mem_range]
  constructor
  · rintro ⟨-, hi⟩
    refine ⟨?_, hi⟩
    by_contra hge
    rw [List.getElem?_eq_none (by omega)] at hi
    cases hi
  · rintro ⟨-, hi⟩
    obtain ⟨e, he, hp⟩ := (Option.any_eq_true _ _).1 hi
    exact ⟨h i e he hp, hi⟩

/-- The positions filed under a value of a dimension. -/
def under (index : PolicyIndex) (d : PolicyDimension) (v : String) : List Nat :=
  ((index.byValue.lookup d).bind fun m => m.lookup v).getD []

/-- The policy at `position` stands where a request that it matches will look. -/
def Filed (index : PolicyIndex) (position : Nat) (policy : RateLimitPolicy) : Prop :=
  (selector policy = none → position ∈ index.fallback) ∧
    ∀ d values, selector policy = some (d, values) → ∀ v ∈ values, position ∈ index.under d v

theorem mem_pushValue {i position : Nat} {m : KeyMap String (List Nat)} {v value : String} :
    i ∈ ((pushValue position m value).lookup v).getD [] ↔
      i ∈ (m.lookup v).getD [] ∨ (v = value ∧ i = position) := by
  by_cases hv : v = value
  · subst hv; simp [pushValue, AList.lookup_insert]
  · simp [pushValue, AList.lookup_insert_ne hv, hv]

theorem mem_foldl_pushValue {i position : Nat} {values : List String} {m : KeyMap String (List Nat)}
    {v : String} :
    i ∈ ((values.foldl (pushValue position) m).lookup v).getD [] ↔
      i ∈ (m.lookup v).getD [] ∨ (v ∈ values ∧ i = position) := by
  induction values generalizing m with
  | nil => simp
  | cons value values ih =>
    rw [List.foldl_cons, ih, mem_pushValue, List.mem_cons]
    constructor
    · rintro ((h | ⟨h, hi⟩) | ⟨h, hi⟩)
      · exact .inl h
      · exact .inr ⟨.inl h, hi⟩
      · exact .inr ⟨.inr h, hi⟩
    · rintro (h | ⟨h | h, hi⟩)
      · exact .inl (.inl h)
      · exact .inl (.inr ⟨h, hi⟩)
      · exact .inr ⟨h, hi⟩

theorem mem_under_file {index : PolicyIndex} {i position : Nat} {policy : RateLimitPolicy}
    {d : PolicyDimension} {v : String} :
    i ∈ (index.file position policy).under d v ↔
      i ∈ index.under d v ∨
        (i = position ∧ ∃ values, selector policy = some (d, values) ∧ v ∈ values) := by
  cases hs : selector policy with
  | none => simp [file, hs, under]
  | some sel =>
    obtain ⟨d', values⟩ := sel
    by_cases hd : d = d'
    · subst hd
      simp only [file, hs, under, AList.lookup_insert, Option.bind_some, mem_foldl_pushValue]
      cases index.byValue.lookup d with
      | none => simp [and_comm]
      | some m => simp [and_comm]
    · have hne : ∀ values', (d', values) ≠ (d, values') := fun _ h => hd (Prod.mk.inj h).1.symm
      simp [file, hs, under, AList.lookup_insert_ne hd, hne]

theorem mem_fallback_file {index : PolicyIndex} {i position : Nat} {policy : RateLimitPolicy} :
    i ∈ (index.file position policy).fallback ↔
      i ∈ index.fallback ∨ (i = position ∧ selector policy = none) := by
  cases hs : selector policy <;> simp [file, hs]

theorem filed_file_self (index : PolicyIndex) (position : Nat) (policy : RateLimitPolicy) :
    (index.file position policy).Filed position policy :=
  ⟨fun h => mem_fallback_file.2 (.inr ⟨rfl, h⟩),
    fun _ values h _ hv => mem_under_file.2 (.inr ⟨rfl, values, h, hv⟩)⟩

theorem Filed.file {index : PolicyIndex} {i : Nat} {policy : RateLimitPolicy}
    (h : index.Filed i policy)
    (position : Nat) (policy' : RateLimitPolicy) : (index.file position policy').Filed i policy :=
  ⟨fun hs => mem_fallback_file.2 (.inl (h.1 hs)),
    fun d values hs v hv => mem_under_file.2 (.inl (h.2 d values hs v hv))⟩

@[simp] theorem entries_file (index : PolicyIndex) (position : Nat) (policy : RateLimitPolicy) :
    (index.file position policy).entries = index.entries := by
  unfold PolicyIndex.file; split <;> rfl

theorem entries_foldl_file (es : List (Entry × Nat)) (index : PolicyIndex) :
    (es.foldl (fun index e => index.file e.2 e.1.value) index).entries = index.entries := by
  induction es generalizing index with
  | nil => rfl
  | cons e es ih => rw [List.foldl_cons, ih, entries_file]

@[simp] theorem entries_build (table : List Entry) : (build table).entries = table :=
  entries_foldl_file table.zipIdx _

theorem Filed.foldl_file {es : List (Entry × Nat)} {index : PolicyIndex} {i : Nat}
    {policy : RateLimitPolicy} (h : index.Filed i policy) :
    (es.foldl (fun index e => index.file e.2 e.1.value) index).Filed i policy := by
  induction es generalizing index with
  | nil => exact h
  | cons e es ih => exact ih (h.file e.2 e.1.value)

theorem filed_foldl_file {es : List (Entry × Nat)} {index : PolicyIndex} {e : Entry} {i : Nat}
    (h : (e, i) ∈ es) :
    (es.foldl (fun index e => index.file e.2 e.1.value) index).Filed i e.value := by
  induction es generalizing index with
  | nil => cases h
  | cons e' es ih =>
    rcases List.mem_cons.1 h with rfl | h
    · exact (filed_file_self index i e.value).foldl_file
    · exact ih h

theorem filed_build {table : List Entry} {i : Nat} {e : Entry} (h : table[i]? = some e) :
    (build table).Filed i e.value :=
  filed_foldl_file (List.mem_zipIdx_iff_getElem?.2 h)

end PolicyIndex

/-- The request carries one of the values in the dimension, for the model it is dispatched to or for
the parent that was asked for. -/
def Carries (input : ConditionInput) (dimension : PolicyDimension) (values : List String) : Prop :=
  ∃ v ∈ values, input.get dimension = some v ∨ PolicyIndex.parent input dimension = some v

variable {host : Externals} {input : ConditionInput}

theorem parent_eq (input : ConditionInput) (d : PolicyDimension) :
    PolicyIndex.parent input d = input.routingParent d := by cases d <;> rfl

/-- An operator that holds of the request holds of the model's value or of the parent's. -/
theorem evalLeaf_var {leaf : PolicyCondition} (hop : leaf.operator ≠ .ne)
    (hneg : leaf.negate = false) (he : evalLeaf host leaf input = true) :
    ∃ var, evalOperator host leaf var = true ∧
      (input.get leaf.dimension = some var ∨
      PolicyIndex.parent input leaf.dimension = some var) := by
  unfold evalLeaf at he
  split at he
  · cases he
  · next var hvar =>
    simp only [hneg, if_neg hop, Bool.bne_false, Bool.or_eq_true] at he
    rcases he with h | h
    · exact ⟨var, h, .inl hvar⟩
    · obtain ⟨p, hp, h⟩ := (Option.any_eq_true _ _).1 h
      exact ⟨p, h, .inr ((parent_eq input _).trans hp)⟩

theorem evalLeaf_carries {leaf : PolicyCondition} {d : PolicyDimension} {values : List String}
    (h : nodeMatch (.leaf leaf) = some (d, values)) (he : evalLeaf host leaf input = true) :
    Carries input d values := by
  rw [nodeMatch] at h
  split at h
  · cases h
  next hneg =>
  have hneg : leaf.negate = false := by simpa using hneg
  split at h
  · next value hop hval =>
    cases h
    obtain ⟨var, hvar, hcarried⟩ := evalLeaf_var (by rw [hop]; decide) hneg he
    simp only [evalOperator, hop, hval, beq_iff_eq] at hvar
    exact ⟨value, List.mem_singleton.2 rfl, hvar ▸ hcarried⟩
  · next values hop hval =>
    cases h
    obtain ⟨var, hvar, hcarried⟩ := evalLeaf_var (by rw [hop]; decide) hneg he
    simp only [evalOperator, hop, hval, List.any_eq_true, beq_iff_eq] at hvar
    obtain ⟨v, hv, rfl⟩ := hvar
    exact ⟨v, hv, hcarried⟩
  · cases h

mutual

theorem nodeMatch_necessary {d : PolicyDimension} {values : List String} :
    ∀ {node : ConditionNode}, nodeMatch node = some (d, values) → evalNode host node input = true →
      Carries input d values
  | .leaf leaf, h, he => evalLeaf_carries h (by rwa [evalNode] at he)
  | .group logic negate children, h, he => by
    rw [nodeMatch] at h
    split at h
    · next hand =>
      obtain ⟨rfl, rfl⟩ := hand
      rw [evalNode] at he
      exact requiredMatch_necessary h (by simpa using he)
    · cases h

theorem requiredMatch_necessary {d : PolicyDimension} {values : List String} :
    ∀ {nodes : List ConditionNode}, requiredMatch nodes = some (d, values) →
      allNodes host nodes input = true → Carries input d values
  | [], h, _ => by cases h
  | node :: nodes, h, he => by
    rw [allNodes, Bool.and_eq_true] at he
    rw [requiredMatch] at h
    split at h
    · next m hm => cases h; exact nodeMatch_necessary hm he.1
    · exact requiredMatch_necessary h he.2

end

theorem scopeApplies_carries {scope : PolicyScope} {scopeRef : String}
    (h : scopeApplies input scopeRef scope = true) :
    Carries input (scopeDimension scope) [scopeRef] := by
  refine ⟨scopeRef, List.mem_singleton.2 rfl, .inl ?_⟩
  cases scope <;> simp only [scopeApplies, Bool.and_eq_true, beq_iff_eq] at h
  case apiKey => exact h
  case model => exact h
  case team => exact h
  case member => exact h
  case teamMember => exact h.1

theorem selector_necessary {policy : RateLimitPolicy}
    (hvalid : policy.validateSemantics host = .ok ()) {id : String} {phase : PolicyPhase}
    (hmatch : (matchPolicyLayer host policy id input phase).isSome) {d : PolicyDimension}
    {values : List String} (hsel : selector policy = some (d, values)) :
    Carries input d values := by
  obtain ⟨l, hl⟩ := Option.isSome_iff_exists.1 hmatch
  rcases RateLimitPolicy.forms_of_validate hvalid with ⟨hcond, hclassic⟩ | ⟨hcond, hfree, -, -⟩
  · rw [matchPolicyLayer_conditional hcond] at hl
    obtain ⟨heval, -, -⟩ := matchConditionalLayer_some hl
    unfold selector at hsel
    cases hc : policy.conditions with
    | some conditions =>
      rw [hc] at hsel heval
      exact requiredMatch_necessary hsel heval
    | none =>
      have hscope : policy.scope = none := by
        simp only [RateLimitPolicy.classic, Bool.or_eq_false_iff] at hclassic
        simpa using hclassic.1.1.1.1.1
      rw [hc, hscope] at hsel
      cases hsel
  · obtain ⟨scope, scopeRef, hscope, href, happ, -, -⟩ := matchPolicyLayer_classic hcond hl
    have hc : policy.conditions = none := by
      simp only [RateLimitPolicy.conditional, Bool.or_eq_false_iff] at hfree
      simpa using hfree.1.1.1
    unfold selector at hsel
    rw [hc, hscope, href] at hsel
    cases hsel
    exact scopeApplies_carries happ

namespace PolicyIndex

variable {visit : List (Σ _ : PolicyDimension, KeyMap String (List Nat))}

theorem mem_positions_of_under {index : PolicyIndex} (hvisit : visit.Perm index.byValue.entries)
    {i : Nat} {d : PolicyDimension} {v : String} (hi : i ∈ index.under d v)
    (hv : input.get d = some v ∨ parent input d = some v) : i ∈ index.positions visit input := by
  refine List.mem_append_right _ (List.mem_flatMap.2 ?_)
  unfold under at hi
  cases hm : index.byValue.lookup d with
  | none => simp [hm] at hi
  | some m =>
    rw [hm, Option.bind_some] at hi
    have hmem : (⟨d, m⟩ : Σ _ : PolicyDimension, KeyMap String (List Nat)) ∈ visit :=
      hvisit.mem_iff.2 (AList.mem_lookup_iff.1 hm)
    refine ⟨⟨d, m⟩, hmem, List.mem_flatMap.2 ⟨some v, ?_, by simpa using hi⟩⟩
    rcases hv with hv | hv <;> simp [hv]

theorem mem_positions_of_matches {table : List Entry}
    (hvisit : visit.Perm (build table).byValue.entries) {i : Nat} {e : Entry}
    (he : table[i]? = some e) (hvalid : e.value.validateSemantics host = .ok ())
    {phase : PolicyPhase} (hmatch : (matchPolicyLayer host e.value e.id input phase).isSome) :
    i ∈ (build table).positions visit input := by
  have hfiled := filed_build he
  cases hsel : selector e.value with
  | none => exact List.mem_append_left _ (hfiled.1 hsel)
  | some sel =>
    obtain ⟨d, values⟩ := sel
    obtain ⟨v, hv, hcarried⟩ := selector_necessary hvalid hmatch hsel
    exact mem_positions_of_under hvisit (hfiled.2 d values hsel v hv) hcarried

/-- The index never changes what is enforced: the candidates that match are the rows that match,
each once and in table order, in whatever order the maps of the index are walked. -/
theorem candidates_exact (host : Externals) (table : List Entry)
    (hvalid : ∀ e ∈ table, e.value.validateSemantics host = .ok ())
    (hvisit : visit.Perm (build table).byValue.entries) (input : ConditionInput)
    (phase : PolicyPhase) :
    ((build table).candidates visit input).filter
        (fun e => (matchPolicyLayer host e.value e.id input phase).isSome) =
      table.filter fun e => (matchPolicyLayer host e.value e.id input phase).isSome := by
  unfold candidates
  rw [entries_build]
  refine filter_filterMap_getElem? (sortedLT_dedup (List.pairwise_insertionSort _ _)) table _ ?_
  intro i e he hmatch
  rw [mem_dedup, List.mem_insertionSort]
  exact mem_positions_of_matches hvisit he (hvalid e (List.mem_of_getElem? he)) hmatch

/-- A request that a group dispatched to one of its models: the row on the group is found under the
parent's id, the row on another model is not looked at, the negated row is kept in `fallback`. -/
theorem candidates_exact_routed :
    let host : Externals :=
      { compiledRegex := fun _ _ => none, compareNumbers := fun _ _ _ => false, debug := id }
    let on (negate : Bool) (model : String) : RateLimitPolicy :=
      { conditions := some [.leaf
        { dimension := .model, operator := .eq, negate, value := .one model }]
        limits := some { rpm := some 10 } }
    let table : List Entry :=
      [⟨"a", on false "group"⟩, ⟨"b", on false "other"⟩, ⟨"c", on true "other"⟩]
    let input : ConditionInput := { model := some "target", routingParentModel := some "group" }
    ((build table).candidates (build table).byValue.entries input).map Entry.id = ["a", "c"] ∧
      ((build table).candidates (build table).byValue.entries input).filter
          (fun e => (matchPolicyLayer host e.value e.id input .modelTarget).isSome) =
        table.filter (fun e => (matchPolicyLayer host e.value e.id input .modelTarget).isSome) := by
  intro host on table input
  refine ⟨by decide +kernel, candidates_exact host table ?_ (.refl _) input .modelTarget⟩
  intro e he
  simp only [table, List.mem_cons, List.not_mem_nil, or_false] at he
  rcases he with rfl | rfl | rfl <;> rfl

end PolicyIndex

end Policy
end Aisix
