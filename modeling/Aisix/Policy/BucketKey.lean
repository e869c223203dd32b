import Aisix.Delimited
import Aisix.Policy.Layer

/-!
# Aisix.Policy.BucketKey

Which policies and which requests share a bucket. A key is a tag (`policy` or `spend`), then `v2` or
the scope, then the policy's own part; the parts are set off by `:`.

A conditional row's part begins with its entry id and escapes the values it splits by. A classic
row's part is `<scope_ref>:<id>`, with `:<member>` behind it under `team_member`, and neither the
`scope_ref` nor the member is escaped: `bucket_keys_told_apart` says exactly when two such rows
still come out different.
-/

namespace Aisix
namespace Policy

open Delimited

/-- The keys of the buckets a layer counts in. -/
def PolicyLayer.keys (l : PolicyLayer) : List String :=
  l.bucketKey :: (l.spend.map SpendLayer.bucketKey).toList

section Escape

/-- What `escape_bucket_segment` makes of one character. -/
def escapeChar (c : Char) : List Char :=
  if c = '%' then "%25".toList else if c = ':' then "%3A".toList else if c = '=' then "%3D".toList
  else [c]

theorem toList_replaceChar (c : Char) (r s : String) :
    (replaceChar c r s).toList = s.toList.flatMap fun d => if d = c then r.toList else [d] :=
  String.toList_ofList

theorem toList_escapeBucketSegment (value : String) :
    (escapeBucketSegment value).toList = value.toList.flatMap escapeChar := by
  unfold escapeBucketSegment
  split
  · simp only [toList_replaceChar, List.flatMap_assoc]
    refine List.flatMap_congr fun c _ => ?_
    unfold escapeChar
    split_ifs with h1 h2 h3 <;> simp_all
  · next hplain =>
    have hid : ∀ c ∈ value.toList, escapeChar c = [c] := by
      intro c hc
      have : ¬ (c = ':' ∨ c = '=' ∨ c = '%') := by
        rintro h
        refine hplain (List.any_eq_true.2 ⟨c, hc, ?_⟩)
        rcases h with h | h | h <;> simp [h]
      simp only [not_or] at this
      simp [escapeChar, this]
    rw [List.flatMap_congr hid]
    simp

theorem colon_notMem_escape (value : String) : ':' ∉ (escapeBucketSegment value).toList := by
  rw [toList_escapeBucketSegment, List.mem_flatMap]
  rintro ⟨c, -, hc⟩
  unfold escapeChar at hc
  split_ifs at hc with h1 h2 h3
  · revert hc; decide
  · revert hc; decide
  · revert hc; decide
  · exact h2 (List.mem_singleton.1 hc).symm

theorem escapeBucketSegment_injective : Function.Injective escapeBucketSegment := by
  intro v v' h
  have hchars := congrArg String.toList h
  rw [toList_escapeBucketSegment, toList_escapeBucketSegment] at hchars
  refine String.toList_injective (flatMap_injective ?_ ?_ hchars)
  · intro c
    unfold escapeChar
    split_ifs <;> simp
  · intro c d hcd
    unfold escapeChar at hcd
    split_ifs at hcd <;> simp_all

end Escape

section Segments

variable {input input' : ConditionInput} {dims : List GroupByDimension} {key k : String}

/-- `:<dim>=<value>`. -/
def segment (input : ConditionInput) (dim : GroupByDimension) : List Char :=
  ':' :: (dim.name.toList ++ '=' :: (escapeBucketSegment ((input.getGroupBy dim).getD "")).toList)

theorem tail_segments (input : ConditionInput) (dims : List GroupByDimension) :
    Tail ':' (dims.flatMap (segment input)) := by
  cases dims with
  | nil => exact .nil _
  | cons dim dims => exact .cons _ _

theorem appendSegments_some (h : appendSegments input dims key = some k) :
    k.toList = key.toList ++ dims.flatMap (segment input) ∧
      ∀ dim ∈ dims, (input.getGroupBy dim).isSome := by
  induction dims generalizing key with
  | nil => cases h; simp
  | cons dim dims ih =>
    rw [appendSegments] at h
    split at h
    · cases h
    · next value hvalue =>
      obtain ⟨hk, hall⟩ := ih h
      refine ⟨?_, List.forall_mem_cons.2 ⟨by rw [hvalue]; rfl, hall⟩⟩
      rw [hk]
      simp [segment, hvalue, toString]

theorem segments_inj (h : ∀ dim ∈ dims, (input.getGroupBy dim).isSome)
    (h' : ∀ dim ∈ dims, (input'.getGroupBy dim).isSome) :
    dims.flatMap (segment input) = dims.flatMap (segment input') ↔
      ∀ dim ∈ dims, input.getGroupBy dim = input'.getGroupBy dim := by
  constructor
  · intro heq
    induction dims with
    | nil => simp
    | cons dim dims ih =>
      obtain ⟨hdim, hrest⟩ := List.forall_mem_cons.1 h
      obtain ⟨hdim', hrest'⟩ := List.forall_mem_cons.1 h'
      simp only [List.flatMap_cons, segment, List.cons_append, List.append_assoc, List.cons.injEq,
        true_and, List.append_cancel_left_eq] at heq
      obtain ⟨hvalue, htail⟩ := segment_inj (colon_notMem_escape _) (colon_notMem_escape _)
        (tail_segments input dims) (tail_segments input' dims) heq
      have hval := escapeBucketSegment_injective (String.toList_injective hvalue)
      obtain ⟨v, hv⟩ := Option.isSome_iff_exists.1 hdim
      obtain ⟨v', hv'⟩ := Option.isSome_iff_exists.1 hdim'
      refine List.forall_mem_cons.2 ⟨?_, ih hrest hrest' htail⟩
      rw [hv, hv'] at hval ⊢
      exact congrArg some hval
  · intro hall
    refine List.flatMap_congr fun dim hdim => ?_
    rw [segment, segment, hall dim hdim]

end Segments

section Shapes

variable {host : Externals} {p p' : RateLimitPolicy} {id id' : String}
    {input input' : ConditionInput} {phase phase' : PolicyPhase} {l l' : PolicyLayer}

/-- A key in its three parts. -/
def keyText (tag form : String) (rest : List Char) : List Char :=
  tag.toList ++ ':' :: (form.toList ++ ':' :: rest)

def IsTag (tag : String) : Prop := tag = "policy" ∨ tag = "spend"

theorem IsTag.colon_notMem {tag : String} (h : IsTag tag) : ':' ∉ tag.toList := by
  rcases h with rfl | rfl <;> decide

theorem PolicyScope.colon_notMem (scope : PolicyScope) : ':' ∉ scope.asStr.toList := by
  cases scope <;> decide

theorem PolicyScope.asStr_injective : Function.Injective PolicyScope.asStr := by
  intro a b h
  cases a <;> cases b <;> first | rfl | exact absurd h (by decide)

theorem PolicyScope.asStr_ne_v2 (scope : PolicyScope) : scope.asStr ≠ "v2" := by
  cases scope <;> decide

theorem keyText_inj {tag tag' form form' : String} {rest rest' : List Char} (htag : IsTag tag)
    (htag' : IsTag tag') (hform : ':' ∉ form.toList) (hform' : ':' ∉ form'.toList)
    (h : keyText tag form rest = keyText tag' form' rest') :
    tag = tag' ∧ form = form' ∧ rest = rest' := by
  obtain ⟨ht, h⟩ := segment_cons_inj htag.colon_notMem htag'.colon_notMem h
  obtain ⟨hf, h⟩ := segment_cons_inj hform hform' h
  exact ⟨String.toList_injective ht, String.toList_injective hf, h⟩

/-- The part of a classic row's key behind the scope. -/
def classicRest (scope : PolicyScope) (scopeRef id : String) (member : Option String) : List Char :=
  scopeRef.toList ++ ':' :: (id.toList ++ (memberSuffix scope member).toList)

theorem memberSuffix_of_ne {scope : PolicyScope} (h : scope ≠ .teamMember)
    (member : Option String) : memberSuffix scope member = "" := by
  unfold memberSuffix
  split
  · exact absurd rfl h
  · rfl

theorem toList_memberSuffix (member : String) :
    (memberSuffix .teamMember (some member)).toList = ':' :: member.toList := by
  simp [memberSuffix, toString]

theorem keys_classic {scope : PolicyScope} {scopeRef : String}
    (hkey : l.bucketKey = s!"policy:{scope.asStr}:{scopeRef}:{id}{memberSuffix scope input.member}")
    (hspend : l.spend = classicSpend p scope scopeRef id (memberSuffix scope input.member)) :
    l.bucketKey.toList = keyText "policy" scope.asStr (classicRest scope scopeRef id input.member) ∧
      ∀ s ∈ l.spend, s.bucketKey.toList =
        keyText "spend" scope.asStr (classicRest scope scopeRef id input.member) := by
  constructor
  · rw [hkey]
    simp [keyText, classicRest, toString]
  · intro s hs
    rw [hspend] at hs
    unfold classicSpend at hs
    dsimp only at hs
    rw [Option.mem_def, Option.ite_none_left_eq_some] at hs
    obtain ⟨-, hs⟩ := hs
    cases hs
    simp [keyText, classicRest, spendBucketKey, toString]

/-- The form a row's keys have, and the part behind it. -/
inductive Shape (p : RateLimitPolicy) (id : String) (input : ConditionInput) :
    String → List Char → Prop
  | conditional (segments : List Char) : p.scope = none → Tail ':' segments →
      Shape p id input "v2" (id.toList ++ segments)
  | classic (scope : PolicyScope) (ref : String) : p.scope = some scope → p.scopeRef = some ref →
      (scope = .teamMember → input.member.isSome) →
      Shape p id input scope.asStr (classicRest scope ref id input.member)

theorem Shape.colon_notMem {form : String} {rest : List Char} (h : Shape p id input form rest) :
    ':' ∉ form.toList := by
  cases h with
  | conditional => decide
  | classic scope => exact scope.colon_notMem

theorem scope_eq_none (h : p.classic = false) : p.scope = none := by
  simp only [RateLimitPolicy.classic, Bool.or_eq_false_iff] at h
  simpa using h.1.1.1.1.1

theorem key_conditional (hcond : p.isConditional = true)
    (h : matchPolicyLayer host p id input phase = some l) :
    l.bucketKey.toList =
        keyText "policy" "v2" (id.toList ++ (groupByOrder p).flatMap (segment input)) ∧
      l.spend = none ∧ ∀ dim ∈ groupByOrder p, (input.getGroupBy dim).isSome := by
  rw [matchPolicyLayer_conditional hcond] at h
  obtain ⟨-, hseg, hspend⟩ := matchConditionalLayer_some h
  obtain ⟨hkey, hall⟩ := appendSegments_some hseg
  refine ⟨?_, hspend, hall⟩
  rw [hkey]
  simp [keyText, toString]

theorem keys_shape (hvalid : p.validateSemantics host = .ok ())
    (hl : matchPolicyLayer host p id input phase = some l) :
    ∃ form rest, Shape p id input form rest ∧ l.bucketKey.toList = keyText "policy" form rest ∧
      ∀ s ∈ l.spend, s.bucketKey.toList = keyText "spend" form rest := by
  rcases RateLimitPolicy.forms_of_validate hvalid with ⟨hcond, hfree⟩ | ⟨hcond, -, -, -⟩
  · obtain ⟨hkey, hspend, -⟩ := key_conditional hcond hl
    exact ⟨_, _, .conditional _ (scope_eq_none hfree) (tail_segments _ _), hkey, by simp [hspend]⟩
  · obtain ⟨scope, ref, hscope, href, happ, hbucket, hspend⟩ := matchPolicyLayer_classic hcond hl
    obtain ⟨htoken, hspent⟩ := keys_classic hbucket hspend
    refine ⟨_, _, .classic scope ref hscope href ?_, htoken, hspent⟩
    rintro rfl
    simp only [scopeApplies, Bool.and_eq_true] at happ
    exact happ.2

theorem exists_tag_of_mem_keys {form k : String} {rest : List Char}
    (htoken : l.bucketKey.toList = keyText "policy" form rest)
    (hspend : ∀ s ∈ l.spend, s.bucketKey.toList = keyText "spend" form rest) (hk : k ∈ l.keys) :
    ∃ tag, IsTag tag ∧ k.toList = keyText tag form rest := by
  rcases List.mem_cons.1 hk with rfl | hk
  · exact ⟨_, .inl rfl, htoken⟩
  · obtain ⟨s, hs, rfl⟩ := Option.map_eq_some_iff.1 (Option.mem_toList.1 hk)
    exact ⟨_, .inr rfl, hspend s hs⟩

end Shapes

section Apart

variable {host : Externals} {p p' : RateLimitPolicy} {id id' : String}
    {input input' : ConditionInput} {phase phase' : PolicyPhase} {l l' : PolicyLayer}

/-- Both rows count per member of a team, and the `scope_ref` of one runs over the other's entry id
into its member. -/
def Aliases (p : RateLimitPolicy) (id : String) (input : ConditionInput) (p' : RateLimitPolicy)
    (id' : String) (input' : ConditionInput) : Prop :=
  p.scope = some .teamMember ∧ p'.scope = some .teamMember ∧
    ∃ ref ∈ p.scopeRef, ∃ ref' ∈ p'.scopeRef, ∃ m ∈ input.member, ∃ m' ∈ input'.member,
      RunsOver ':' ref.toList id.toList m.toList ref'.toList id'.toList m'.toList ∨
        RunsOver ':' ref'.toList id'.toList m'.toList ref.toList id.toList m.toList

theorem classicRest_teamMember (ref id m : String) :
    classicRest .teamMember ref id (some m) = ref.toList ++ ':' :: id.toList ++
      ':' :: m.toList := by
  simp [classicRest, toList_memberSuffix]

theorem classicRest_of_ne {scope : PolicyScope} (h : scope ≠ .teamMember) (ref id : String)
    (member : Option String) :
    classicRest scope ref id member = ref.toList ++ ':' :: id.toList := by
  simp [classicRest, memberSuffix_of_ne h]

theorem Shape.eq_iff {form form' : String} {rest rest' : List Char} (hid : ':' ∉ id.toList)
    (hid' : ':' ∉ id'.toList) (hne : id ≠ id') (h : Shape p id input form rest)
    (h' : Shape p' id' input' form' rest') :
    (form = form' ∧ rest = rest') ↔ Aliases p id input p' id' input' := by
  have hchars : id.toList ≠ id'.toList := fun h => hne (String.toList_injective h)
  cases h with
  | conditional segments hscope htail =>
    refine iff_of_false ?_ fun hal => by cases hscope.symm.trans hal.1
    rintro ⟨hform, hrest⟩
    cases h' with
    | conditional segments' _ htail' => exact hchars (segment_inj hid hid' htail htail' hrest).1
    | classic scope' => exact scope'.asStr_ne_v2 hform.symm
  | classic scope ref hscope href hmember =>
    cases h' with
    | conditional segments' hscope' _ =>
      refine iff_of_false ?_ fun hal => by cases hscope'.symm.trans hal.2.1
      exact fun heq => scope.asStr_ne_v2 heq.1
    | classic scope' ref' hscope' href' hmember' =>
      by_cases hteam : scope = .teamMember ∧ scope' = .teamMember
      · obtain ⟨rfl, rfl⟩ := hteam
        obtain ⟨m, hm⟩ := Option.isSome_iff_exists.1 (hmember rfl)
        obtain ⟨m', hm'⟩ := Option.isSome_iff_exists.1 (hmember' rfl)
        rw [hm, hm', classicRest_teamMember, classicRest_teamMember, alias_iff hid hid' hchars]
        simp [Aliases, hscope, hscope', href, href', hm, hm']
      · refine iff_of_false ?_ fun hal => hteam ?_
        · rintro ⟨hform, hrest⟩
          obtain rfl := PolicyScope.asStr_injective hform
          have hother : scope ≠ .teamMember := fun h => hteam ⟨h, h⟩
          rw [classicRest_of_ne hother, classicRest_of_ne hother] at hrest
          exact hchars (last_inj hid hid' hrest).2
        · exact ⟨Option.some.inj (hscope.symm.trans hal.1),
            Option.some.inj (hscope'.symm.trans hal.2.1)⟩

/-- Two rows with different ids keep to buckets of their own exactly when they do not alias. -/
theorem keys_disjoint_iff (hvalid : p.validateSemantics host = .ok ())
    (hvalid' : p'.validateSemantics host = .ok ()) (hid : ':' ∉ id.toList) (hid' : ':' ∉ id'.toList)
    (hne : id ≠ id') (hl : matchPolicyLayer host p id input phase = some l)
    (hl' : matchPolicyLayer host p' id' input' phase' = some l') :
    (∀ k ∈ l.keys, k ∉ l'.keys) ↔ ¬ Aliases p id input p' id' input' := by
  obtain ⟨form, rest, hshape, htoken, hspend⟩ := keys_shape hvalid hl
  obtain ⟨form', rest', hshape', htoken', hspend'⟩ := keys_shape hvalid' hl'
  rw [← hshape.eq_iff hid hid' hne hshape']
  constructor
  · rintro hapart ⟨rfl, rfl⟩
    have heq : l.bucketKey = l'.bucketKey := String.toList_injective (htoken.trans htoken'.symm)
    exact hapart _ List.mem_cons_self (heq ▸ List.mem_cons_self)
  · rintro hne k hk hk'
    obtain ⟨tag, htag, hk⟩ := exists_tag_of_mem_keys htoken hspend hk
    obtain ⟨tag', htag', hk'⟩ := exists_tag_of_mem_keys htoken' hspend' hk'
    exact hne (keyText_inj htag htag' hshape.colon_notMem hshape'.colon_notMem
      (hk.symm.trans hk')).2

end Apart

section OnePolicy

variable {host : Externals} {p : RateLimitPolicy} {id : String} {input input' : ConditionInput}
  {phase phase' : PolicyPhase} {l l' : PolicyLayer}

/-- The requests agree on what the row splits its counters by. -/
def SameSplit (p : RateLimitPolicy) (input input' : ConditionInput) : Prop :=
  if p.isConditional then ∀ dim ∈ p.groupBy.getD [], input.getGroupBy dim = input'.getGroupBy dim
  else p.scope = some .teamMember → input.member = input'.member

theorem mem_groupByOrder (dim : GroupByDimension) :
    dim ∈ groupByOrder p ↔ dim ∈ p.groupBy.getD [] :=
  List.mem_insertionSort rankLe

theorem memberSuffix_inj {scope : PolicyScope} {m m' : Option String}
    (h : scope = .teamMember → m.isSome) (h' : scope = .teamMember → m'.isSome) :
    memberSuffix scope m = memberSuffix scope m' ↔ (scope = .teamMember → m = m') := by
  by_cases hteam : scope = .teamMember
  · subst hteam
    obtain ⟨a, rfl⟩ := Option.isSome_iff_exists.1 (h rfl)
    obtain ⟨b, rfl⟩ := Option.isSome_iff_exists.1 (h' rfl)
    rw [← String.toList_inj, toList_memberSuffix, toList_memberSuffix]
    simp [String.toList_inj]
  · simp [memberSuffix_of_ne hteam, hteam]

/-- One policy counts two requests in one bucket exactly when they agree on its split, on the token
side and on the spend side. -/
theorem same_bucket_iff (hvalid : p.validateSemantics host = .ok ())
    (hl : matchPolicyLayer host p id input phase = some l)
    (hl' : matchPolicyLayer host p id input' phase' = some l') :
    (l.bucketKey = l'.bucketKey ↔ SameSplit p input input') ∧
      ∀ s ∈ l.spend, ∀ s' ∈ l'.spend, s.bucketKey = s'.bucketKey ↔ SameSplit p input input' := by
  rcases RateLimitPolicy.forms_of_validate hvalid with ⟨hcond, -⟩ | ⟨hcond, -, -, -⟩
  · obtain ⟨hkey, hspend, hall⟩ := key_conditional hcond hl
    obtain ⟨hkey', -, hall'⟩ := key_conditional hcond hl'
    refine ⟨?_, by simp [hspend]⟩
    rw [← String.toList_inj, hkey, hkey', SameSplit, if_pos hcond]
    simp only [keyText, List.append_cancel_left_eq, List.cons.injEq, true_and,
      segments_inj hall hall', mem_groupByOrder]
  · obtain ⟨scope, ref, hscope, href, happ, hbucket, hspend⟩ := matchPolicyLayer_classic hcond hl
    obtain ⟨scope', ref', hscope', href', happ', hbucket', hspend'⟩ :=
      matchPolicyLayer_classic hcond hl'
    obtain rfl : scope = scope' := Option.some.inj (hscope.symm.trans hscope')
    obtain rfl : ref = ref' := Option.some.inj (href.symm.trans href')
    obtain ⟨htoken, hspent⟩ := keys_classic hbucket hspend
    obtain ⟨htoken', hspent'⟩ := keys_classic hbucket' hspend'
    have hmember : ∀ {i : ConditionInput}, scopeApplies i ref scope = true →
        scope = .teamMember → i.member.isSome := by
      rintro i happ rfl
      simp only [scopeApplies, Bool.and_eq_true] at happ
      exact happ.2
    have hsplit : classicRest scope ref id input.member = classicRest scope ref id input'.member ↔
        SameSplit p input input' := by
      rw [SameSplit, if_neg (by simp [hcond]), hscope, Option.some.injEq,
        ← memberSuffix_inj (hmember happ) (hmember happ'), ← String.toList_inj]
      simp [classicRest]
    have htext : ∀ tag : String,
        keyText tag scope.asStr (classicRest scope ref id input.member) =
            keyText tag scope.asStr (classicRest scope ref id input'.member) ↔
          SameSplit p input input' := fun tag => by
      rw [← hsplit]; simp [keyText]
    refine ⟨?_, fun s hs s' hs' => ?_⟩
    · rw [← String.toList_inj, htoken, htoken']
      exact htext _
    · rw [← String.toList_inj, hspent s hs, hspent' s' hs']
      exact htext _

end OnePolicy

/-- What is asked of the keys that two matches produce: apart for different rows, and shared by two
requests on one row exactly when they agree on its split. -/
structure ToldApart (p : RateLimitPolicy) (id : String) (input : ConditionInput) (l : PolicyLayer)
    (p' : RateLimitPolicy) (id' : String) (input' : ConditionInput) (l' : PolicyLayer) : Prop where
  rows : id ≠ id' → ∀ k ∈ l.keys, k ∉ l'.keys
  token : p = p' → id = id' → (l.bucketKey = l'.bucketKey ↔ SameSplit p input input')
  spend : p = p' → id = id' →
    ∀ s ∈ l.spend, ∀ s' ∈ l'.spend, s.bucketKey = s'.bucketKey ↔ SameSplit p input input'

/-- The keys are told apart exactly when the rows are one or do not alias. -/
theorem bucket_keys_told_apart (host : Externals) (p p' : RateLimitPolicy) (id id' : String)
    (input input' : ConditionInput) (phase phase' : PolicyPhase) (l l' : PolicyLayer)
    (hvalid : p.validateSemantics host = .ok ()) (hvalid' : p'.validateSemantics host = .ok ())
    (hid : ':' ∉ id.toList) (hid' : ':' ∉ id'.toList)
    (hl : matchPolicyLayer host p id input phase = some l)
    (hl' : matchPolicyLayer host p' id' input' phase' = some l') :
    ToldApart p id input l p' id' input' l' ↔ (id ≠ id' → ¬ Aliases p id input p' id' input') := by
  constructor
  · intro h hne
    exact (keys_disjoint_iff hvalid hvalid' hid hid' hne hl hl').1 (h.rows hne)
  · intro h
    refine ⟨fun hne => (keys_disjoint_iff hvalid hvalid' hid hid' hne hl hl').2 (h hne), ?_, ?_⟩
    · rintro rfl rfl
      exact (same_bucket_iff hvalid hl hl').1
    · rintro rfl rfl
      exact (same_bucket_iff hvalid hl hl').2

/-- Two rows on two teams, one of whose ids carries the other's and its row: the two members are
counted in one bucket. -/
theorem bucket_keys_alias :
    let host : Externals :=
      { compiledRegex := fun _ _ => none, compareNumbers := fun _ _ _ => false, debug := id }
    let row (team : String) : RateLimitPolicy :=
      { scope := some .teamMember, scopeRef := some team, window := some .minute,
        maxRequests := some 5 }
    let from_ (team member : String) : ConditionInput :=
      { team := some team, member := some member }
    ∃ l l', (row "t").validateSemantics host = .ok () ∧
      (row "t:a").validateSemantics host = .ok () ∧
      matchPolicyLayer host (row "t") "a" (from_ "t" "b:m") (.request false) = some l ∧
      matchPolicyLayer host (row "t:a") "b" (from_ "t:a" "m") (.request false) = some l' ∧
      l.bucketKey = "policy:team_member:t:a:b:m" ∧
      ¬ ToldApart (row "t") "a" (from_ "t" "b:m") l (row "t:a") "b" (from_ "t:a" "m") l' := by
  intro host row from_
  refine ⟨_, _, rfl, rfl, rfl, rfl, by decide +kernel, fun h => ?_⟩
  exact h.rows (by decide) "policy:team_member:t:a:b:m" (by decide +kernel) (by decide +kernel)

/-- A team's own row and a row split by team and tag, for two members of the team. -/
theorem bucket_keys_told_apart_team :
    let host : Externals :=
      { compiledRegex := fun _ _ => none, compareNumbers := fun _ _ _ => false, debug := id }
    let row : RateLimitPolicy :=
      { scope := some .teamMember, scopeRef := some "t:1", window := some .day,
        maxSpendMicroUsd := some 5 }
    let split : RateLimitPolicy :=
      { groupBy := some [.tag "env", .team], limits := some { rpm := some 5 } }
    let from_ (member : String) : ConditionInput :=
      { team := some "t:1", member := some member, tags := some fun _ => some "a=b" }
    ∃ l l', matchPolicyLayer host row "a" (from_ "m") (.request false) = some l ∧
      matchPolicyLayer host split "b" (from_ "n") (.request false) = some l' ∧
      l'.bucketKey = "policy:v2:b:team=t%3A1:tag:env=a%3Db" ∧
      (ToldApart row "a" (from_ "m") l split "b" (from_ "n") l' ↔
        ("a" ≠ "b" → ¬ Aliases row "a" (from_ "m") split "b" (from_ "n"))) := by
  intro host row split from_
  exact ⟨_, _, rfl,
    rfl, by decide +kernel, bucket_keys_told_apart host row split "a" "b" (from_ "m") (from_ "n")
    (.request false) (.request false) _ _ rfl rfl (by decide) (by decide) rfl rfl⟩

end Policy
end Aisix
