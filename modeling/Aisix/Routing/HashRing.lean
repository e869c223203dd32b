import Aisix.CircularWalk
import Aisix.Routing.Target
import Mathlib.Data.List.Sort
import Mathlib.Data.Prod.Lex

/-!
# Aisix.Routing.HashRing

The consistent-hash ring of one tier, and the order in which a key prefers the targets.
-/

namespace Aisix
namespace Routing

open CircularWalk

def RING_POINTS_PER_UNIT : Nat := 160

def RING_MAX_UNITS : Nat := 64

/-- How the weights of a configured tier become ring units. -/
structure RingScale where
  gcd : Nat
  sum : Nat

namespace RingScale

def of (configuredTier : List RoutingTarget) : RingScale :=
  let weights := configuredTier.map RoutingTarget.share
  let gcd := max (weights.foldl Nat.gcd 0) 1
  ⟨gcd, (weights.map (· / gcd)).sum⟩

def units (scale : RingScale) (weight : Nat) : Nat :=
  let units := max (max weight 1 / scale.gcd) 1
  if RING_MAX_UNITS < scale.sum then max (units * RING_MAX_UNITS / scale.sum) 1 else units

theorem units_pos (scale : RingScale) (weight : Nat) : 0 < scale.units weight := by
  simp only [units]
  split <;> omega

end RingScale

/-- A point of a ring: its place on the circle, and the number of the target that owns it. -/
abbrev Point := Nat ×ₗ Nat

structure HashRing where
  points : List Point

namespace HashRing

/-- Where the points of a model lie. -/
def placeOf (model : String) (i : Nat) : Nat :=
  let h := fnv1aExtend FNV_OFFSET_BASIS (asBytes model)
  let h := fnv1aExtend h [0]
  let h := fnv1aExtend h (toLeBytes (UInt32.ofNat i))
  (mix64 h).toNat

/-- The places a target owns. -/
def places (scale : RingScale) (t : RoutingTarget) : List Nat :=
  (List.range (scale.units t.weightOrDefault.toNat * RING_POINTS_PER_UNIT)).map (placeOf t.model)

def build (targets : List RoutingTarget) (scale : RingScale) : HashRing :=
  ⟨(targets.zipIdx.flatMap fun e => (places scale e.1).map fun h => toLex (h, e.2)).insertionSort
    (· ≤ ·)⟩

/-- The walk round the ring: it stops when every target was met. -/
def walk (ring : HashRing) (start nTargets : Nat) :
    List Nat → List Bool → List Nat → List Nat ⊕ List Bool × List Nat
  | [], seen, order => .inr (seen, order)
  | off :: offs, seen, order =>
    let idx := (ofLex (ring.points.getD ((start + off) % ring.points.length) (toLex (0, 0)))).2
    if seen.getD idx false then walk ring start nTargets offs seen order
    else
      let seen := seen.set idx true
      let order := order ++ [idx]
      if order.length = nTargets then .inl order else walk ring start nTargets offs seen order

def preferenceOrder (ring : HashRing) (keyHash nTargets : Nat) : List Nat :=
  let start := (ring.points.takeWhile fun p => (ofLex p).1 < keyHash).length
  match walk ring start nTargets (List.range ring.points.length)
    (List.replicate nTargets false) [] with
  | .inl order => order
  | .inr (seen, order) => order ++ (List.range nTargets).filter fun i => !seen.getD i false

/-- The order in which a key prefers the targets of a list, by name. -/
def preferred (targets : List RoutingTarget) (scale : RingScale) (keyHash : Nat) : List String :=
  ((build targets scale).preferenceOrder keyHash targets.length).filterMap fun idx =>
    (targets[idx]?).map (·.model)

/-! ### The walk -/

/-- The target met so many points behind the start. -/
def targetAt (ring : HashRing) (start off : Nat) : Nat :=
  (ofLex (ring.points.getD ((start + off) % ring.points.length) (toLex (0, 0)))).2

theorem mem_of_length_eq {order : List Nat} {n : Nat} (hnodup : order.Nodup)
    (hbound : ∀ i ∈ order, i < n)
    (hlength : order.length = n) {i : Nat} (hi : i < n) : i ∈ order := by
  have hsub : order ⊆ List.range n := fun j hj => List.mem_range.mpr (hbound j hj)
  have hperm : order.Perm (List.range n) :=
    (List.subperm_of_subset hnodup hsub).perm_of_length_le (by rw [List.length_range, hlength])
  exact hperm.mem_iff.mpr (List.mem_range.mpr hi)

/-- What the walk and what is left at its end make together. -/
def finished (nTargets : Nat) : List Nat ⊕ List Bool × List Nat → List Nat
  | .inl order => order
  | .inr (seen, order) => order ++ (List.range nTargets).filter fun i => !seen.getD i false

theorem finished_walk {ring : HashRing} {start n : Nat} {offs order : List Nat} {seen : List Bool}
    (hseen : ∀ i < n, seen.getD i false = true ↔ i ∈ order) (hlength : seen.length = n)
    (hnodup : order.Nodup) (hbound : ∀ i ∈ order, i < n)
    (hoffs : ∀ off ∈ offs, ring.targetAt start off < n)
    (hall : ∀ i < n, i ∈ order ∨ i ∈ offs.map (ring.targetAt start)) :
    finished n (walk ring start n offs seen order) =
      firstsFrom order (offs.map (ring.targetAt start)) := by
  induction offs generalizing order seen with
  | nil =>
    have hnone : (List.range n).filter (fun i => !seen.getD i false) = [] := by
      refine List.filter_eq_nil_iff.mpr fun i hi => ?_
      have hin := (hall i (List.mem_range.mp hi)).resolve_right (by simp)
      rw [(hseen i (List.mem_range.mp hi)).mpr hin]
      exact Bool.false_ne_true
    rw [walk, finished, hnone, List.append_nil]
    rfl
  | cons off offs ih =>
    have hoff := hoffs off (List.mem_cons_self ..)
    have hrest : ∀ o ∈ offs, ring.targetAt start o < n :=
      fun o ho => hoffs o (List.mem_cons_of_mem _ ho)
    have hwalk : walk ring start n (off :: offs) seen order =
        if seen.getD (ring.targetAt start off) false then walk ring start n offs seen order
        else if (order ++ [ring.targetAt start off]).length = n
          then .inl (order ++ [ring.targetAt start off])
        else walk ring start n offs (seen.set (ring.targetAt start off) true)
          (order ++ [ring.targetAt start off]) :=
      rfl
    rw [List.map_cons] at hall
    rw [hwalk, List.map_cons, firstsFrom]
    generalize ring.targetAt start off = idx at *
    by_cases hidx : idx ∈ order
    · rw [if_pos ((hseen idx hoff).mpr hidx), if_pos hidx]
      refine ih hseen hlength hnodup hbound hrest fun i hi => ?_
      rcases hall i hi with h | h
      · exact .inl h
      · rcases List.mem_cons.mp h with rfl | h
        · exact .inl hidx
        · exact .inr h
    · have hnodup' : (order ++ [idx]).Nodup := by
        rw [← List.concat_eq_append]
        exact hnodup.concat hidx
      have hbound' : ∀ i ∈ order ++ [idx], i < n := by
        intro i hi
        rcases List.mem_append.mp hi with hi | hi
        · exact hbound i hi
        · rw [List.mem_singleton.mp hi]
          exact hoff
      rw [if_neg (mt (hseen idx hoff).mp hidx), if_neg hidx]
      split
      · next hfull =>
        refine (firstsFrom_of_subset fun i hi => ?_).symm
        obtain ⟨o, ho, rfl⟩ := List.mem_map.mp hi
        exact mem_of_length_eq hnodup' hbound' hfull (hrest o ho)
      · refine ih (fun i hi => ?_) (by rw [List.length_set, hlength]) hnodup' hbound'
          hrest fun i hi => ?_
        · rw [List.getD_eq_getElem?_getD, List.getElem?_set, List.mem_append, List.mem_singleton]
          by_cases heq : idx = i
          · rw [if_pos heq, if_pos (by omega)]
            simp [heq]
          · rw [if_neg heq, ← List.getD_eq_getElem?_getD, hseen i hi]
            exact ⟨.inl, fun h => h.resolve_right fun h' => heq h'.symm⟩
        · rcases hall i hi with h | h
          · exact .inl (List.mem_append_left _ h)
          · rcases List.mem_cons.mp h with rfl | h
            · exact .inl (by simp)
            · exact .inr h

/-- The targets as they are met from a key on. -/
def met (ring : HashRing) (keyHash : Nat) : List Nat :=
  (around (fun p : Point => (ofLex p).1 < keyHash) ring.points).map fun p => (ofLex p).2

theorem preferenceOrder_eq {ring : HashRing} {keyHash n : Nat}
    (hbound : ∀ p ∈ ring.points, (ofLex p).2 < n)
    (hall : ∀ i < n, ∃ p ∈ ring.points, (ofLex p).2 = i) :
    ring.preferenceOrder keyHash n = firsts (ring.met keyHash) := by
  let start := (ring.points.takeWhile fun p => (ofLex p).1 < keyHash).length
  have hmet : ring.met keyHash = (List.range ring.points.length).map (ring.targetAt start) := by
    rw [met, around_eq_rotate, rotate_eq_map_range _ _ (toLex (0, 0)), List.map_map]
    rfl
  have hmem : ∀ i, i ∈ ring.met keyHash ↔ ∃ p ∈ ring.points, (ofLex p).2 = i := by
    intro i
    rw [met, around_eq_rotate, List.mem_map]
    simp only [List.mem_rotate]
  have hpreference : ring.preferenceOrder keyHash n =
      finished n
        (walk ring start n (List.range ring.points.length) (List.replicate n false) []) := by
    simp only [preferenceOrder]
    rfl
  rw [hpreference, finished_walk, hmet]
  · rfl
  · intro i hi
    simp [List.getD_eq_getElem?_getD, hi]
  · exact List.length_replicate
  · exact List.nodup_nil
  · intro i hi
    cases hi
  · intro off hoff
    have hin : ring.targetAt start off ∈ ring.met keyHash := by
      rw [hmet]
      exact List.mem_map_of_mem hoff
    obtain ⟨p, hp, hidx⟩ := (hmem _).mp hin
    rw [← hidx]
    exact hbound p hp
  · intro i hi
    rw [← hmet]
    exact .inr ((hmem i).mpr (hall i hi))

/-! ### The targets by name -/

variable {scale : RingScale} {targets : List RoutingTarget}

def nameAt (targets : List RoutingTarget) (idx : Nat) : String :=
  ((targets[idx]?).map (·.model)).getD ""

/-- The points of a target, under its name. -/
def owned (scale : RingScale) (t : RoutingTarget) : List (Nat × String) :=
  (places scale t).map fun h => (h, t.model)

/-- The points of a ring under the names of their targets. -/
def named (targets : List RoutingTarget) (scale : RingScale) : List (Nat × String) :=
  (build targets scale).points.map fun p => ((ofLex p).1, nameAt targets (ofLex p).2)

theorem build_perm (targets : List RoutingTarget) (scale : RingScale) :
    (build targets scale).points.Perm
      (targets.zipIdx.flatMap fun e => (places scale e.1).map fun h => toLex (h, e.2)) :=
  List.perm_insertionSort _ _

theorem mem_build {p : Point} : p ∈ (build targets scale).points ↔
    ∃ t, targets[(ofLex p).2]? = some t ∧ (ofLex p).1 ∈ places scale t := by
  rw [(build_perm targets scale).mem_iff, List.mem_flatMap]
  constructor
  · rintro ⟨⟨t, i⟩, hmem, hp⟩
    obtain ⟨h, hh, rfl⟩ := List.mem_map.mp hp
    exact ⟨t, List.mk_mem_zipIdx_iff_getElem?.mp hmem, hh⟩
  · rintro ⟨t, ht, hplace⟩
    exact ⟨(t, (ofLex p).2), List.mk_mem_zipIdx_iff_getElem?.mpr ht,
      List.mem_map.mpr ⟨_, hplace, rfl⟩⟩

theorem named_perm (targets : List RoutingTarget) (scale : RingScale) :
    (named targets scale).Perm (targets.flatMap (owned scale)) := by
  refine ((build_perm targets scale).map _).trans (List.Perm.of_eq ?_)
  have hnamed : ∀ e ∈ targets.zipIdx, ((places scale e.1).map fun h => (toLex (h, e.2) : Point)).map
      (fun p => ((ofLex p).1, nameAt targets (ofLex p).2)) = owned scale e.1 := by
    intro e he
    have ht : targets[e.2]? = some e.1 := List.mem_zipIdx_iff_getElem?.mp he
    rw [List.map_map, owned]
    refine List.map_congr_left fun h _ => ?_
    simp [nameAt, ht]
  rw [List.map_flatMap, List.flatMap_congr hnamed]
  conv_rhs => rw [← List.zipIdx_map_fst 0 targets]
  rw [List.flatMap_map]

/-- A target takes the place in the order of ties that its name has in the list. -/
def Before (names : List String) (a b : Nat × String) : Prop :=
  a.1 < b.1 ∨ a.1 = b.1 ∧ names.idxOf a.2 ≤ names.idxOf b.2

theorem nameAt_eq {i : Nat} (hi : i < (targets.map (·.model)).length) :
    nameAt targets i = (targets.map (·.model))[i] := by
  rw [List.length_map] at hi
  simp [nameAt, hi]

theorem named_pairwise {names : List String}
    (horder : ∀ i j, i ≤ j → j < targets.length →
      names.idxOf (nameAt targets i) ≤ names.idxOf (nameAt targets j)) :
    (named targets scale).Pairwise (Before names) := by
  have hsorted : (build targets scale).points.Pairwise (· ≤ ·) := List.pairwise_insertionSort _ _
  refine List.pairwise_map.mpr (hsorted.imp_of_mem fun {p q} _ hq hle => ?_)
  obtain ⟨t, ht, -⟩ := mem_build.mp hq
  have hbound : (ofLex q).2 < targets.length := (List.getElem?_eq_some_iff.mp ht).1
  rcases Prod.Lex.le_iff.mp hle with hlt | ⟨heq, hidx⟩
  · exact .inl hlt
  · exact .inr ⟨heq, horder _ _ hidx hbound⟩

/-- In a list without repetition, places grow along it and along every list taken out of it. -/
theorem idxOf_pairwise {names some : List String} (hnodup : names.Nodup)
    (hsub : some.Sublist names) : some.Pairwise fun a b => names.idxOf a < names.idxOf b := by
  refine List.Pairwise.sublist hsub (List.pairwise_iff_getElem.mpr fun i j hi hj hij => ?_)
  rw [hnodup.idxOf_getElem i hi, hnodup.idxOf_getElem j hj]
  exact hij

theorem idxOf_nameAt_le {tier : List RoutingTarget} (hnodup : (tier.map (·.model)).Nodup)
    (hsub : targets.Sublist tier) {i j : Nat} (hij : i ≤ j) (hj : j < targets.length) :
    (tier.map (·.model)).idxOf (nameAt targets i) ≤ (tier.map (·.model)).idxOf
    (nameAt targets j) := by
  rcases Nat.eq_or_lt_of_le hij with rfl | hlt
  · exact Nat.le_refl _
  · rw [← List.length_map (f := (·.model))] at hj
    rw [nameAt_eq (Nat.lt_trans hlt hj), nameAt_eq hj]
    exact Nat.le_of_lt
      (List.pairwise_iff_getElem.mp (idxOf_pairwise hnodup (hsub.map _)) i j _ _ hlt)

theorem filter_mem_of_sublist {tier : List RoutingTarget} (hnodup : (tier.map (·.model)).Nodup)
    (hsub : targets.Sublist tier) :
    tier.filter (fun t => t.model ∈ targets.map (·.model)) = targets := by
  induction hsub with
  | slnil => rfl
  | @cons targets tier t hsub ih =>
    rw [List.map_cons, List.nodup_cons] at hnodup
    have hout : t.model ∉ targets.map (·.model) := fun h => hnodup.1 ((hsub.map _).subset h)
    rw [List.filter_cons_of_neg (by simpa using hout), ih hnodup.2]
  | @cons_cons targets tier t hsub ih =>
    rw [List.map_cons, List.nodup_cons] at hnodup
    rw [List.filter_cons_of_pos (by simp)]
    congr 1
    refine Eq.trans (List.filter_congr fun t' ht' => ?_) (ih hnodup.2)
    have hne : t'.model ≠ t.model := fun h => hnodup.1 (h ▸ List.mem_map_of_mem ht')
    simp [hne]

theorem filter_owned (scale : RingScale) (keep : String → Bool) (tier : List RoutingTarget) :
    (tier.flatMap (owned scale)).filter (fun p => keep p.2) =
    (tier.filter fun t => keep t.model).flatMap (owned scale) := by
  induction tier with
  | nil => rfl
  | cons t ts ih =>
    rw [List.flatMap_cons, List.filter_append, ih]
    cases hkeep : keep t.model with
    | true =>
      have hall : (owned scale t).filter (fun p => keep p.2) = owned scale t := by
        refine List.filter_eq_self.mpr fun p hp => ?_
        obtain ⟨h, -, rfl⟩ := List.mem_map.mp hp
        exact hkeep
      rw [hall, List.filter_cons, if_pos hkeep, List.flatMap_cons]
    | false =>
      have hnone : (owned scale t).filter (fun p => keep p.2) = [] := by
        refine List.filter_eq_nil_iff.mpr fun p hp => ?_
        obtain ⟨h, -, rfl⟩ := List.mem_map.mp hp
        rw [hkeep]
        exact Bool.false_ne_true
      rw [hnone, List.filter_cons, if_neg (by rw [hkeep]; exact Bool.false_ne_true),
        List.nil_append]

/-- A ring of some of the targets has their points and no others, in the same order. -/
theorem named_sublist {tier : List RoutingTarget} (hnodup : (tier.map (·.model)).Nodup)
    (hsub : targets.Sublist tier) :
    named targets scale = (named tier scale).filter fun p => p.2 ∈ targets.map (·.model) := by
  have hin : ∀ b ∈ (named tier scale).filter (fun p => p.2 ∈ targets.map (·.model)),
      b.2 ∈ tier.map (·.model) := by
    intro b hb
    have hmem : b.2 ∈ targets.map (·.model) := by simpa using (List.mem_filter.mp hb).2
    exact (hsub.map _).subset hmem
  have hantisymm : ∀ a b, a ∈ named targets scale →
      b ∈ (named tier scale).filter (fun p => p.2 ∈ targets.map (·.model)) →
      Before (tier.map (·.model)) a b → Before (tier.map (·.model)) b a → a = b := by
    intro a b _ hb hab hba
    have hboth : a.1 = b.1 ∧ (tier.map (·.model)).idxOf b.2 = (tier.map (·.model)).idxOf a.2 := by
      unfold Before at hab hba
      omega
    exact Prod.ext hboth.1 ((List.idxOf_inj (hin b hb)).mp hboth.2).symm
  have hleft : (named targets scale).Pairwise (Before (tier.map (·.model))) :=
    named_pairwise fun i j hij hj => idxOf_nameAt_le hnodup hsub hij hj
  have hright : (named tier scale).Pairwise (Before (tier.map (·.model))) :=
    named_pairwise fun i j hij hj => idxOf_nameAt_le hnodup (List.Sublist.refl tier) hij hj
  have hfilter : (tier.flatMap (owned scale)).filter (fun p => p.2 ∈ targets.map (·.model)) =
      targets.flatMap (owned scale) := by
    have hkept := filter_owned scale (fun name => name ∈ targets.map (·.model)) tier
    rw [filter_mem_of_sublist hnodup hsub] at hkept
    exact hkept
  have hperm :
      (named targets scale).Perm
      ((named tier scale).filter fun p => p.2 ∈ targets.map (·.model)) := by
    refine (named_perm targets scale).trans ?_
    rw [← hfilter]
    exact ((named_perm tier scale).filter _).symm
  exact List.Perm.eq_of_pairwise hantisymm hleft (hright.filter _) hperm

/-! ### The preference by name -/

theorem exists_point {i : Nat} (hi : i < targets.length) :
    ∃ p ∈ (build targets scale).points, (ofLex p).2 = i := by
  have hplaces : placeOf targets[i].model 0 ∈ places scale targets[i] := by
    refine List.mem_map_of_mem (List.mem_range.mpr ?_)
    exact Nat.mul_pos (scale.units_pos _) (by decide)
  exact ⟨toLex (_, i), mem_build.mpr ⟨targets[i], List.getElem?_eq_getElem hi, hplaces⟩, rfl⟩

theorem lt_of_mem_build {p : Point} (h : p ∈ (build targets scale).points) :
    (ofLex p).2 < targets.length := by
  obtain ⟨t, ht, -⟩ := mem_build.mp h
  exact (List.getElem?_eq_some_iff.mp ht).1

theorem mem_met {keyHash i : Nat} (h : i ∈ (build targets scale).met keyHash) :
    i < targets.length := by
  rw [met, around_eq_rotate, List.mem_map] at h
  obtain ⟨p, hp, rfl⟩ := h
  exact lt_of_mem_build (List.mem_rotate.mp hp)

theorem preferred_eq (hnodup : (targets.map (·.model)).Nodup) (keyHash : Nat) :
    preferred targets scale keyHash =
      firsts ((around (fun p => p.1 < keyHash) (named targets scale)).map (·.2)) := by
  have hfirsts : (build targets scale).preferenceOrder keyHash targets.length =
      firsts ((build targets scale).met keyHash) :=
    preferenceOrder_eq (fun _ hp => lt_of_mem_build hp) fun _ hi => exists_point hi
  have hmem : ∀ i ∈ firsts ((build targets scale).met keyHash), i < targets.length := fun i hi =>
    mem_met ((mem_firstsFrom.mp hi).resolve_left (by simp))
  have hmap :
      (firsts ((build targets scale).met keyHash)).filterMap
      (fun idx => (targets[idx]?).map (·.model)) = (firsts ((build targets scale).met keyHash)).map
      (nameAt targets) := by
    rw [← List.filterMap_eq_map]
    refine List.filterMap_congr fun i hi => ?_
    simp [nameAt, hmem i hi]
  have hinj : ∀ i ∈ [] ++ (build targets scale).met keyHash,
      ∀ j ∈ [] ++ (build targets scale).met keyHash, nameAt targets i = nameAt targets j →
      i = j := by
    intro i hi j hj heq
    have hi' : i < (targets.map (·.model)).length := by
      rw [List.length_map]
      exact mem_met hi
    have hj' : j < (targets.map (·.model)).length := by
      rw [List.length_map]
      exact mem_met hj
    rw [nameAt_eq hi', nameAt_eq hj'] at heq
    exact (hnodup.getElem_inj_iff).mp heq
  have hnamed : around (fun p : Nat × String => decide (p.1 < keyHash)) (named targets scale) =
      (around (fun p : Point => decide ((ofLex p).1 < keyHash)) (build targets scale).points).map
        fun p => ((ofLex p).1, nameAt targets (ofLex p).2) := around_map _ _
  rw [preferred, hfirsts, hmap, firsts, firstsFrom_map hinj, hnamed, met,
    List.map_map, List.map_map]
  rfl

/-- Leaving targets out of a tier leaves every key's order of the others as it is, whatever points
coincide; and the order has each target once. -/
theorem preferred_of_sublist (tier targets : List RoutingTarget) (keyHash : Nat)
    (hnodup : (tier.map (·.model)).Nodup) (hsub : targets.Sublist tier) :
    preferred targets (RingScale.of tier) keyHash =
      (preferred tier (RingScale.of tier) keyHash).filter
      (fun name => name ∈ targets.map (·.model)) ∧
    (preferred targets (RingScale.of tier) keyHash).Perm (targets.map (·.model)) := by
  have hnodup' : (targets.map (·.model)).Nodup := hnodup.sublist (hsub.map _)
  constructor
  · have hparted :
        Parted (fun p : Nat × String => decide (p.1 < keyHash))
        (named tier (RingScale.of tier)) := by
      have horder : (named tier (RingScale.of tier)).Pairwise (Before (tier.map (·.model))) :=
        named_pairwise fun i j hij hj => idxOf_nameAt_le hnodup (List.Sublist.refl tier) hij hj
      refine horder.imp fun {a b} hab hb => ?_
      unfold Before at hab
      have hlt : b.1 < keyHash := of_decide_eq_true hb
      exact decide_eq_true (by omega)
    rw [preferred_eq hnodup', preferred_eq hnodup, named_sublist hnodup hsub,
      ← around_filter hparted, firsts_filter, List.filter_map]
    rfl
  · have hfirsts : preferred targets (RingScale.of tier) keyHash =
        firsts ((around (fun p => p.1 < keyHash) (named targets (RingScale.of tier))).map (·.2)) :=
      preferred_eq hnodup' keyHash
    have hpreferredNodup : (preferred targets (RingScale.of tier) keyHash).Nodup := by
      rw [hfirsts]
      exact nodup_firstsFrom List.nodup_nil
    refine (List.perm_ext_iff_of_nodup hpreferredNodup hnodup').mpr fun name => ?_
    rw [hfirsts, firsts, mem_firstsFrom, around_eq_rotate]
    simp only [List.not_mem_nil, false_or, List.mem_map, List.mem_rotate, named]
    constructor
    · rintro ⟨_, ⟨p, hp, rfl⟩, rfl⟩
      have hlt := lt_of_mem_build hp
      refine ⟨targets[(ofLex p).2], List.getElem_mem _, ?_⟩
      simp [nameAt, hlt]
    · rintro ⟨t, ht, rfl⟩
      obtain ⟨i, hi, rfl⟩ := List.mem_iff_getElem.mp ht
      obtain ⟨p, hp, hidx⟩ : ∃ p ∈ (build targets (RingScale.of tier)).points, (ofLex p).2 = i :=
        exists_point hi
      refine ⟨_, ⟨p, hp, rfl⟩, ?_⟩
      simp [hidx, nameAt, hi]

/-- Three targets of which the first has twice the weight of the others. -/
def heavyFirst : List RoutingTarget :=
  [{ RoutingTarget.new "a" with weight := some 2 }, .new "b", .new "c"]

/-- With the second of three targets left out, a key keeps its order of the other two. -/
theorem preferred_of_sublist_heavyFirst :
    preferred [heavyFirst[0], heavyFirst[2]] (RingScale.of heavyFirst) 7 =
      (preferred heavyFirst (RingScale.of heavyFirst) 7).filter (fun name => name ∈ ["a", "c"]) ∧
    (preferred [heavyFirst[0], heavyFirst[2]] (RingScale.of heavyFirst) 7).Perm ["a", "c"] :=
  preferred_of_sublist heavyFirst [heavyFirst[0], heavyFirst[2]] 7 (by decide) (by decide)

end HashRing
end Routing
end Aisix
