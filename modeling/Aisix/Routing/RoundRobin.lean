import Aisix.KeyMap
import Aisix.Routing.Target
import Aisix.SmoothRobin

/-!
# Aisix.Routing.RoundRobin

The rotations a gateway keeps: one for each virtual model, priority tier and subset of the tier a
request can use.
-/

namespace Aisix
namespace Routing

open SmoothRobin

/-- A virtual model and the priority of one of its tiers. -/
abbrev TierKey := String × Int

structure WrrState where
  /-- Fingerprint of the configured target list. -/
  fingerprint : UInt64
  /-- The counters of each subset of the tier, under the subset's fingerprint. -/
  rotations : KeyMap UInt64 (List Int)

structure RoutingRegistry where
  wrr : KeyMap TierKey WrrState

namespace RoutingRegistry

def new : RoutingRegistry := ⟨∅⟩

def weights (tier : List RoutingTarget) : List Int := tier.map fun t => (t.share : Int)

/-- The state a pick under this configuration starts from: a changed configuration restarts every
rotation. -/
def stateFor (r : RoutingRegistry) (key : TierKey) (configFingerprint : UInt64) : WrrState :=
  let state := (r.wrr.lookup key).getD ⟨configFingerprint, ∅⟩
  if state.fingerprint = configFingerprint then state else ⟨configFingerprint, ∅⟩

def current (state : WrrState) (tier : List RoutingTarget) : List Int :=
  (state.rotations.lookup (tierFingerprint tier)).getD (List.replicate tier.length 0)

def wrrPick (r : RoutingRegistry) (virtualName : String) (priority : Int)
    (configFingerprint : UInt64) (tier : List RoutingTarget) : Nat × RoutingRegistry :=
  let state := r.stateFor (virtualName, priority) configFingerprint
  let (best, counters) := pick (weights tier) (current state tier)
  (best, ⟨r.wrr.insert (virtualName, priority)
    { state with rotations := state.rotations.insert (tierFingerprint tier) counters }⟩)

/-! ### Any picks, in any order -/

/-- One request for a pick. -/
structure Pick where
  virtualName : String
  priority : Int
  configFingerprint : UInt64
  tier : List RoutingTarget

def Pick.key (p : Pick) : TierKey := (p.virtualName, p.priority)

/-- Every pick with its outcome, and the registry left. -/
def run (r : RoutingRegistry) : List Pick → List (Pick × Nat) × RoutingRegistry
  | [] => ([], r)
  | p :: ps =>
    let (best, r) := r.wrrPick p.virtualName p.priority p.configFingerprint p.tier
    let rest := r.run ps
    ((p, best) :: rest.1, rest.2)

/-- The outcomes of the picks for one subset. -/
def own (q : Pick) (log : List (Pick × Nat)) : List Nat :=
  (log.filter fun e => e.1.key = q.key ∧ tierFingerprint e.1.tier = tierFingerprint q.tier).map
    (·.2)

/-- The counters the next such pick starts from. -/
def counters (r : RoutingRegistry) (q : Pick) : List Int :=
  current (r.stateFor q.key q.configFingerprint) q.tier

/-- Another pick of the same model and tier is under the same configuration, and a subset with the
same fingerprint is the same subset. -/
def Compatible (q p : Pick) : Prop :=
  p.key = q.key → p.configFingerprint = q.configFingerprint ∧
    (tierFingerprint p.tier = tierFingerprint q.tier → p.tier = q.tier)

theorem fingerprint_stateFor (r : RoutingRegistry) (key : TierKey) (configFingerprint : UInt64) :
    (r.stateFor key configFingerprint).fingerprint = configFingerprint := by
  simp only [stateFor]
  split
  · next h => exact h
  · rfl

theorem stateFor_wrrPick (r : RoutingRegistry) (p : Pick) (key : TierKey)
    (configFingerprint : UInt64) :
    (r.wrrPick p.virtualName p.priority p.configFingerprint p.tier).2.stateFor key
    configFingerprint =
      if key = p.key then
        if p.configFingerprint = configFingerprint then
          { r.stateFor key configFingerprint with
                      rotations :=
            (r.stateFor key configFingerprint).rotations.insert (tierFingerprint p.tier)
                        (pick (weights p.tier) (r.counters p)).2 }
        else ⟨configFingerprint, ∅⟩
      else r.stateFor key configFingerprint := by
  by_cases hkey : key = p.key
  · rw [if_pos hkey]
    have hstate : (r.stateFor p.key p.configFingerprint).fingerprint = p.configFingerprint :=
      fingerprint_stateFor r _ _
    have hlookup :
        (r.wrrPick p.virtualName p.priority p.configFingerprint p.tier).2.wrr.lookup key =
        some { r.stateFor p.key p.configFingerprint with
          rotations :=
            (r.stateFor p.key p.configFingerprint).rotations.insert (tierFingerprint p.tier)
            (pick (weights p.tier) (r.counters p)).2 } := by
      rw [hkey]
      exact AList.lookup_insert r.wrr
    rw [stateFor, hlookup]
    simp only [Option.getD_some, hstate, hkey]
    split
    · next hconfig => rw [hconfig, fingerprint_stateFor]
    · rfl
  · rw [if_neg hkey]
    have hlookup :
        (r.wrrPick p.virtualName p.priority p.configFingerprint p.tier).2.wrr.lookup key =
        r.wrr.lookup key := AList.lookup_insert_ne hkey
    rw [stateFor, hlookup]
    rfl

theorem counters_wrrPick_own (r : RoutingRegistry) {p q : Pick} (hkey : p.key = q.key)
    (hconfig : p.configFingerprint = q.configFingerprint) (htier : p.tier = q.tier) :
    (r.wrrPick p.virtualName p.priority p.configFingerprint p.tier).2.counters q =
      (pick (weights q.tier) (r.counters q)).2 := by
  have hcounters : r.counters p = r.counters q := by simp only [counters, hkey, hconfig, htier]
  rw [counters, stateFor_wrrPick, if_pos hkey.symm, if_pos hconfig, htier, hcounters, current,
    AList.lookup_insert]
  rfl

theorem counters_wrrPick_other (r : RoutingRegistry) {p q : Pick} (h : Compatible q p)
    (hother : ¬ (p.key = q.key ∧ tierFingerprint p.tier = tierFingerprint q.tier)) :
    (r.wrrPick p.virtualName p.priority p.configFingerprint p.tier).2.counters q =
    r.counters q := by
  rw [counters, stateFor_wrrPick]
  by_cases hkey : q.key = p.key
  · have hfingerprint : tierFingerprint q.tier ≠ tierFingerprint p.tier :=
      fun heq => hother ⟨hkey.symm, heq.symm⟩
    rw [if_pos hkey, if_pos (h hkey.symm).1, current, AList.lookup_insert_ne hfingerprint]
    rfl
  · rw [if_neg hkey]
    rfl

/-- A subset sees the picks its counters alone would make, and leaves the counters they leave. -/
theorem run_own {q : Pick} {ps : List Pick} (h : ∀ p ∈ ps, Compatible q p) (r : RoutingRegistry) :
    drawn (weights q.tier) (own q (r.run ps).1).length (r.counters q) =
      (own q (r.run ps).1, (r.run ps).2.counters q) := by
  induction ps generalizing r with
  | nil => rfl
  | cons p ps ih =>
    have hp := h p (List.mem_cons_self ..)
    have hrest := ih (fun p' hp' => h p' (List.mem_cons_of_mem _ hp'))
      (r.wrrPick p.virtualName p.priority p.configFingerprint p.tier).2
    have hrun : r.run (p :: ps) =
        ((p, (r.wrrPick p.virtualName p.priority p.configFingerprint p.tier).1) ::
            ((r.wrrPick p.virtualName p.priority p.configFingerprint p.tier).2.run ps).1,
          ((r.wrrPick p.virtualName p.priority p.configFingerprint p.tier).2.run ps).2) := rfl
    rw [hrun]
    by_cases hown : p.key = q.key ∧ tierFingerprint p.tier = tierFingerprint q.tier
    · obtain ⟨hkey, hfingerprint⟩ := hown
      obtain ⟨hconfig, htier⟩ := hp hkey
      have htier := htier hfingerprint
      have hcounters : r.counters p = r.counters q := by simp only [counters, hkey, hconfig, htier]
      have hbest : (r.wrrPick p.virtualName p.priority p.configFingerprint p.tier).1 =
          (pick (weights q.tier) (r.counters q)).1 := by
        rw [← hcounters, ← htier]
        rfl
      rw [counters_wrrPick_own r hkey hconfig htier] at hrest
      rw [own, List.filter_cons_of_pos (by simpa using ⟨hkey, hfingerprint⟩), List.map_cons,
        List.length_cons, drawn]
      change ((pick (weights q.tier) (r.counters q)).1 :: (drawn _ (own q _).length _).1,
        (drawn _ (own q _).length _).2) = _
      rw [hrest, hbest]
      rfl
    · rw [counters_wrrPick_other r hp hown] at hrest
      rw [own, List.filter_cons_of_neg (by simpa using hown)]
      exact hrest

/-! ### A fresh rotation -/

/-- The picks in one round of a rotation. -/
def total (tier : List RoutingTarget) : Nat := (tier.map RoutingTarget.share).sum

theorem sum_weights (tier : List RoutingTarget) : (weights tier).sum = (total tier : Int) := by
  induction tier with
  | nil => rfl
  | cons t ts ih =>
    have htotal : total (t :: ts) = t.share + total ts := List.sum_cons ..
    rw [weights, List.map_cons, List.sum_cons, htotal, Nat.cast_add, ← ih]
    rfl

theorem length_weights (tier : List RoutingTarget) : (weights tier).length = tier.length :=
  List.length_map _

theorem one_le_weights (tier : List RoutingTarget) : ∀ w ∈ weights tier, 1 ≤ w := by
  intro w hw
  obtain ⟨t, -, rfl⟩ := List.mem_map.mp hw
  exact_mod_cast t.one_le_share

theorem sum_weights_pos {tier : List RoutingTarget} (hne : tier ≠ []) : 0 < (weights tier).sum :=
  sum_pos (fun hnil => hne (List.map_eq_nil_iff.mp hnil)) (one_le_weights tier)

theorem own_cons_self (q : Pick) (best : Nat) (log : List (Pick × Nat)) :
    own q ((q, best) :: log) = best :: own q log := by
  rw [own, List.filter_cons_of_pos (by simp), List.map_cons]
  rfl

theorem own_run_replicate (r : RoutingRegistry) (q : Pick) (n : Nat) :
    own q (r.run (List.replicate n q)).1 = (r.run (List.replicate n q)).1.map (·.2) ∧
      (own q (r.run (List.replicate n q)).1).length = n := by
  induction n generalizing r with
  | zero => exact ⟨rfl, rfl⟩
  | succ n ih =>
    obtain ⟨hall, hlength⟩ := ih (r.wrrPick q.virtualName q.priority q.configFingerprint q.tier).2
    have hrun : (r.run (List.replicate (n + 1) q)).1 =
        (q, (r.wrrPick q.virtualName q.priority q.configFingerprint q.tier).1) ::
          ((r.wrrPick q.virtualName q.priority q.configFingerprint q.tier).2.run
            (List.replicate n q)).1 := rfl
    rw [hrun, own_cons_self, hall, List.map_cons]
    refine ⟨rfl, ?_⟩
    rw [List.length_cons, ← hall, hlength]

/-- Whatever else is picked between, a subset that starts fresh sees the picks it would see alone:
every window of one round has each target as often as its weight says, the counters sum to zero and
stay above the negated round, and they are at zero after every round. -/
theorem wrrPick_exact (r : RoutingRegistry) (q : Pick) (ps : List Pick) (hne : q.tier ≠ [])
    (hfresh : r.counters q = List.replicate q.tier.length 0) (h : ∀ p ∈ ps, Compatible q p) :
    own q (r.run ps).1 = (r.run (List.replicate (own q (r.run ps).1).length q)).1.map (·.2) ∧
    (∀ k, k + total q.tier ≤ (own q (r.run ps).1).length → ∀ i (hi : i < q.tier.length),
      (((own q (r.run ps).1).drop k).take (total q.tier)).count i = q.tier[i].share) ∧
    ((r.run ps).2.counters q).sum = 0 ∧
    (∀ i < q.tier.length, -(total q.tier : Int) < ((r.run ps).2.counters q).getD i 0) ∧
    (total q.tier ∣ (own q (r.run ps).1).length →
      (r.run ps).2.counters q = List.replicate q.tier.length 0) := by
  have hrun := run_own h r
  have hsum := sum_weights_pos hne
  have hw := one_le_weights q.tier
  have hround : (weights q.tier).sum.toNat = total q.tier := by
    rw [sum_weights]
    rfl
  rw [hfresh, ← length_weights] at hrun
  generalize hown : own q (r.run ps).1 = picks at *
  have hpicks :
      picks =
      (drawn (weights q.tier) picks.length (List.replicate (weights q.tier).length 0)).1 := by
    rw [hrun]
  have hcounters : (r.run ps).2.counters q =
      (drawn (weights q.tier) picks.length (List.replicate (weights q.tier).length 0)).2 := by
    rw [hrun]
  have hbalanced := (balanced_zero hsum).drawn hsum hw picks.length
  rw [← hcounters] at hbalanced
  refine ⟨?_, fun k hk i hi => ?_, hbalanced.sum, fun i hi => ?_, fun hdvd => ?_⟩
  · obtain ⟨hall, hlength⟩ := own_run_replicate r q picks.length
    have hsame : ∀ p ∈ List.replicate picks.length q, Compatible q p := by
      intro p hp
      rw [(List.mem_replicate.mp hp).2]
      exact fun _ => ⟨rfl, fun _ => rfl⟩
    have halone := run_own hsame r
    rw [hlength, hfresh, ← length_weights, hrun] at halone
    rw [← hall]
    exact congrArg Prod.fst halone
  · have hcount := count_window hsum hw (n := picks.length) (k := k) (by rw [hround]; exact hk)
      (j := i) (by rw [length_weights]; exact hi)
    rw [← hpicks, hround, List.getD_eq_getElem _ _ (by rw [length_weights]; exact hi)] at hcount
    simp only [weights, List.getElem_map] at hcount
    exact_mod_cast hcount
  · have hfloor := hbalanced.floor i (by rw [hbalanced.length, length_weights]; exact hi)
    rw [sum_weights] at hfloor
    exact hfloor
  · obtain ⟨rounds, hrounds⟩ := hdvd
    rw [hcounters, hrounds, ← hround, drawn_rounds hsum hw, length_weights]

def weighted (model : String) (weight : UInt32) : RoutingTarget :=
  { RoutingTarget.new model with weight := some weight }

/-- Three targets of one tier. -/
def threeTargets : Pick := ⟨"group", 0, 1, [weighted "a" 5, weighted "b" 1, weighted "c" 1]⟩

/-- The same tier for a caller that cannot use one of them. -/
def twoTargets : Pick := { threeTargets with tier := [weighted "a" 5, weighted "c" 1] }

instance (q p : Pick) : Decidable (Compatible q p) := inferInstanceAs (Decidable (_ → _))

/-- One round of the three, with the two asked for between. -/
theorem wrrPick_exact_threeTargets :
    let ps :=
  [threeTargets, twoTargets, threeTargets, threeTargets, twoTargets, threeTargets, threeTargets,
      threeTargets, twoTargets, threeTargets]
    own threeTargets (new.run ps).1 = [0, 0, 1, 0, 2, 0, 0] ∧
      (new.run ps).2.counters threeTargets = List.replicate 3 0 := by
  have hcompatible :
      ∀ p ∈ [threeTargets, twoTargets, threeTargets, threeTargets, twoTargets,
      threeTargets, threeTargets, threeTargets, twoTargets, threeTargets],
      Compatible threeTargets p := by decide +kernel
  refine ⟨by decide +kernel, ?_⟩
  exact (wrrPick_exact new threeTargets _ (by decide) (by decide +kernel) hcompatible).2.2.2.2
    (by decide +kernel)

end RoutingRegistry
end Routing
end Aisix
