import Mathlib.Algebra.Order.Ring.Nat

/-!
# Aisix.WindowScan.Policy

How a chain of guardrails wants streamed output moderated: the strictest of its members' policies.
-/

namespace Aisix
namespace WindowScan

inductive StreamOutputPolicy where
  | endOfStreamCheck
  | window (sizeChars overlapChars maxBufferBytes : Nat) (onExceededFailOpen : Bool)
  | bufferFull (maxBufferBytes : Nat) (onExceededFailOpen : Bool)
  deriving DecidableEq, Repr

def USIZE_MAX : Nat := 2 ^ 64 - 1

namespace StreamOutputPolicy

def holdsBack : StreamOutputPolicy → Bool
  | endOfStreamCheck => false
  | _ => true

/-- The cap on what is held, and whether to release what outgrows it. -/
def holdCap : StreamOutputPolicy → Option (Nat × Bool)
  | endOfStreamCheck => none
  | window _ _ cap failOpen => some (cap, failOpen)
  | bufferFull cap failOpen => some (cap, failOpen)

/-- The smaller cap, and fail-closed unless both fail open. -/
def withCapOf (self other : StreamOutputPolicy) : StreamOutputPolicy :=
  match other.holdCap with
  | none => self
  | some (capB, openB) =>
    match self with
    | endOfStreamCheck => endOfStreamCheck
    | window size overlap cap failOpen => window size overlap (min cap capB) (failOpen && openB)
    | bufferFull cap failOpen => bufferFull (min cap capB) (failOpen && openB)

def rank : StreamOutputPolicy → Nat
  | endOfStreamCheck => 0
  | window .. => 1
  | bufferFull .. => 2

/-- The stricter of two policies. Two windows fold to the smaller window and the greater overlap. -/
def stricter (self other : StreamOutputPolicy) : StreamOutputPolicy :=
  if self.rank < other.rank then other
  else if other.rank < self.rank then self
  else
    let winner :=
      match self, other with
      | window a oa _ _, window b ob _ _ => window (min a b) (max oa ob) USIZE_MAX true
      | _, _ => self
    (winner.withCapOf self).withCapOf other

end StreamOutputPolicy

structure Member where
  runsOnOutput : Bool
  policy : StreamOutputPolicy
  deriving DecidableEq

/-- The policy of a chain: only members that read the output count. -/
def streamOutputPolicy (members : List Member) : StreamOutputPolicy :=
  ((members.filter (·.runsOnOutput)).map (·.policy)).foldl .stricter .endOfStreamCheck

namespace StreamOutputPolicy

/-- `q` holds back less than the window of `size` and `overlap`, or is a window it covers. -/
def Within (size overlap : Nat) : StreamOutputPolicy → Prop
  | endOfStreamCheck => True
  | window size' overlap' _ _ => size ≤ size' ∧ overlap' ≤ overlap
  | bufferFull .. => False

theorem withCapOf_window (p : StreamOutputPolicy) (size overlap cap : Nat) (failOpen : Bool) :
    ∃ cap' failOpen', withCapOf (window size overlap cap failOpen) p =
      window size overlap cap' failOpen' := by
  unfold withCapOf
  cases p.holdCap with
  | none => exact ⟨cap, failOpen, rfl⟩
  | some c => exact ⟨_, _, rfl⟩

theorem within_of_stricter {p q : StreamOutputPolicy} {size overlap cap : Nat} {failOpen : Bool}
    (h : p.stricter q = window size overlap cap failOpen) :
    p.Within size overlap ∧ q.Within size overlap := by
  cases p with
  | endOfStreamCheck =>
    cases q with
    | endOfStreamCheck => exact ⟨trivial, trivial⟩
    | window size' overlap' cap' failOpen' =>
      cases h
      exact ⟨trivial, Nat.le_refl _, Nat.le_refl _⟩
    | bufferFull => cases h
  | window size' overlap' cap' failOpen' =>
    cases q with
    | endOfStreamCheck =>
      cases h
      exact ⟨⟨Nat.le_refl _, Nat.le_refl _⟩, trivial⟩
    | window size'' overlap'' cap'' failOpen'' =>
      simp only [stricter, rank, Nat.lt_irrefl, if_false] at h
      obtain ⟨c, o, hfirst⟩ := withCapOf_window (window size' overlap' cap' failOpen')
        (min size' size'') (max overlap' overlap'') USIZE_MAX true
      rw [hfirst] at h
      cases h
      exact ⟨⟨Nat.min_le_left _ _, Nat.le_max_left _ _⟩,
        ⟨Nat.min_le_right _ _, Nat.le_max_right _ _⟩⟩
    | bufferFull => cases h
  | bufferFull =>
    cases q with
    | endOfStreamCheck => cases h
    | window => cases h
    | bufferFull =>
      simp only [stricter, rank, Nat.lt_irrefl, if_false] at h
      cases h

theorem Within.trans {p : StreamOutputPolicy} {size overlap size' overlap' cap : Nat}
    {failOpen : Bool} (h : p.Within size overlap)
    (h' : (window size overlap cap failOpen).Within size' overlap') :
    p.Within size' overlap' := by
  cases p with
  | endOfStreamCheck => trivial
  | window => exact ⟨Nat.le_trans h'.1 h.1, Nat.le_trans h.2 h'.2⟩
  | bufferFull => exact h.elim

theorem within_foldl {policies : List StreamOutputPolicy} {acc : StreamOutputPolicy}
    {size overlap cap : Nat} {failOpen : Bool}
    (h : policies.foldl stricter acc = window size overlap cap failOpen) :
    acc.Within size overlap ∧ ∀ p ∈ policies, p.Within size overlap := by
  induction policies generalizing acc with
  | nil =>
    cases h
    exact ⟨⟨Nat.le_refl _, Nat.le_refl _⟩, fun _ hp => nomatch hp⟩
  | cons q qs ih =>
    obtain ⟨hacc, hrest⟩ := ih h
    have hboth : acc.Within size overlap ∧ q.Within size overlap := by
      cases hstep : acc.stricter q with
      | endOfStreamCheck =>
        unfold stricter at hstep
        cases acc <;> cases q <;> simp_all [rank, withCapOf, holdCap, Within]
      | window size' overlap' cap' failOpen' =>
        rw [hstep] at hacc
        obtain ⟨hp, hq⟩ := within_of_stricter hstep
        exact ⟨hp.trans hacc, hq.trans hacc⟩
      | bufferFull =>
        rw [hstep] at hacc
        exact hacc.elim
    refine ⟨hboth.1, fun p hp => ?_⟩
    rcases List.mem_cons.mp hp with rfl | hp
    · exact hboth.2
    · exact hrest p hp

end StreamOutputPolicy

/-- Every window of the chain is at least the folded one, and its overlap at most the folded one. -/
theorem within_streamOutputPolicy {members : List Member} {size overlap cap : Nat} {failOpen : Bool}
    (h : streamOutputPolicy members = .window size overlap cap failOpen) {m : Member}
    (hm : m ∈ members) (hout : m.runsOnOutput = true) : m.policy.Within size overlap :=
  (StreamOutputPolicy.within_foldl h).2 _
    (List.mem_map.mpr ⟨m, List.mem_filter.mpr ⟨hm, hout⟩, rfl⟩)

end WindowScan
end Aisix
