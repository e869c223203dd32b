import Aisix.WindowScan.Policy
import Mathlib.Order.Lattice
import Mathlib.Order.BoundedOrder.Basic

/-!
# Aisix.WindowScan.Strictest

Folding streaming policies with `stricter`. On policies whose cap is a `usize` it is the join of a
semilattice, so that neither order nor grouping counts (`strictest_of_grouping`), and what comes of
it is described by its members.
-/

namespace Aisix
namespace WindowScan
namespace StreamOutputPolicy

/-- The cap is one a `usize` can hold. -/
def Sized (p : StreamOutputPolicy) : Prop :=
  ∀ cap failOpen, p.holdCap = some (cap, failOpen) → cap ≤ USIZE_MAX

theorem sized_endOfStreamCheck : endOfStreamCheck.Sized := by
  intro cap failOpen h
  cases h

theorem sized_window {size overlap cap : Nat} {failOpen : Bool} :
    (window size overlap cap failOpen).Sized ↔ cap ≤ USIZE_MAX := by
  constructor
  · intro h
    exact h cap failOpen rfl
  · intro h cap' failOpen' hcap
    cases hcap
    exact h

theorem sized_bufferFull {cap : Nat} {failOpen : Bool} :
    (bufferFull cap failOpen).Sized ↔ cap ≤ USIZE_MAX := by
  constructor
  · intro h
    exact h cap failOpen rfl
  · intro h cap' failOpen' hcap
    cases hcap
    exact h

/-! ### What the stricter of two policies is -/

@[simp]
theorem endOfStreamCheck_stricter (p : StreamOutputPolicy) : endOfStreamCheck.stricter p = p := by
  cases p <;> rfl

@[simp]
theorem stricter_endOfStreamCheck (p : StreamOutputPolicy) : p.stricter endOfStreamCheck = p := by
  cases p <;> rfl

@[simp]
theorem window_stricter_bufferFull (size overlap cap cap' : Nat) (failOpen failOpen' : Bool) :
    (window size overlap cap failOpen).stricter (bufferFull cap' failOpen') =
    bufferFull cap' failOpen' :=
  rfl

@[simp]
theorem bufferFull_stricter_window (size overlap cap cap' : Nat) (failOpen failOpen' : Bool) :
    (bufferFull cap' failOpen').stricter (window size overlap cap failOpen) =
    bufferFull cap' failOpen' :=
  rfl

@[simp]
theorem bufferFull_stricter_bufferFull (cap cap' : Nat) (failOpen failOpen' : Bool) :
    (bufferFull cap failOpen).stricter (bufferFull cap' failOpen') =
      bufferFull (min cap cap') (failOpen && failOpen') := by
  have hfold : (bufferFull cap failOpen).stricter (bufferFull cap' failOpen') =
      bufferFull (min (min cap cap) cap') (failOpen && failOpen && failOpen') := rfl
  rw [hfold, Nat.min_self, Bool.and_self]

theorem window_stricter_window {cap : Nat} (h : cap ≤ USIZE_MAX)
    (size overlap size' overlap' cap' : Nat) (failOpen failOpen' : Bool) :
    (window size overlap cap failOpen).stricter (window size' overlap' cap' failOpen') =
      window (min size size') (max overlap overlap') (min cap cap') (failOpen && failOpen') := by
  have hfold : (window size overlap cap failOpen).stricter (window size' overlap' cap' failOpen') =
      window (min size size') (max overlap overlap') (min (min USIZE_MAX cap) cap')
        (true && failOpen && failOpen') := rfl
  rw [hfold, Nat.min_eq_right h, Bool.true_and]

theorem sized_stricter {p q : StreamOutputPolicy} (hp : p.Sized) (hq : q.Sized) :
    (p.stricter q).Sized := by
  cases p with
  | endOfStreamCheck => simpa using hq
  | window size overlap cap failOpen =>
    cases q with
    | endOfStreamCheck => exact hp
    | window size' overlap' cap' failOpen' =>
      rw [sized_window] at hp
      rw [window_stricter_window hp, sized_window]
      exact (Nat.min_le_left _ _).trans hp
    | bufferFull => exact hq
  | bufferFull cap failOpen =>
    cases q with
    | endOfStreamCheck => exact hp
    | window => exact hp
    | bufferFull cap' failOpen' =>
      rw [sized_bufferFull] at hp
      rw [bufferFull_stricter_bufferFull, sized_bufferFull]
      exact (Nat.min_le_left _ _).trans hp

theorem stricter_self {p : StreamOutputPolicy} (hp : p.Sized) : p.stricter p = p := by
  cases p with
  | endOfStreamCheck => rfl
  | window size overlap cap failOpen =>
    rw [window_stricter_window (sized_window.mp hp), Nat.min_self, Nat.max_self,
      Nat.min_self, Bool.and_self]
  | bufferFull cap failOpen => rw [bufferFull_stricter_bufferFull, Nat.min_self, Bool.and_self]

theorem stricter_comm {p q : StreamOutputPolicy} (hp : p.Sized) (hq : q.Sized) :
    p.stricter q = q.stricter p := by
  cases p with
  | endOfStreamCheck => simp
  | window size overlap cap failOpen =>
    cases q with
    | endOfStreamCheck => rfl
    | window size' overlap' cap' failOpen' =>
      rw [window_stricter_window (sized_window.mp hp), window_stricter_window (sized_window.mp hq),
        Nat.min_comm size', Nat.max_comm overlap', Nat.min_comm cap', Bool.and_comm failOpen']
    | bufferFull => rfl
  | bufferFull cap failOpen =>
    cases q with
    | endOfStreamCheck => rfl
    | window => rfl
    | bufferFull cap' failOpen' =>
      rw [bufferFull_stricter_bufferFull, bufferFull_stricter_bufferFull,
        Nat.min_comm, Bool.and_comm]

theorem stricter_assoc {p q r : StreamOutputPolicy} (hp : p.Sized) (hq : q.Sized) :
    (p.stricter q).stricter r = p.stricter (q.stricter r) := by
  cases p with
  | endOfStreamCheck => simp
  | window size overlap cap failOpen =>
    rw [sized_window] at hp
    cases q with
    | endOfStreamCheck => simp
    | window size' overlap' cap' failOpen' =>
      rw [sized_window] at hq
      rw [window_stricter_window hp]
      cases r with
      | endOfStreamCheck => simp [window_stricter_window hp]
      | window size'' overlap'' cap'' failOpen'' =>
        rw [window_stricter_window ((Nat.min_le_left _ _).trans hp), window_stricter_window hq,
          window_stricter_window hp, Nat.min_assoc, Nat.max_assoc, Nat.min_assoc, Bool.and_assoc]
      | bufferFull => rfl
    | bufferFull cap' failOpen' =>
      rw [window_stricter_bufferFull]
      cases r with
      | endOfStreamCheck => rfl
      | window => rfl
      | bufferFull => rw [bufferFull_stricter_bufferFull, window_stricter_bufferFull]
  | bufferFull cap failOpen =>
    cases q with
    | endOfStreamCheck => simp
    | window size' overlap' cap' failOpen' =>
      rw [sized_window] at hq
      rw [bufferFull_stricter_window]
      cases r with
      | endOfStreamCheck => rfl
      | window =>
        rw [window_stricter_window hq, bufferFull_stricter_window, bufferFull_stricter_window]
      | bufferFull => rw [window_stricter_bufferFull]
    | bufferFull cap' failOpen' =>
      rw [bufferFull_stricter_bufferFull]
      cases r with
      | endOfStreamCheck => simp
      | window => simp
      | bufferFull cap'' failOpen'' => simp [Nat.min_assoc, Bool.and_assoc]

end StreamOutputPolicy

/-! ### The semilattice -/

/-- A policy as the code can hold it. -/
abbrev SizedPolicy := {p : StreamOutputPolicy // p.Sized}

namespace SizedPolicy

open StreamOutputPolicy

def stricter (p q : SizedPolicy) : SizedPolicy := ⟨p.1.stricter q.1, sized_stricter p.2 q.2⟩

instance : Max SizedPolicy := ⟨stricter⟩

instance : SemilatticeSup SizedPolicy :=
  SemilatticeSup.mk' (fun p q => Subtype.ext (stricter_comm p.2 q.2))
    (fun p q _ => Subtype.ext (stricter_assoc p.2 q.2)) (fun p => Subtype.ext (stricter_self p.2))

theorem sup_val (p q : SizedPolicy) : (p ⊔ q).1 = p.1.stricter q.1 := rfl

theorem le_iff {p q : SizedPolicy} : p ≤ q ↔ p.1.stricter q.1 = q.1 := by
  rw [← sup_eq_right, Subtype.ext_iff, sup_val]

instance : OrderBot SizedPolicy where
  bot := ⟨endOfStreamCheck, sized_endOfStreamCheck⟩
  bot_le p := le_iff.mpr (endOfStreamCheck_stricter p.1)

/-- What all of these together come to. -/
def join (ps : List SizedPolicy) : SizedPolicy := ps.foldr (· ⊔ ·) ⊥

theorem join_append (ps qs : List SizedPolicy) : join (ps ++ qs) = join ps ⊔ join qs := by
  induction ps with
  | nil => exact (bot_sup_eq _).symm
  | cons p ps ih =>
    have hcons : ∀ rs, join (p :: rs) = p ⊔ join rs := fun _ => rfl
    rw [List.cons_append, hcons, hcons, ih, sup_assoc]

theorem join_le_iff {ps : List SizedPolicy} {q : SizedPolicy} : join ps ≤ q ↔ ∀ p ∈ ps, p ≤ q := by
  induction ps with
  | nil =>
    refine ⟨fun _ p hp => ?_, fun _ => bot_le⟩
    cases hp
  | cons p ps ih =>
    have hcons : join (p :: ps) = p ⊔ join ps := rfl
    rw [hcons, sup_le_iff, ih, List.forall_mem_cons]

theorem join_congr {ps qs : List SizedPolicy} (h : ∀ p, p ∈ ps ↔ p ∈ qs) : join ps = join qs := by
  refine eq_of_forall_ge_iff fun q => ?_
  rw [join_le_iff, join_le_iff]
  exact forall_congr' fun p => by rw [h p]

end SizedPolicy

/-- An order and a grouping in which policies are folded. -/
inductive Grouping where
  | one (p : SizedPolicy)
  | both (s t : Grouping)

namespace Grouping

def members : Grouping → List SizedPolicy
  | one p => [p]
  | both s t => s.members ++ t.members

def value : Grouping → StreamOutputPolicy
  | one p => p.1
  | both s t => s.value.stricter t.value

theorem value_eq_join (s : Grouping) : s.value = (SizedPolicy.join s.members).1 := by
  induction s with
  | one p => exact (StreamOutputPolicy.stricter_endOfStreamCheck p.1).symm
  | both s t ihs iht =>
    rw [value, members, SizedPolicy.join_append, ihs, iht]
    rfl

end Grouping

theorem foldl_eq_join (ps : List SizedPolicy) (acc : SizedPolicy) :
    (ps.map (·.1)).foldl StreamOutputPolicy.stricter acc.1 = (acc ⊔ SizedPolicy.join ps).1 := by
  induction ps generalizing acc with
  | nil => exact congrArg Subtype.val (sup_bot_eq acc).symm
  | cons p ps ih =>
    have hcons : SizedPolicy.join (p :: ps) = p ⊔ SizedPolicy.join ps := rfl
    rw [List.map_cons, List.foldl_cons, hcons, ← sup_assoc]
    exact ih (acc ⊔ p)

/-! ### What the members have to do with it -/

open StreamOutputPolicy

/-- What these policies come to: the strictest kind among them, with what the members of that kind
ask for. -/
structure Strictest (ps : List StreamOutputPolicy) (v : StreamOutputPolicy) : Prop where
  rank_le : ∀ p ∈ ps, p.rank ≤ v.rank
  rank_mem : ∃ p ∈ ps, p.rank = v.rank
  cap_le : ∀ cap failOpen, v.holdCap = some (cap, failOpen) → ∀ p ∈ ps, p.rank = v.rank →
    ∃ cap' failOpen', p.holdCap = some (cap', failOpen') ∧ cap ≤ cap'
  cap_mem : ∀ cap failOpen, v.holdCap = some (cap, failOpen) →
    ∃ p ∈ ps, p.rank = v.rank ∧ ∃ failOpen', p.holdCap = some (cap, failOpen')
  failOpen_iff : ∀ cap failOpen, v.holdCap = some (cap, failOpen) →
    (failOpen = true ↔ ∀ p ∈ ps, p.rank = v.rank → ∃ cap', p.holdCap = some (cap', true))
  covers : ∀ size overlap cap failOpen, v = window size overlap cap failOpen →
    ∀ size' overlap' cap' failOpen', window size' overlap' cap' failOpen' ∈ ps → size ≤ size' ∧
    overlap' ≤ overlap

theorem holdsBack_iff_rank {p : StreamOutputPolicy} : p.holdsBack = true ↔ 0 < p.rank := by
  cases p <;> simp [holdsBack, rank]

namespace Strictest

variable {ps qs : List StreamOutputPolicy} {v w : StreamOutputPolicy}

theorem holdsBack_iff (h : Strictest ps v) : v.holdsBack = true ↔ ∃ p ∈ ps, p.holdsBack = true := by
  rw [holdsBack_iff_rank]
  constructor
  · intro hpos
    obtain ⟨p, hp, hrank⟩ := h.rank_mem
    exact ⟨p, hp, holdsBack_iff_rank.mpr (hrank ▸ hpos)⟩
  · rintro ⟨p, hp, hholds⟩
    exact (holdsBack_iff_rank.mp hholds).trans_le (h.rank_le p hp)

theorem singleton (p : StreamOutputPolicy) : Strictest [p] p where
  rank_le := by
    rintro q hq
    rw [List.mem_singleton.mp hq]
  rank_mem := ⟨p, List.mem_singleton_self p, rfl⟩
  cap_le := by
    intro cap failOpen hcap q hq _
    rw [List.mem_singleton.mp hq]
    exact ⟨cap, failOpen, hcap, Nat.le_refl cap⟩
  cap_mem := fun cap failOpen hcap => ⟨p, List.mem_singleton_self p, rfl, failOpen, hcap⟩
  failOpen_iff := by
    intro cap failOpen hcap
    constructor
    · rintro rfl q hq _
      rw [List.mem_singleton.mp hq]
      exact ⟨cap, hcap⟩
    · intro hall
      obtain ⟨cap', hcap'⟩ := hall p (List.mem_singleton_self p) rfl
      rw [hcap] at hcap'
      cases hcap'
      rfl
  covers := by
    rintro size overlap cap failOpen rfl size' overlap' cap' failOpen' hmem
    cases List.mem_singleton.mp hmem
    exact ⟨Nat.le_refl _, Nat.le_refl _⟩

theorem congr (h : Strictest ps v) (hmem : ∀ p, p ∈ ps ↔ p ∈ qs) : Strictest qs v := by
  obtain ⟨rank_le, rank_mem, cap_le, cap_mem, failOpen_iff, covers⟩ := h
  simp only [hmem] at *
  exact ⟨rank_le, rank_mem, cap_le, cap_mem, failOpen_iff, covers⟩

theorem append_of_lt (h : Strictest ps v) (hlt : ∀ q ∈ qs, q.rank < v.rank) :
    Strictest (ps ++ qs) v where
  rank_le := by
    intro p hp
    rcases List.mem_append.mp hp with hp | hp
    · exact h.rank_le p hp
    · exact (hlt p hp).le
  rank_mem := by
    obtain ⟨p, hp, hrank⟩ := h.rank_mem
    exact ⟨p, List.mem_append_left _ hp, hrank⟩
  cap_le := by
    intro cap failOpen hcap p hp hrank
    rcases List.mem_append.mp hp with hp | hp
    · exact h.cap_le cap failOpen hcap p hp hrank
    · exact absurd hrank (hlt p hp).ne
  cap_mem := by
    intro cap failOpen hcap
    obtain ⟨p, hp, hrank⟩ := h.cap_mem cap failOpen hcap
    exact ⟨p, List.mem_append_left _ hp, hrank⟩
  failOpen_iff := by
    intro cap failOpen hcap
    rw [h.failOpen_iff cap failOpen hcap]
    constructor
    · intro hall p hp hrank
      rcases List.mem_append.mp hp with hp | hp
      · exact hall p hp hrank
      · exact absurd hrank (hlt p hp).ne
    · intro hall p hp hrank
      exact hall p (List.mem_append_left _ hp) hrank
  covers := by
    rintro size overlap cap failOpen rfl size' overlap' cap' failOpen' hmem
    rcases List.mem_append.mp hmem with hmem | hmem
    · exact h.covers size overlap cap failOpen rfl size' overlap' cap' failOpen' hmem
    · exact absurd (hlt _ hmem) (Nat.lt_irrefl 1)

/-- Two policies of one kind fold to its cap and its overflow; those that hold nothing fold to
themselves. -/
theorem stricter_of_rank_eq (hv : v.Sized) (hrank : v.rank = w.rank) :
    (v.stricter w).rank = v.rank ∧
      (v.holdCap = none ∧ w.holdCap = none ∧ (v.stricter w).holdCap = none ∨
        ∃ cap failOpen cap' failOpen', v.holdCap = some (cap, failOpen) ∧
          w.holdCap = some (cap', failOpen') ∧
          (v.stricter w).holdCap = some (min cap cap', failOpen && failOpen')) := by
  cases v with
  | endOfStreamCheck =>
    cases w with
    | endOfStreamCheck => exact ⟨rfl, .inl ⟨rfl, rfl, rfl⟩⟩
    | window => cases hrank
    | bufferFull => cases hrank
  | window size overlap cap failOpen =>
    cases w with
    | endOfStreamCheck => cases hrank
    | window size' overlap' cap' failOpen' =>
      rw [window_stricter_window (sized_window.mp hv)]
      exact ⟨rfl, .inr ⟨cap, failOpen, cap', failOpen', rfl, rfl, rfl⟩⟩
    | bufferFull => cases hrank
  | bufferFull cap failOpen =>
    cases w with
    | endOfStreamCheck => cases hrank
    | window => cases hrank
    | bufferFull cap' failOpen' =>
      rw [bufferFull_stricter_bufferFull]
      exact ⟨rfl, .inr ⟨cap, failOpen, cap', failOpen', rfl, rfl, rfl⟩⟩

theorem append_of_rank_eq (h : Strictest ps v) (h' : Strictest qs w) (hv : v.Sized)
    (hrank : v.rank = w.rank) : Strictest (ps ++ qs) (v.stricter w) := by
  obtain ⟨hfold, hcaps⟩ := stricter_of_rank_eq hv hrank
  refine ⟨?_, ?_, ?_, ?_, ?_, ?_⟩
  · intro p hp
    rw [hfold]
    rcases List.mem_append.mp hp with hp | hp
    · exact h.rank_le p hp
    · exact (h'.rank_le p hp).trans hrank.ge
  · obtain ⟨p, hp, heq⟩ := h.rank_mem
    exact ⟨p, List.mem_append_left _ hp, heq.trans hfold.symm⟩
  · intro cap failOpen hcap p hp heq
    rw [hfold] at heq
    rcases hcaps with ⟨-, -, hnone⟩ | ⟨cap₁, open₁, cap₂, open₂, hcap₁, hcap₂, hboth⟩
    · rw [hnone] at hcap
      cases hcap
    · rw [hboth] at hcap
      cases hcap
      rcases List.mem_append.mp hp with hp | hp
      · obtain ⟨cap', open', hp', hle⟩ := h.cap_le _ _ hcap₁ p hp heq
        exact ⟨cap', open', hp', (Nat.min_le_left _ _).trans hle⟩
      · obtain ⟨cap', open', hp', hle⟩ := h'.cap_le _ _ hcap₂ p hp (heq.trans hrank)
        exact ⟨cap', open', hp', (Nat.min_le_right _ _).trans hle⟩
  · intro cap failOpen hcap
    rcases hcaps with ⟨-, -, hnone⟩ | ⟨cap₁, open₁, cap₂, open₂, hcap₁, hcap₂, hboth⟩
    · rw [hnone] at hcap
      cases hcap
    · rw [hboth] at hcap
      cases hcap
      obtain ⟨p, hp, heq, hp'⟩ := h.cap_mem _ _ hcap₁
      obtain ⟨q, hq, heq', hq'⟩ := h'.cap_mem _ _ hcap₂
      rcases Nat.le_total cap₁ cap₂ with hle | hle
      · rw [Nat.min_eq_left hle, hfold]
        exact ⟨p, List.mem_append_left _ hp, heq, hp'⟩
      · rw [Nat.min_eq_right hle, hfold]
        exact ⟨q, List.mem_append_right _ hq, heq'.trans hrank.symm, hq'⟩
  · intro cap failOpen hcap
    rcases hcaps with ⟨-, -, hnone⟩ | ⟨cap₁, open₁, cap₂, open₂, hcap₁, hcap₂, hboth⟩
    · rw [hnone] at hcap
      cases hcap
    · rw [hboth] at hcap
      cases hcap
      rw [Bool.and_eq_true, h.failOpen_iff _ _ hcap₁, h'.failOpen_iff _ _ hcap₂, hfold]
      constructor
      · rintro ⟨hleft, hright⟩ p hp heq
        rcases List.mem_append.mp hp with hp | hp
        · exact hleft p hp heq
        · exact hright p hp (heq.trans hrank)
      · intro hall
        exact ⟨fun p hp heq => hall p (List.mem_append_left _ hp) heq,
          fun p hp heq => hall p (List.mem_append_right _ hp) (heq.trans hrank.symm)⟩
  · intro size overlap cap failOpen heq size' overlap' cap' failOpen' hmem
    have hwithin := within_of_stricter heq
    rcases List.mem_append.mp hmem with hmem | hmem
    · cases v with
      | endOfStreamCheck => exact absurd (h.rank_le _ hmem) (Nat.not_succ_le_zero 0)
      | window size₁ overlap₁ cap₁ open₁ =>
        obtain ⟨hsize, hoverlap⟩ := h.covers _ _ _ _ rfl _ _ _ _ hmem
        exact ⟨hwithin.1.1.trans hsize, hoverlap.trans hwithin.1.2⟩
      | bufferFull => exact hwithin.1.elim
    · cases w with
      | endOfStreamCheck => exact absurd (h'.rank_le _ hmem) (Nat.not_succ_le_zero 0)
      | window size₁ overlap₁ cap₁ open₁ =>
        obtain ⟨hsize, hoverlap⟩ := h'.covers _ _ _ _ rfl _ _ _ _ hmem
        exact ⟨hwithin.2.1.trans hsize, hoverlap.trans hwithin.2.2⟩
      | bufferFull => exact hwithin.2.elim

theorem stricter_of_lt (h : v.rank < w.rank) : v.stricter w = w := if_pos h

theorem stricter_of_gt (h : w.rank < v.rank) : v.stricter w = v := by
  unfold stricter
  rw [if_neg h.asymm, if_pos h]

theorem append (h : Strictest ps v) (h' : Strictest qs w) (hv : v.Sized) :
    Strictest (ps ++ qs) (v.stricter w) := by
  rcases Nat.lt_trichotomy v.rank w.rank with hlt | heq | hgt
  · rw [stricter_of_lt hlt]
    have hweaker : ∀ p ∈ ps, p.rank < w.rank := fun p hp => (h.rank_le p hp).trans_lt hlt
    exact (h'.append_of_lt hweaker).congr fun p => by rw [List.mem_append, List.mem_append, or_comm]
  · exact h.append_of_rank_eq h' hv heq
  · rw [stricter_of_gt hgt]
    exact h.append_of_lt fun q hq => (h'.rank_le q hq).trans_lt hgt

end Strictest

theorem Grouping.sized_value (s : Grouping) : s.value.Sized := by
  rw [s.value_eq_join]
  exact (SizedPolicy.join s.members).2

theorem Grouping.strictest_value (s : Grouping) : Strictest (s.members.map (·.1)) s.value := by
  induction s with
  | one p => exact .singleton p.1
  | both s t ihs iht =>
    rw [members, List.map_append]
    exact ihs.append iht s.sized_value

/-- However these policies are grouped and ordered, and however often one of them is named, they
fold to one policy, and it is the strictest of them. -/
theorem strictest_of_grouping (s : Grouping) :
    (∀ t : Grouping, (∀ p, p ∈ s.members ↔ p ∈ t.members) → s.value = t.value) ∧
      (∀ ps : List SizedPolicy, ps.Perm s.members →
        (ps.map (·.1)).foldl StreamOutputPolicy.stricter .endOfStreamCheck = s.value) ∧
      (s.value.holdsBack = true ↔ ∃ p ∈ s.members, p.1.holdsBack = true) ∧
      Strictest (s.members.map (·.1)) s.value := by
  refine ⟨?_, ?_, ?_, s.strictest_value⟩
  · intro t hmem
    rw [s.value_eq_join, t.value_eq_join, SizedPolicy.join_congr hmem]
  · intro ps hperm
    have hfold := foldl_eq_join ps ⊥
    rw [bot_sup_eq, SizedPolicy.join_congr fun p => hperm.mem_iff, ← s.value_eq_join] at hfold
    exact hfold
  · rw [s.strictest_value.holdsBack_iff]
    constructor
    · rintro ⟨p, hp, hholds⟩
      obtain ⟨q, hq, rfl⟩ := List.mem_map.mp hp
      exact ⟨q, hq, hholds⟩
    · rintro ⟨q, hq, hholds⟩
      exact ⟨q.1, List.mem_map_of_mem hq, hholds⟩

end WindowScan
end Aisix
