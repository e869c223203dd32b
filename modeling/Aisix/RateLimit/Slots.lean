import Aisix.Lts
import Aisix.RateLimit.LocalStore

/-!
# Aisix.RateLimit.Slots

Concurrency slots of the local store when operations and `reap` interleave. The map holds a shared
handle to each bucket (`arc`), and the bucket itself lives on the heap: `acquire` and `commit` look
the handle up, or create it, in one step and run their body under the bucket's mutex in a later
one. `release` keeps the map's guard over both, and `reap` decides about one bucket and removes it
in one step.

A bucket that `reap` removes while an `acquire` still holds its handle is detached: the member it
then admits is counted by nobody.

* `Inv.step` — one step in which `reap` spares the buckets with such an `acquire` (`Spares`).
* `slots_kept` — after a run of such steps every admitted member is still counted.
* `slot_lost` — without the condition a slot is lost.
-/

namespace Aisix
namespace RateLimit
namespace Slots

/-- What an operation that holds a bucket's handle is going to do under its mutex. -/
inductive Body where
  | acquire (now : Nat) (limits : Limits)
  | commit (now tokens : Nat)

/-- An operation between its lookup and its body. -/
structure Pending where
  key : String
  arc : Nat
  member : String
  body : Body

structure State where
  clock : Nat
  map : String → Option Nat
  heap : Nat → KeyState
  next : Nat
  pending : List Pending
  /-- The members whose `acquire` returned `Ok`, until they are committed or released. -/
  held : String → Finset String

inductive Act where
  | tick (secs : Nat)
  | acquire (key : String) (limits : Limits) (member : String)
  | commit (key : String) (tokens : Nat) (member : String)
  | body (i : Nat)
  | release (key member : String)
  | reap (key : String) (cutoff : Nat)

namespace State

def init (clock : Nat) : State :=
  ⟨clock, fun _ => none, fun _ => KeyState.new 0, 0, [], fun _ => ∅⟩

/-- The bucket that the next operation on `key` finds. -/
def bucketOf (st : State) (key : String) : KeyState :=
  match st.map key with
  | some arc => st.heap arc
  | none => KeyState.new st.clock

/-- `state_for`: the bucket's handle, a new one if the key has none. -/
def stateFor (st : State) (key : String) : Nat × State :=
  match st.map key with
  | some arc => (arc, st)
  | none =>
    (st.next,
      { st with
        map := Function.update st.map key (some st.next)
        heap := Function.update st.heap st.next (KeyState.new st.clock)
        next := st.next + 1 })

def lookUp (st : State) (key member : String) (body : Body) : State :=
  let (arc, st) := st.stateFor key
  { st with pending := st.pending ++ [⟨key, arc, member, body⟩] }

def runBody (st : State) (p : Pending) (i : Nat) : State :=
  let st := { st with pending := st.pending.eraseIdx i }
  match p.body with
  | .acquire now limits =>
    let (refusal, s) := (st.heap p.arc).acquireBody now limits p.member
    { st with
      heap := Function.update st.heap p.arc s
      held :=
        if refusal = none then Function.update st.held p.key (insert p.member (st.held p.key))
        else st.held }
  | .commit now tokens =>
    { st with
      heap := Function.update st.heap p.arc ((st.heap p.arc).commitBody now tokens p.member)
      held := Function.update st.held p.key ((st.held p.key).erase p.member) }

def release (st : State) (key member : String) : State :=
  let st := { st with held := Function.update st.held key ((st.held key).erase member) }
  match st.map key with
  | some arc =>
    { st with heap := Function.update st.heap arc ((st.heap arc).releaseBody st.clock member) }
  | none => st

/-- `reap` at one bucket. -/
def reap (st : State) (key : String) (cutoff : Nat) : State :=
  match st.map key with
  | some arc =>
    if LocalStore.retained cutoff (st.heap arc) then st
    else { st with map := Function.update st.map key none }
  | none => st

end State

section Key

variable (key : String) (max : UInt32)

/-- One step; every `acquire` on `key` carries the concurrency limit `max`, and `reap` works with a
clock reading no later than now. -/
def step (st : State) : Act → Option State
  | .tick secs => some { st with clock := st.clock + secs }
  | .acquire k limits member =>
    if k = key → limits.concurrency = some max then
      some (st.lookUp k member (.acquire st.clock limits))
    else none
  | .commit k tokens member => some (st.lookUp k member (.commit st.clock tokens))
  | .body i => (st.pending[i]?).map fun p => st.runBody p i
  | .release k member => some (st.release k member)
  | .reap k cutoff => if cutoff ≤ st.clock then some (st.reap k cutoff) else none

end Key

def Pending.isAcquire (p : Pending) : Bool :=
  match p.body with
  | .acquire _ _ => true
  | .commit _ _ => false

/-- `reap` removes no bucket whose handle an `acquire` has looked up and not yet used. -/
def Spares (st : State) : Act → Prop
  | .reap k cutoff => ∀ arc ∈ st.map k, LocalStore.retained cutoff (st.heap arc) = false →
      ∀ p ∈ st.pending, p.isAcquire → p.arc ≠ arc
  | _ => True

instance (st : State) : (a : Act) → Decidable (Spares st a)
  | .tick _ | .acquire _ _ _ | .commit _ _ _ | .body _ | .release _ _ =>
    inferInstanceAs (Decidable True)
  | .reap k cutoff => inferInstanceAs (Decidable (∀ arc ∈ st.map k,
      LocalStore.retained cutoff (st.heap arc) = false →
        ∀ p ∈ st.pending, p.isAcquire → p.arc ≠ arc))

/-- What the map, the heap, the operations under way and the admitted members have to do with each
other. -/
structure Inv (key : String) (max : UInt32) (st : State) : Prop where
  mapped : ∀ k arc, st.map k = some arc → arc < st.next
  separate : ∀ k k' arc, st.map k = some arc → st.map k' = some arc → k = k'
  pendingOld : ∀ p ∈ st.pending, p.arc < st.next
  pendingKey : ∀ p ∈ st.pending, ∀ k, st.map k = some p.arc → k = p.key
  attached : ∀ p ∈ st.pending, p.isAcquire → st.map p.key = some p.arc
  limited : ∀ p ∈ st.pending, p.key = key → ∀ now limits, p.body = .acquire now limits →
    limits.concurrency = some max
  counted : ∀ k, st.held k ⊆ (st.bucketOf k).inFlight
  bounded : (st.bucketOf key).inFlight.card ≤ max.toNat

variable {key : String} {max : UInt32}

theorem Inv.init (clock : Nat) : Inv key max (State.init clock) := by
  constructor <;> simp [State.init, State.bucketOf, KeyState.new]

theorem bucketOf_update (st st' : State) (arc : Nat) {s : KeyState} (hclock : st'.clock = st.clock)
    (hmap : st'.map = st.map) (hheap : st'.heap = Function.update st.heap arc s) (k : String) :
    st'.bucketOf k = if st.map k = some arc then s else st.bucketOf k := by
  simp only [State.bucketOf, hclock, hmap, hheap]
  cases hk : st.map k with
  | none => simp
  | some a =>
    by_cases ha : a = arc
    · subst ha; simp
    · simp [ha]

theorem Inv.stateFor {st : State} (h : Inv key max st) (k : String) :
    Inv key max (st.stateFor k).2 ∧ (st.stateFor k).2.map k = some (st.stateFor k).1 ∧
      (st.stateFor k).2.pending = st.pending := by
  unfold State.stateFor
  cases hk : st.map k with
  | some arc => exact ⟨h, hk, rfl⟩
  | none =>
    refine ⟨?_, Function.update_self .., rfl⟩
    have hbucket : ∀ k', ({ st with
        map := Function.update st.map k (some st.next)
        heap := Function.update st.heap st.next (KeyState.new st.clock)
        next := st.next + 1 } : State).bucketOf k' = st.bucketOf k' := by
      intro k'
      by_cases hk' : k' = k
      · subst hk'; simp [State.bucketOf, hk]
      · simp only [State.bucketOf, Function.update_of_ne hk']
        cases hm : st.map k' with
        | none => rfl
        | some arc => exact Function.update_of_ne (Nat.ne_of_lt (h.mapped k' arc hm)) _ _
    -- the handle is new, so nothing under way holds it
    have hfresh : ∀ p ∈ st.pending, p.arc ≠ st.next := fun p hp =>
      Nat.ne_of_lt (h.pendingOld p hp)
    constructor
    · intro k' arc hm
      by_cases hk' : k' = k
      · subst hk'
        simp only [Function.update_self, Option.some.injEq] at hm
        simp only; omega
      · simp only [Function.update_of_ne hk'] at hm
        exact Nat.lt_succ_of_lt (h.mapped k' arc hm)
    · intro k₁ k₂ arc h₁ h₂
      by_cases e₁ : k₁ = k <;> by_cases e₂ : k₂ = k
      · rw [e₁, e₂]
      · subst e₁
        simp only [Function.update_self, Option.some.injEq, Function.update_of_ne e₂] at h₁ h₂
        have := h.mapped k₂ arc h₂
        omega
      · subst e₂
        simp only [Function.update_self, Option.some.injEq, Function.update_of_ne e₁] at h₁ h₂
        have := h.mapped k₁ arc h₁
        omega
      · simp only [Function.update_of_ne e₁, Function.update_of_ne e₂] at h₁ h₂
        exact h.separate k₁ k₂ arc h₁ h₂
    · exact fun p hp => Nat.lt_succ_of_lt (h.pendingOld p hp)
    · intro p hp k' hm
      by_cases hk' : k' = k
      · subst hk'
        simp only [Function.update_self, Option.some.injEq] at hm
        exact absurd hm.symm (hfresh p hp)
      · simp only [Function.update_of_ne hk'] at hm
        exact h.pendingKey p hp k' hm
    · intro p hp ha
      have hat := h.attached p hp ha
      have hne : p.key ≠ k := fun e => by rw [e, hk] at hat; cases hat
      simpa only [Function.update_of_ne hne] using hat
    · exact h.limited
    · exact fun k' => (hbucket k').symm ▸ h.counted k'
    · exact (hbucket key).symm ▸ h.bounded

theorem Inv.lookUp {st : State} (h : Inv key max st) {k member : String} {body : Body}
    (hlim : k = key → ∀ now limits, body = .acquire now limits → limits.concurrency = some max) :
    Inv key max (st.lookUp k member body) := by
  obtain ⟨hinv, hmap, hpend⟩ := h.stateFor k
  unfold State.lookUp
  generalize st.stateFor k = r at hinv hmap hpend
  obtain ⟨arc, st'⟩ := r
  have hnew : ∀ {P : Pending → Prop}, (∀ p ∈ st'.pending, P p) → P ⟨k, arc, member, body⟩ →
      ∀ p ∈ st'.pending ++ [⟨k, arc, member, body⟩], P p := by
    intro P hold hlast p hp
    rcases List.mem_append.1 hp with hp | hp
    · exact hold p hp
    · rw [List.mem_singleton.1 hp]; exact hlast
  exact
    { mapped := hinv.mapped
      separate := hinv.separate
      pendingOld := hnew hinv.pendingOld (hinv.mapped k arc hmap)
      pendingKey := hnew hinv.pendingKey fun k' hk' => hinv.separate k' k arc hk' hmap
      attached := hnew hinv.attached fun _ => hmap
      limited := hnew hinv.limited hlim
      counted := hinv.counted
      bounded := hinv.bounded }

/-- The invariant after a body: the pending operations but one are left, and the buckets found are
given. -/
theorem Inv.of_body {st st' : State} (h : Inv key max st) (hmap : st'.map = st.map)
    (hnext : st'.next = st.next) (hpend : ∀ p ∈ st'.pending, p ∈ st.pending)
    (hcounted : ∀ k, st'.held k ⊆ (st'.bucketOf k).inFlight)
    (hbounded : (st'.bucketOf key).inFlight.card ≤ max.toNat) : Inv key max st' where
  mapped := by rw [hmap, hnext]; exact h.mapped
  separate := by rw [hmap]; exact h.separate
  pendingOld p hp := by rw [hnext]; exact h.pendingOld p (hpend p hp)
  pendingKey p hp := by rw [hmap]; exact h.pendingKey p (hpend p hp)
  attached p hp := by rw [hmap]; exact h.attached p (hpend p hp)
  limited p hp := h.limited p (hpend p hp)
  counted := hcounted
  bounded := hbounded

theorem card_lt_of_admitted {now : Nat} {limits : Limits} {member : String} {s : KeyState}
    (hlim : limits.concurrency = some max) (hcard : s.inFlight.card ≤ max.toNat)
    (hadm : (s.acquireBody now limits member).1 = none) : s.inFlight.card < max.toNat := by
  have hspec := KeyState.acquireBody_spec now limits member s
  rw [hspec.refusal, KeyState.refusal_eq_none_iff] at hadm
  have hgate := hadm.1
  have hmax := max.toNat_lt
  have hmod : s.inFlight.card % 2 ^ 32 = s.inFlight.card := Nat.mod_eq_of_lt (by omega)
  simp only [KeyState.concurrencyGate, Limits.maxConcurrency, hlim, Option.map_some, hmod] at hgate
  split at hgate
  · cases hgate
  · omega

theorem Inv.runAcquire {st : State} (h : Inv key max st) {p : Pending} {i now : Nat}
    {limits : Limits} (hp : p ∈ st.pending) (hbody : p.body = .acquire now limits) :
    Inv key max (st.runBody p i) := by
  have hat : st.map p.key = some p.arc := h.attached p hp (by simp [Pending.isAcquire, hbody])
  have hfound : st.bucketOf p.key = st.heap p.arc := by simp [State.bucketOf, hat]
  have hspec := KeyState.acquireBody_spec now limits p.member (st.heap p.arc)
  have hrun : st.runBody p i =
      { st with
        pending := st.pending.eraseIdx i
        heap := Function.update st.heap p.arc
          ((st.heap p.arc).acquireBody now limits p.member).2
        held := if ((st.heap p.arc).acquireBody now limits p.member).1 = none then
            Function.update st.held p.key (insert p.member (st.held p.key))
          else st.held } := by
    simp [State.runBody, hbody]
  have hbucket := bucketOf_update st (st.runBody p i) p.arc (by rw [hrun]) (by rw [hrun])
    (by rw [hrun])
  have hself : ((st.runBody p i).bucketOf p.key).inFlight =
      if ((st.heap p.arc).acquireBody now limits p.member).1 = none then
        insert p.member (st.heap p.arc).inFlight else (st.heap p.arc).inFlight := by
    rw [hbucket, if_pos hat, hspec.inFlight]
  have hother : ∀ k, k ≠ p.key → (st.runBody p i).bucketOf k = st.bucketOf k := fun k hk => by
    rw [hbucket, if_neg fun hm => hk (h.separate k p.key p.arc hm hat)]
  refine h.of_body (by rw [hrun]) (by rw [hrun])
    (fun q hq => List.mem_of_mem_eraseIdx (by rw [hrun] at hq; exact hq)) (fun k => ?_) ?_
  · by_cases hk : k = p.key
    · subst hk
      have hold := h.counted p.key
      rw [hfound] at hold
      rw [hself, hrun]
      split
      · simpa using Finset.insert_subset_insert p.member hold
      · exact hold
    · rw [hother k hk]
      have hheld : (st.runBody p i).held k = st.held k := by
        rw [hrun]
        change (if ((st.heap p.arc).acquireBody now limits p.member).1 = none then
          Function.update st.held p.key (insert p.member (st.held p.key)) else st.held) k =
            st.held k
        split
        · exact Function.update_of_ne hk _ _
        · rfl
      rw [hheld]; exact h.counted k
  · by_cases hk : key = p.key
    · subst hk
      have hcard := h.bounded
      rw [hfound] at hcard
      rw [hself]
      split
      next hadm =>
        have := card_lt_of_admitted (h.limited p hp rfl now limits hbody) hcard hadm
        exact (Finset.card_insert_le ..).trans this
      next => exact hcard
    · rw [hother key hk]; exact h.bounded

/-- A `commit` body gives its member's slot back, also in a bucket no key maps to any more. -/
theorem Inv.runCommit {st : State} (h : Inv key max st) {p : Pending} {i now tokens : Nat}
    (hp : p ∈ st.pending) (hbody : p.body = .commit now tokens) : Inv key max (st.runBody p i) := by
  have hrun : st.runBody p i =
      { st with
        pending := st.pending.eraseIdx i
        heap := Function.update st.heap p.arc ((st.heap p.arc).commitBody now tokens p.member)
        held := Function.update st.held p.key ((st.held p.key).erase p.member) } := by
    simp [State.runBody, hbody]
  have hbucket := bucketOf_update st (st.runBody p i) p.arc (by rw [hrun]) (by rw [hrun])
    (by rw [hrun])
  have hfound : ∀ k, st.map k = some p.arc → st.bucketOf k = st.heap p.arc := fun k hk => by
    simp [State.bucketOf, hk]
  refine h.of_body (by rw [hrun]) (by rw [hrun])
    (fun q hq => List.mem_of_mem_eraseIdx (by rw [hrun] at hq; exact hq)) (fun k => ?_) ?_
  · rw [hbucket]
    split
    next hm =>
      obtain rfl := h.pendingKey p hp k hm
      have hold := h.counted p.key
      rw [hfound _ hm] at hold
      rw [hrun]
      simpa [KeyState.commitBody] using Finset.erase_subset_erase p.member hold
    next =>
      rw [hrun]
      by_cases hk : k = p.key
      · subst hk
        simpa using (Finset.erase_subset ..).trans (h.counted p.key)
      · simpa [Function.update_of_ne hk] using h.counted k
  · rw [hbucket]
    split
    next hm =>
      have hcard := h.bounded
      rw [hfound _ hm] at hcard
      exact (Finset.card_le_card (Finset.erase_subset ..)).trans hcard
    next => exact h.bounded

theorem Inv.release {st : State} (h : Inv key max st) (k member : String) :
    Inv key max (st.release k member) := by
  cases hk : st.map k with
  | none =>
    have hrel : st.release k member =
        { st with held := Function.update st.held k ((st.held k).erase member) } := by
      simp [State.release, hk]
    rw [hrel]
    refine h.of_body rfl rfl (fun _ hp => hp) (fun k' => ?_) h.bounded
    change Function.update st.held k ((st.held k).erase member) k' ⊆ (st.bucketOf k').inFlight
    by_cases hk' : k' = k
    · subst hk'
      simpa using (Finset.erase_subset ..).trans (h.counted k')
    · simpa [Function.update_of_ne hk'] using h.counted k'
  | some arc =>
    have hrel : st.release k member =
        { st with
          held := Function.update st.held k ((st.held k).erase member)
          heap := Function.update st.heap arc ((st.heap arc).releaseBody st.clock member) } := by
      simp [State.release, hk]
    have hbucket := bucketOf_update st (st.release k member) arc (by rw [hrel]) (by rw [hrel])
      (by rw [hrel])
    have hfound : st.bucketOf k = st.heap arc := by simp [State.bucketOf, hk]
    refine h.of_body (by rw [hrel]) (by rw [hrel]) (fun p hp => by rw [hrel] at hp; exact hp)
      (fun k' => ?_) ?_
    · rw [hbucket]
      split
      next hm =>
        obtain rfl := h.separate k' k arc hm hk
        have hold := h.counted k'
        rw [hfound] at hold
        rw [hrel]
        simpa [KeyState.releaseBody] using Finset.erase_subset_erase member hold
      next hm =>
        have hne : k' ≠ k := fun e => hm (e ▸ hk)
        rw [hrel]
        simpa [Function.update_of_ne hne] using h.counted k'
    · rw [hbucket]
      split
      next hm =>
        have hcard := h.bounded
        rw [show st.bucketOf key = st.heap arc by simp [State.bucketOf, hm]] at hcard
        exact (Finset.card_le_card (Finset.erase_subset ..)).trans hcard
      next => exact h.bounded

theorem Inv.reap {st : State} (h : Inv key max st) {k : String} {cutoff : Nat}
    (hspares : Spares st (.reap k cutoff)) : Inv key max (st.reap k cutoff) := by
  unfold State.reap
  cases hk : st.map k with
  | none => exact h
  | some arc =>
    dsimp only
    by_cases hret : LocalStore.retained cutoff (st.heap arc) = true
    · rw [if_pos hret]; exact h
    rw [if_neg hret]
    have hempty : (st.heap arc).inFlight = ∅ := by
      simp only [LocalStore.retained, Bool.or_eq_true, decide_eq_true_eq, not_or] at hret
      exact Finset.not_nonempty_iff_eq_empty.1 hret.1.1
    have hfree := hspares arc hk (by simpa using hret)
    have hmapped : ∀ k' a, Function.update st.map k none k' = some a → k' ≠ k ∧
        st.map k' = some a := by
      intro k' a hm
      by_cases hk' : k' = k
      · subst hk'; simp at hm
      · exact ⟨hk', by simpa [Function.update_of_ne hk'] using hm⟩
    have hbucket : ∀ k', k' ≠ k →
        ({ st with map := Function.update st.map k none } : State).bucketOf k' = st.bucketOf k' :=
      fun k' hk' => by simp [State.bucketOf, Function.update_of_ne hk']
    have hgone :
        (({ st with map := Function.update st.map k none } : State).bucketOf k).inFlight = ∅ := by
      simp [State.bucketOf, KeyState.new]
    constructor
    · exact fun k' a hm => h.mapped k' a (hmapped k' a hm).2
    · exact fun k₁ k₂ a h₁ h₂ => h.separate k₁ k₂ a (hmapped k₁ a h₁).2 (hmapped k₂ a h₂).2
    · exact h.pendingOld
    · exact fun p hp k' hm => h.pendingKey p hp k' (hmapped k' _ hm).2
    · intro p hp ha
      have hat := h.attached p hp ha
      have hne : p.key ≠ k := fun e => by
        rw [e, hk] at hat
        exact hfree p hp ha (Option.some.inj hat).symm
      simpa [Function.update_of_ne hne] using hat
    · exact h.limited
    · intro k'
      by_cases hk' : k' = k
      · subst hk'
        have hheld := h.counted k'
        rw [show st.bucketOf k' = st.heap arc by simp [State.bucketOf, hk], hempty] at hheld
        rw [hgone]; exact hheld
      · rw [hbucket k' hk']; exact h.counted k'
    · by_cases hk' : key = k
      · subst hk'; rw [hgone]; exact Nat.zero_le _
      · rw [hbucket key hk']; exact h.bounded

theorem Inv.step {st st' : State} {a : Act} (h : Inv key max st) (hspares : Spares st a)
    (hs : step key max st a = some st') : Inv key max st' := by
  cases a with
  | tick secs =>
    obtain rfl := Option.some.inj hs
    refine h.of_body rfl rfl (fun _ hp => hp) (fun k => ?_) ?_
    · have hk := h.counted k
      simp only [State.bucketOf] at hk ⊢
      cases hm : st.map k <;> simpa [hm, KeyState.new] using hk
    · have hb := h.bounded
      simp only [State.bucketOf] at hb ⊢
      cases hm : st.map key with
      | none => simp [KeyState.new]
      | some arc => simpa [hm] using hb
  | acquire k limits member =>
    simp only [Slots.step, Option.ite_none_right_eq_some, Option.some.injEq] at hs
    obtain ⟨hlim, rfl⟩ := hs
    exact h.lookUp fun hk now limits' hbody => by
      obtain ⟨-, rfl⟩ := Body.acquire.inj hbody
      exact hlim hk
  | commit k tokens member =>
    obtain rfl := Option.some.inj hs
    exact h.lookUp fun _ _ _ hbody => by cases hbody
  | body i =>
    simp only [Slots.step, Option.map_eq_some_iff] at hs
    obtain ⟨p, hp, rfl⟩ := hs
    have hmem := List.mem_of_getElem? hp
    cases hbody : p.body with
    | acquire now limits => exact h.runAcquire hmem hbody
    | commit now tokens => exact h.runCommit hmem hbody
  | release k member =>
    obtain rfl := Option.some.inj hs
    exact h.release k member
  | reap k cutoff =>
    simp only [Slots.step, Option.ite_none_right_eq_some, Option.some.injEq] at hs
    obtain ⟨-, rfl⟩ := hs
    exact h.reap hspares

/-- No admitted slot is lost in a run whose reaps spare the buckets an `acquire` is about to use:
the next `acquire` counts every member in flight, on every key, and the limit holds. -/
theorem slots_kept {clock : Nat} {acts : List Act} {st : State}
    (hm : Lts.Meets (step key max) Spares (State.init clock) acts)
    (hr : Lts.run (step key max) (State.init clock) acts = some st) :
    (∀ k, st.held k ⊆ (st.bucketOf k).inFlight) ∧
      (∀ p ∈ st.pending, p.isAcquire → st.held p.key ⊆ (st.heap p.arc).inFlight) ∧
      (st.held key).card ≤ max.toNat := by
  have hinv :=
    Lts.run_invariant_of_meets (fun _ _ _ h hc hs => Inv.step h hc hs) (Inv.init clock) hm hr
  refine ⟨hinv.counted, fun p hp ha => ?_, ?_⟩
  · have hcounted := hinv.counted p.key
    rwa [show st.bucketOf p.key = st.heap p.arc by
      simp [State.bucketOf, hinv.attached p hp ha]] at hcounted
  · exact (Finset.card_le_card (hinv.counted key)).trans hinv.bounded

def oneSlot : Limits := { concurrency := some 1 }

/-- `reap` finds the bucket idle while `a` is in flight, and leaves it in place. -/
def spared : List Act :=
  [.acquire "k" oneSlot "a", .body 0, .tick 10, .reap "k" 5, .acquire "k" oneSlot "b", .body 0]

theorem slots_kept_spared :
    ∃ st, Lts.run (step "k" 1) (State.init 0) spared = some st ∧
      (∀ k, st.held k ⊆ (st.bucketOf k).inFlight) ∧
      (∀ p ∈ st.pending, p.isAcquire → st.held p.key ⊆ (st.heap p.arc).inFlight) ∧
      (st.held "k").card ≤ 1 := by
  obtain ⟨st, hst⟩ := Option.isSome_iff_exists.1
    (show (Lts.run (step "k" 1) (State.init 0) spared).isSome by decide)
  exact ⟨st, hst, slots_kept (by decide) hst⟩

/-- `reap` removes the bucket that `a` has looked up: `a` is admitted in a bucket nobody finds. -/
def detached : List Act :=
  [.acquire "k" oneSlot "a", .tick 10, .reap "k" 5, .body 0, .acquire "k" oneSlot "b", .body 0]

theorem slot_lost :
    ¬ ∀ acts st, Lts.run (step "k" 1) (State.init 0) acts = some st →
      st.held "k" ⊆ (st.bucketOf "k").inFlight ∧ (st.held "k").card ≤ 1 := by
  intro h
  have hrun : (Lts.run (step "k" 1) (State.init 0) detached).map (fun st => (st.held "k").card) =
      some 2 := by decide
  obtain ⟨st, hst, htwo⟩ := Option.map_eq_some_iff.1 hrun
  have := (h detached st hst).2
  omega

end Slots
end RateLimit
end Aisix
