import Aisix.Lts
import Aisix.RateLimit.Meter

/-!
# Aisix.RateLimit.Allowance

The cumulative allowance of the local store over whole runs: acquires, commits, post-stream tokens,
releases, `note_allowance`, reclamation with any threshold, and a clock that moves as it likes.

* `consumed_reap` — reclamation keeps a total unless it removes the bucket with it.
* `Inv.step` — the bucket holds the total of everything recorded, capped at `u64::MAX`, as long as
  `reap` does not meet spend in a bucket that nobody marked (`Marked`).
* `allowance_stays_spent` — what that means for later acquires.
* `allowance_refilled` — an unmarked bucket is reclaimed together with its spend.
-/

namespace Aisix
namespace RateLimit

namespace LocalStore

variable {st : LocalStore} {key : String} {now : Nat}

/-- The recorded total of a key; a key without a bucket has recorded nothing. -/
def consumed (st : LocalStore) (key : String) : Nat :=
  ((st.states key).map (·.consumedMicroUsd)).getD 0

theorem reading_total : st.reading now key .total = st.consumed key := by
  unfold reading stateFor consumed
  cases st.states key <;> rfl

theorem consumed_reap {idleFor : Nat}
    (h : ∀ s ∈ st.states key, 0 < s.consumedMicroUsd → retained (now - idleFor) s = true) :
    (st.reap now idleFor).consumed key = st.consumed key := by
  unfold consumed reap
  cases hs : st.states key with
  | none => simp [hs]
  | some s =>
    cases hr : retained (now - idleFor) s with
    | true => simp [hs, Option.filter, hr]
    | false =>
      have hzero : s.consumedMicroUsd = 0 := by
        by_contra hpos
        rw [h s hs (Nat.pos_of_ne_zero hpos)] at hr
        cases hr
      simp [hs, Option.filter, hr, hzero]

end LocalStore

namespace Allowance

structure State where
  clock : Nat
  store : LocalStore
  /-- The amounts that `commit` and `add_tokens` were given for the key, added up. -/
  recorded : Nat

inductive Act where
  | clock (now : Nat)
  | acquire (key : String) (limits : Limits) (member : String)
  | commit (key : String) (tokens : Nat) (member : String)
  | addTokens (key : String) (tokens : Nat)
  | release (key member : String)
  | noteAllowance (key : String) (limits : Limits)
  | reap (idleFor : Nat)

def State.init (clock : Nat) : State := ⟨clock, .empty, 0⟩

/-- The limits carry an allowance of at most `total`. -/
def Grants (total : Nat) (limits : Limits) : Prop := ∃ g ∈ limits.granted, g ≤ total

instance (total : Nat) (limits : Limits) : Decidable (Grants total limits) :=
  match h : limits.granted with
  | none => .isFalse (by rintro ⟨g, hg, -⟩; rw [h] at hg; cases hg)
  | some g => decidable_of_iff (g ≤ total)
      ⟨fun hle => ⟨g, h, hle⟩, fun ⟨g', hg', hle⟩ => Option.some.inj (h.symm.trans hg') ▸ hle⟩

section Key

variable (key : String) (total : Nat)

/-- One operation; every call on `key` that carries limits carries an allowance of at most `total`.
-/
def step (st : State) : Act → Option State
  | .clock now => some { st with clock := now }
  | .acquire k limits member =>
    if k = key → Grants total limits then
      some { st with store := (st.store.acquire st.clock k limits member).2 }
    else none
  | .commit k tokens member =>
    some { st with
      store := st.store.commit st.clock k tokens member
      recorded := if k = key then st.recorded + tokens else st.recorded }
  | .addTokens k tokens =>
    some { st with
      store := st.store.addTokens st.clock k tokens
      recorded := if k = key then st.recorded + tokens else st.recorded }
  | .release k member => some { st with store := st.store.release st.clock k member }
  | .noteAllowance k limits =>
    if k = key → Grants total limits then
      some { st with store := st.store.noteAllowance st.clock k limits }
    else none
  | .reap idleFor => some { st with store := st.store.reap st.clock idleFor }

/-- `reap` finds no bucket of the key with spend on it that is idle, holds no member and is not
marked as carrying an allowance. -/
def Marked (st : State) : Act → Prop
  | .reap idleFor => ∀ s ∈ st.store.states key, 0 < s.consumedMicroUsd → s.inFlight = ∅ →
      s.lastTouched < st.clock - idleFor → s.carriesAllowance = true
  | _ => True

instance (st : State) : (a : Act) → Decidable (Marked key st a)
  | .clock _ | .acquire _ _ _ | .commit _ _ _ | .addTokens _ _ | .release _ _ |
      .noteAllowance _ _ =>
    inferInstanceAs (Decidable True)
  | .reap idleFor => inferInstanceAs (Decidable (∀ s ∈ st.store.states key, 0 < s.consumedMicroUsd →
      s.inFlight = ∅ → s.lastTouched < st.clock - idleFor → s.carriesAllowance = true))

/-- The bucket holds what was recorded. -/
def Inv (st : State) : Prop := st.store.consumed key = min st.recorded u64Max

variable {key total}

theorem Inv.init {clock : Nat} : Inv key (State.init clock) := by
  simp [Inv, State.init, LocalStore.consumed, LocalStore.empty]

theorem Inv.keep {st : State} (h : Inv key st) {store : LocalStore}
    (hstore : store.reading st.clock key .total = st.store.reading st.clock key .total) :
    Inv key { st with store } := by
  rw [LocalStore.reading_total, LocalStore.reading_total] at hstore
  exact hstore.trans h

theorem Inv.record {st : State} (h : Inv key st) {store : LocalStore} {k : String} {tokens : Nat}
    (hstore : store.reading st.clock key .total =
      if k = key then satAdd (st.store.reading st.clock key .total) tokens
      else st.store.reading st.clock key .total) :
    Inv key ⟨st.clock, store, if k = key then st.recorded + tokens else st.recorded⟩ := by
  simp only [LocalStore.reading_total] at hstore
  unfold Inv at h ⊢
  dsimp only
  rw [hstore]
  split
  · exact satAdd_eq_min h
  · exact h

theorem Inv.step {st st' : State} {a : Act} (h : Inv key st) (hmarked : Marked key st a)
    (hs : step key total st a = some st') : Inv key st' ∧ st.recorded ≤ st'.recorded := by
  cases a with
  | clock now =>
    obtain rfl := Option.some.inj hs
    exact ⟨h, le_rfl⟩
  | acquire k limits member =>
    simp only [Allowance.step, Option.ite_none_right_eq_some, Option.some.injEq] at hs
    obtain ⟨-, rfl⟩ := hs
    exact ⟨h.keep (LocalStore.reading_acquire limits), le_rfl⟩
  | commit k tokens member =>
    obtain rfl := Option.some.inj hs
    refine ⟨h.record (LocalStore.reading_commit tokens), ?_⟩
    dsimp only; split <;> omega
  | addTokens k tokens =>
    obtain rfl := Option.some.inj hs
    have hcap : st.store.reading st.clock key .total ≤ u64Max := by
      rw [LocalStore.reading_total]
      exact h.le.trans (Nat.min_le_right ..)
    refine ⟨h.record (LocalStore.reading_addTokens hcap tokens), ?_⟩
    dsimp only; split <;> omega
  | release k member =>
    obtain rfl := Option.some.inj hs
    exact ⟨h.keep (LocalStore.reading_release st.clock), le_rfl⟩
  | noteAllowance k limits =>
    simp only [Allowance.step, Option.ite_none_right_eq_some, Option.some.injEq] at hs
    obtain ⟨-, rfl⟩ := hs
    exact ⟨h.keep (LocalStore.reading_noteAllowance limits), le_rfl⟩
  | reap idleFor =>
    obtain rfl := Option.some.inj hs
    refine ⟨(LocalStore.consumed_reap fun s hs hpos => ?_).trans h, le_rfl⟩
    -- an idle, empty bucket with spend is kept by its mark alone
    rcases s.inFlight.eq_empty_or_nonempty with hempty | hmember
    · rcases Nat.lt_or_ge s.lastTouched (st.clock - idleFor) with hidle | hfresh
      · have hcarries := hmarked s hs hpos hempty hidle
        simp [LocalStore.retained, hcarries, hpos]
      · simp [LocalStore.retained, hfresh]
    · simp [LocalStore.retained, hmember]

theorem Inv.refused {st : State} (h : Inv key st) (hspent : total ≤ st.recorded) {limits : Limits}
    (hgrants : Grants total limits) (member : String) :
    (st.store.acquire st.clock key limits member).1 =
      (KeyState.concurrencyGate limits (st.store.stateFor st.clock key) <|>
        some .allowanceExhausted) := by
  obtain ⟨g, hg, hle⟩ := hgrants
  have hg' : limits.granted = some g := hg
  have hgcap : g ≤ u64Max := by
    obtain ⟨u, -, rfl⟩ := Option.map_eq_some_iff.1 hg'
    have := u.toNat_lt
    simp only [u64Max]; omega
  have hconsumed : g ≤ (st.store.stateFor st.clock key).consumedMicroUsd := by
    rw [show (st.store.stateFor st.clock key).consumedMicroUsd = st.store.consumed key from
      LocalStore.reading_total, h]
    exact le_min (hle.trans hspent) hgcap
  have hall : KeyState.allowanceGate limits (st.store.stateFor st.clock key) =
      some .allowanceExhausted := by
    simp [KeyState.allowanceGate, hg', hconsumed]
  have hspec := KeyState.acquireBody_spec st.clock limits member (st.store.stateFor st.clock key)
  change (KeyState.acquireBody st.clock limits member (st.store.stateFor st.clock key)).1 = _
  rw [hspec.refusal, KeyState.refusal, hall]
  cases KeyState.concurrencyGate limits (st.store.stateFor st.clock key) <;> rfl

variable (key total) in
/-- Once the recorded amounts reach the allowance every later acquire is refused, and the recorded
total never goes down, in a run whose reaps meet only marked spend. -/
theorem allowance_stays_spent {clock : Nat} {acts later : List Act} {st st' : State}
    (hm : Lts.Meets (step key total) (Marked key) (State.init clock) (acts ++ later))
    (hr : Lts.run (step key total) (State.init clock) acts = some st)
    (hr' : Lts.run (step key total) st later = some st') :
    st.store.consumed key ≤ st'.store.consumed key ∧
      (total ≤ st.recorded → ∀ limits member, Grants total limits →
        (st'.store.acquire st'.clock key limits member).1 =
          (KeyState.concurrencyGate limits (st'.store.stateFor st'.clock key) <|>
            some .allowanceExhausted)) := by
  obtain ⟨hfirst, hlater⟩ := hm.of_append hr
  have hinv :=
    Lts.run_invariant_of_meets (fun _ _ _ h hc hs => (Inv.step h hc hs).1) Inv.init hfirst hr
  obtain ⟨hinv', hmono⟩ :=
    Lts.run_invariant_of_meets (I := fun s => Inv key s ∧ st.recorded ≤ s.recorded)
    (fun _ _ _ h hc hs => ⟨(h.1.step hc hs).1, h.2.trans (h.1.step hc hs).2⟩)
    ⟨hinv, le_rfl⟩ hlater hr'
  refine ⟨?_, fun hspent limits member hgrants => hinv'.refused (hspent.trans hmono) hgrants member⟩
  calc st.store.consumed key = min st.recorded u64Max := hinv
    _ ≤ min st'.recorded u64Max := min_le_min_right _ hmono
    _ = st'.store.consumed key := hinv'.symm

end Key

def allowed : Limits := { grantedMicroUsd := some 100 }

/-- The key's calls mark the bucket before spend arrives, and the bucket outlives a day of silence.
-/
def marked : List Act := [.acquire "k" allowed "a", .commit "k" 150 "a"]

theorem allowance_stays_spent_marked :
    ∃ st st', Lts.run (step "k" 100) (State.init 0) marked = some st ∧
      Lts.run (step "k" 100) st [.clock 90000, .reap 86700] = some st' ∧
      st.store.consumed "k" ≤ st'.store.consumed "k" ∧
        (100 ≤ st.recorded → ∀ limits member, Grants 100 limits →
          (st'.store.acquire st'.clock "k" limits member).1 =
            (KeyState.concurrencyGate limits (st'.store.stateFor st'.clock "k") <|>
              some .allowanceExhausted)) := by
  obtain ⟨st, hst⟩ := Option.isSome_iff_exists.1
    (show (Lts.run (step "k" 100) (State.init 0) marked).isSome by decide)
  have hall : ((Lts.run (step "k" 100) (State.init 0) marked).bind fun st =>
      Lts.run (step "k" 100) st [.clock 90000, .reap 86700]).isSome := by decide
  rw [hst] at hall
  obtain ⟨st', hst'⟩ := Option.isSome_iff_exists.1 hall
  exact ⟨st, st', hst, hst', allowance_stays_spent "k" 100 (by decide) hst hst'⟩

/-- Spend that arrives after the bucket was reclaimed opens a new one, which nobody marks. -/
def unmarked : List Act :=
  [.acquire "k" allowed "a", .release "k" "a", .clock 90000, .reap 86700, .addTokens "k" 150,
    .clock 180000, .reap 86700]

theorem allowance_refilled :
    ¬ ∀ acts st limits member, Lts.run (step "k" 100) (State.init 0) acts = some st →
      100 ≤ st.recorded → Grants 100 limits →
      (st.store.acquire st.clock "k" limits member).1.isSome := by
  intro h
  have hrun : (Lts.run (step "k" 100) (State.init 0) unmarked).map (fun st =>
      (st.recorded, (st.store.acquire st.clock "k" allowed "b").1)) = some (150, none) := by decide
  obtain ⟨st, hst, hout⟩ := Option.map_eq_some_iff.1 hrun
  obtain ⟨hrecorded, hadmitted⟩ := Prod.mk.inj hout
  have hrefused := h unmarked st allowed "b" hst (by omega) (by decide)
  rw [hadmitted] at hrefused
  cases hrefused
end Allowance
end RateLimit
end Aisix
