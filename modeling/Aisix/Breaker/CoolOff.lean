import Aisix.Breaker.State
import Mathlib.Algebra.Order.Ring.Nat

/-!
# Aisix.Breaker.CoolOff

The breaker over whole runs: it closes on fresh evidence, stays closed, has one prober and does not
latch (`Behaves`), in every run that keeps clear of three orders of steps (`Clear`).

* An `open` that would move the deadline of a prober at work back.
* A claim taken, or kept by a prober about to hold off, after the breaker closed.
* More than `2 ^ 64` openings while one command or ping is out, or as many claims.
-/

namespace Aisix
namespace Breaker

open Lts

variable {cfg : Config} {s s' : System} {a : Label}

/-- The prober `p` is alive and the claim is its own. -/
def InCharge (s : System) (p : Nat) (t : Prober) : Prop :=
  s.probers p = some t ∧ s.breaker.prober = some t.claim

/-- The evidence a step closes the breaker on. -/
def evidence (s : System) : Label → Option Evidence
  | .succeed id =>
    match s.commands id with
    | some (.running e) => some e
    | _ => none
  | .close p =>
    match s.probers p with
    | some ⟨_, .answered e⟩ => some e
    | _ => none
  | _ => none

/-- What one step of the system may do to the breaker. -/
structure Behaves (cfg : Config) (s : System) (a : Label) (s' : System) : Prop where
  /-- It closes on a success that began after the last opening. -/
  closesOnFresh : s.breaker.openUntil ≠ none → s'.breaker.openUntil = none →
    ∃ e, evidence s a = some e ∧ e.began = s.opens
  /-- Closed, it admits every command, and opens by `open` or after a ping that failed since. -/
  admitsClosed : s.breaker.openUntil = none →
    ∀ now, ((s.breaker.admitCaller cfg.window now).1).isSome
  staysClosed : s.breaker.openUntil = none → s'.breaker.openUntil ≠ none →
    (∃ id, a = .trip id) ∨ ∃ p c, a = .hold p ∧ s.probers p = some ⟨c, .holding (some s.closes)⟩
  /-- One prober at most can extend the deadline or close the breaker. -/
  onlyInCharge : ∀ p, a = .hold p ∨ a = .close p →
    s'.breaker.openUntil ≠ s.breaker.openUntil → ∃ t, InCharge s p t
  oneInCharge : ∀ p p' t t', InCharge s p t → InCharge s p' t' → p = p'
  /-- No command is admitted before a prober's deadline, unless the breaker closed since. -/
  heldOff : ∀ id, a = .arrive id → (s.breaker.admitCaller cfg.window s.now).1.isSome →
    ∀ d ∈ s.held, d ≤ s.now
  /-- Without a prober, a command that comes once the deadline has passed is admitted. -/
  notLatched : (∀ p, s.probers p = none) → ∀ deadline, s.breaker.openUntil = some deadline →
    ∀ d, deadline ≤ s.now + d → ∀ id, s.commands id = none →
      ∃ s₁ s₂ e, step cfg s (.tick d) = some s₁ ∧ step cfg s₁ (.arrive id) = some s₂ ∧
        s₂.commands id = some (.running e)

/-- The step keeps clear of the orders in which the breaker latches or flaps. -/
def Clear (cfg : Config) (s : System) : Label → Prop
  | .trip _ => ∀ deadline, s.breaker.openUntil = some deadline → deadline ≤ s.now + cfg.window
  | .claim _ _ => s.breaker.prober = none →
    s.breaker.openUntil ≠ none ∧ s.breaker.claims.toNat + 1 < 2 ^ 64
  | .succeed id => ∀ e, s.commands id = some (.running e) → s.opens < e.began + 2 ^ 64 ∧
    (e.began = s.opens → s.breaker.openUntil ≠ none →
      ∀ p t failedAt, InCharge s p t → t.phase ≠ .holding failedAt)
  | .close p => ∀ c e, s.probers p = some ⟨c, .answered e⟩ → s.opens < e.began + 2 ^ 64
  | _ => True

section Invariant

def Evidence.Sound (opens : Nat) (e : Evidence) : Prop :=
  e.seen = UInt64.ofNat e.began ∧ e.began ≤ opens

def Phase.evidence : Phase → Option Evidence
  | .pinging e => some e
  | .answered e => some e
  | _ => none

/-- Where a prober in charge can be while the breaker is closed. -/
def Phase.Current (opens closes : Nat) : Phase → Prop
  | .holding failedAt => failedAt = some closes
  | .sleeping _ => True
  | .pinging e => e.began = opens
  | .answered e => e.began = opens

structure Inv (cfg : Config) (s : System) : Prop where
  generation : s.breaker.generation = UInt64.ofNat s.opens
  commands : ∀ id e, s.commands id = some (.running e) → e.Sound s.opens
  probers : ∀ p t, s.probers p = some t → t.claim.toNat ≤ s.breaker.claims.toNat ∧
    ∀ e, t.phase.evidence = some e → e.Sound s.opens
  unique : ∀ p p' t t', s.probers p = some t → s.probers p' = some t' → t.claim = t'.claim → p = p'
  deadline : ∀ u, s.breaker.openUntil = some u → u ≤ s.now + (cfg.window + cfg.probeBudget)
  held : ∀ d ∈ s.held, ∃ u, s.breaker.openUntil = some u ∧ d ≤ u
  current : s.breaker.openUntil = none → ∀ p t, InCharge s p t → t.phase.Current s.opens s.closes
  /-- While a prober in charge asks with an old generation, no command can close the breaker. -/
  outdated : ∀ p t e, InCharge s p t → t.phase.evidence = some e → e.began ≠ s.opens →
    s.breaker.openUntil ≠ none ∧ ∀ id e', s.commands id = some (.running e') → e'.began ≠ s.opens

theorem inv_init : Inv cfg init where
  generation := rfl
  commands := by intro id e h; cases h
  probers := by intro p t h; cases h
  unique := by intro p p' t t' h; cases h
  deadline := by intro u h; cases h
  held := by intro d h; cases h
  current := by intro _ p t h; cases h.1
  outdated := by intro p t e h; cases h.1

theorem Evidence.Sound.mono {opens opens' : Nat} {e : Evidence} (h : e.Sound opens)
    (hle : opens ≤ opens') :
    e.Sound opens' := ⟨h.1, h.2.trans hle⟩

/-- A generation names one opening, as long as the counter has not gone round. -/
theorem Evidence.Sound.seen_iff {opens : Nat} {e : Evidence} (h : e.Sound opens)
    (hlt : opens < e.began + 2 ^ 64) : UInt64.ofNat opens = e.seen ↔ e.began = opens := by
  obtain ⟨hseen, hle⟩ := h
  rw [hseen]
  constructor
  · intro heq
    have := congrArg UInt64.toNat heq
    simp only [UInt64.toNat_ofNat'] at this
    omega
  · rintro rfl
    rfl

theorem Inv.endCommand (hi : Inv cfg s) (id : Nat) {c : Option Command}
    (hc : ∀ e, c ≠ some (.running e)) : Inv cfg (s.setCommand id c) where
  generation := hi.generation
  commands id' e h := by
    rw [System.setCommand_commands] at h
    split at h
    · exact absurd h (hc e)
    · exact hi.commands id' e h
  probers := hi.probers
  unique := hi.unique
  deadline := hi.deadline
  held := hi.held
  current := hi.current
  outdated p t e ht he hne := by
    obtain ⟨hopen, hfresh⟩ := hi.outdated p t e ht he hne
    refine ⟨hopen, fun id' e' h => ?_⟩
    rw [System.setCommand_commands] at h
    split at h
    · exact absurd h (hc e')
    · exact hfresh id' e' h

theorem Inv.moveProber (hi : Inv cfg s) {p : Nat} {t : Prober} (ht : s.probers p = some t)
    {n : Option Phase}
    (hsound : ∀ phase e, n = some phase → phase.evidence = some e → e.Sound s.opens)
    (hcurrent : InCharge s p t → s.breaker.openUntil = none → ∀ phase, n = some phase →
      phase.Current s.opens s.closes)
    (houtdated : InCharge s p t → ∀ phase e, n = some phase → phase.evidence = some e →
      e.began ≠ s.opens → t.phase.evidence = some e) :
    Inv cfg (s.setProber p (n.map (Prober.mk t.claim))) := by
  have hlook : ∀ {p' t'}, (s.setProber p (n.map (Prober.mk t.claim))).probers p' = some t' →
      (p' = p ∧ ∃ phase, n = some phase ∧ t' = ⟨t.claim, phase⟩) ∨ s.probers p' = some t' := by
    intro p' t' h
    rw [System.setProber_probers] at h
    split at h
    · rename_i heq
      obtain ⟨phase, hphase, rfl⟩ := Option.map_eq_some_iff.1 h
      exact .inl ⟨heq, phase, hphase, rfl⟩
    · exact .inr h
  have hclaim : ∀ {p' t'}, (s.setProber p (n.map (Prober.mk t.claim))).probers p' = some t' →
      ∃ t'', s.probers p' = some t'' ∧ t''.claim = t'.claim := by
    intro p' t' h
    rcases hlook h with ⟨rfl, phase, -, rfl⟩ | h
    · exact ⟨t, ht, rfl⟩
    · exact ⟨t', h, rfl⟩
  refine ⟨hi.generation, hi.commands, ?_, ?_, hi.deadline, hi.held, ?_, ?_⟩
  · intro p' t' h
    rcases hlook h with ⟨rfl, phase, hphase, rfl⟩ | h
    · exact ⟨(hi.probers p' t ht).1, fun e => hsound phase e hphase⟩
    · exact hi.probers p' t' h
  · intro p' p'' t' t'' h' h'' heq
    obtain ⟨u', hu', hc'⟩ := hclaim h'
    obtain ⟨u'', hu'', hc''⟩ := hclaim h''
    exact hi.unique p' p'' u' u'' hu' hu'' (hc'.trans (heq.trans hc''.symm))
  · intro hnone p' t' ⟨h, hprober⟩
    rcases hlook h with ⟨rfl, phase, hphase, rfl⟩ | h
    · exact hcurrent ⟨ht, hprober⟩ hnone phase hphase
    · exact hi.current hnone p' t' ⟨h, hprober⟩
  · intro p' t' e ⟨h, hprober⟩ he hne
    rcases hlook h with ⟨rfl, phase, hphase, rfl⟩ | h
    · exact hi.outdated p' t e ⟨ht, hprober⟩ (houtdated ⟨ht, hprober⟩ phase e hphase he hne) hne
    · exact hi.outdated p' t' e ⟨h, hprober⟩ he hne

theorem Inv.endProber (hi : Inv cfg s) {p : Nat} {t : Prober} (ht : s.probers p = some t) :
    Inv cfg (s.setProber p none) :=
  hi.moveProber ht (n := none) (by simp) (by simp) (by simp)

theorem Inv.tick (hi : Inv cfg s) (d : Nat) : Inv cfg { s with now := s.now + d } where
  generation := hi.generation
  commands := hi.commands
  probers := hi.probers
  unique := hi.unique
  deadline u hu := (hi.deadline u hu).trans (by dsimp only; omega)
  held := hi.held
  current := hi.current
  outdated := hi.outdated

theorem Inv.rearm (hi : Inv cfg s) {u : Nat} (hu : s.breaker.openUntil = some u)
    (hpast : u ≤ s.now) : Inv cfg { s with breaker :=
      { s.breaker with prober := none, openUntil := some (s.now + cfg.window) } } where
  generation := hi.generation
  commands := hi.commands
  probers := hi.probers
  unique := hi.unique
  deadline u' hu' := by
    obtain rfl := Option.some.inj hu'
    dsimp only
    omega
  held d hd := by
    obtain ⟨u', hu', hle⟩ := hi.held d hd
    obtain rfl := Option.some.inj (hu.symm.trans hu')
    exact ⟨_, rfl, by omega⟩
  current h := by cases h
  outdated p t e h := by cases h.2

theorem Inv.startCommand (hi : Inv cfg s) (id : Nat)
    (hno : ∀ p t e, InCharge s p t → t.phase.evidence = some e → e.began = s.opens) :
    Inv cfg (s.setCommand id (some (.running ⟨s.breaker.generation, s.opens⟩))) where
  generation := hi.generation
  commands id' e h := by
    rw [System.setCommand_commands] at h
    split at h
    · obtain rfl : _ = e := Command.running.inj (Option.some.inj h)
      exact ⟨hi.generation, le_refl _⟩
    · exact hi.commands id' e h
  probers := hi.probers
  unique := hi.unique
  deadline := hi.deadline
  held := hi.held
  current := hi.current
  outdated p t e ht he hne := absurd (hno p t e ht he) hne

theorem Inv.close (hi : Inv cfg s) {b : BreakerState} (hnone : b.openUntil = none)
    (hgeneration : b.generation = s.breaker.generation) (hclaims : b.claims = s.breaker.claims)
    (hcharge : ∀ p t, s.probers p = some t → b.prober = some t.claim →
      t.phase.Current s.opens (s.closed b).closes ∧
        ∀ e, t.phase.evidence = some e → e.began = s.opens) : Inv cfg (s.closed b) where
  generation := by simpa [hgeneration] using hi.generation
  commands := by simpa using hi.commands
  probers := by simpa [hclaims] using hi.probers
  unique := by simpa using hi.unique
  deadline := by simp [hnone]
  held d hd := by
    unfold System.closed at hd
    split at hd
    · cases hd
    · rename_i hsame
      obtain ⟨u, hu, -⟩ := hi.held d hd
      exact absurd ⟨by rw [hu]; rfl, hnone⟩ hsame
  current _ p t ht := by
    obtain ⟨h, hprober⟩ := ht
    rw [System.closed_probers] at h
    rw [System.closed_breaker] at hprober
    rw [System.closed_opens]
    exact (hcharge p t h hprober).1
  outdated p t e ht he hne := by
    obtain ⟨h, hprober⟩ := ht
    rw [System.closed_probers] at h
    rw [System.closed_breaker] at hprober
    rw [System.closed_opens] at hne
    exact absurd ((hcharge p t h hprober).2 e he) hne

theorem Inv.open (hi : Inv cfg s)
    (hclear : ∀ u, s.breaker.openUntil = some u → u ≤ s.now + cfg.window) :
    Inv cfg { s with breaker := s.breaker.open cfg.window s.now, opens := s.opens + 1 } where
  generation := by
    change s.breaker.generation + 1 = UInt64.ofNat (s.opens + 1)
    rw [hi.generation]
    simp
  commands id e h := (hi.commands id e h).mono (Nat.le_succ _)
  probers p t h :=
    ⟨(hi.probers p t h).1, fun e he => ((hi.probers p t h).2 e he).mono (Nat.le_succ _)⟩
  unique := hi.unique
  deadline u hu := by
    obtain rfl := Option.some.inj hu
    dsimp only
    omega
  held d hd := by
    obtain ⟨u, hu, hle⟩ := hi.held d hd
    exact ⟨_, rfl, hle.trans (hclear u hu)⟩
  current h := by cases h
  outdated p t e _ _ _ := by
    refine ⟨Option.some_ne_none _, fun id e' h => ?_⟩
    have := (hi.commands id e' h).2
    dsimp only
    omega

theorem Inv.claim (hi : Inv cfg s) {p : Nat} (hopen : s.breaker.openUntil ≠ none)
    (hlt : s.breaker.claims.toNat + 1 < 2 ^ 64) :
    Inv cfg ({ s with breaker := { s.breaker with
        claims := s.breaker.claims + 1, prober := some (s.breaker.claims + 1) } }.setProber p
      (some ⟨s.breaker.claims + 1, .holding none⟩)) := by
  have hclaims : (s.breaker.claims + 1).toNat = s.breaker.claims.toNat + 1 := by
    rw [UInt64.toNat_add]
    exact Nat.mod_eq_of_lt hlt
  have hold : ∀ p' t, s.probers p' = some t → t.claim ≠ s.breaker.claims + 1 := by
    intro p' t h heq
    have := (hi.probers p' t h).1
    rw [heq, hclaims] at this
    omega
  have hlook :
      ∀ {q t}, (if q = p then some ⟨s.breaker.claims + 1, .holding none⟩ else s.probers q) =
      some t → (q = p ∧ t = ⟨s.breaker.claims + 1, .holding none⟩) ∨ s.probers q = some t := by
    intro q t h
    split at h
    · exact .inl ⟨‹_›, (Option.some.inj h).symm⟩
    · exact .inr h
  refine ⟨hi.generation, hi.commands, ?_, ?_, hi.deadline, hi.held, fun h => absurd h hopen, ?_⟩
  · intro q t h
    rw [System.setProber_probers] at h
    rcases hlook h with ⟨rfl, rfl⟩ | h
    · exact ⟨le_refl _, by rintro e ⟨⟩⟩
    · refine ⟨(hi.probers q t h).1.trans ?_, (hi.probers q t h).2⟩
      change _ ≤ (s.breaker.claims + 1).toNat
      omega
  · intro q q' t t' h h' heq
    rw [System.setProber_probers] at h h'
    rcases hlook h with ⟨rfl, rfl⟩ | hq
    · rcases hlook h' with ⟨rfl, -⟩ | hq'
      · rfl
      · exact absurd heq.symm (hold q' t' hq')
    · rcases hlook h' with ⟨rfl, rfl⟩ | hq'
      · exact absurd heq (hold q t hq)
      · exact hi.unique q q' t t' hq hq' heq
  · intro q t e ⟨h, hprober⟩ he
    rw [System.setProber_probers] at h
    rcases hlook h with ⟨rfl, rfl⟩ | h
    · cases he
    · exact absurd (Option.some.inj hprober).symm (hold q t h)

theorem Inv.hold (hi : Inv cfg s) :
    Inv cfg { s with
      breaker := { s.breaker with openUntil := some (s.now + (cfg.window + cfg.probeBudget)) },
      held := (s.now + (cfg.window + cfg.probeBudget)) :: s.held } where
  generation := hi.generation
  commands := hi.commands
  probers := hi.probers
  unique := hi.unique
  deadline u hu := by
    obtain rfl := Option.some.inj hu
    exact le_refl _
  held d hd := by
    refine ⟨_, rfl, ?_⟩
    rcases List.mem_cons.1 hd with rfl | hd
    · exact le_refl _
    · obtain ⟨u, hu, hle⟩ := hi.held d hd
      exact hle.trans (hi.deadline u hu)
  current h := by cases h
  outdated p t e ht he hne := ⟨Option.some_ne_none _, (hi.outdated p t e ht he hne).2⟩

theorem Inv.succeed (hi : Inv cfg s) {id : Nat} {e : Evidence}
    (hcmd : s.commands id = some (.running e)) (hclear : Clear cfg s (.succeed id)) :
    Inv cfg (s.closed (s.breaker.closeUnlessReopened e.seen)) := by
  obtain ⟨hlt, hhold⟩ := hclear e hcmd
  have hseen := (hi.commands id e hcmd).seen_iff hlt
  rw [← hi.generation] at hseen
  unfold BreakerState.closeUnlessReopened
  by_cases hgen : s.breaker.generation = e.seen
  · have hbegan := hseen.1 hgen
    rw [if_pos hgen]
    refine hi.close rfl rfl rfl fun p t ht hprober => ?_
    have hcharge : InCharge s p t := ⟨ht, hprober⟩
    have hfresh : ∀ e', t.phase.evidence = some e' → e'.began = s.opens := by
      intro e' he'
      by_contra hne
      exact (hi.outdated p t e' hcharge he' hne).2 id e hcmd hbegan
    refine ⟨?_, hfresh⟩
    cases hopen : s.breaker.openUntil with
    | none =>
      have hcloses : (s.closed { s.breaker with openUntil := none }).closes = s.closes := by
        simp [System.closed, hopen]
      rw [hcloses]
      exact hi.current hopen p t hcharge
    | some u =>
      cases hphase : t.phase with
      | holding failedAt =>
        exact absurd hphase
          (hhold hbegan (by rw [hopen]; exact Option.some_ne_none u) p t failedAt hcharge)
      | sleeping wake => trivial
      | pinging e' => exact hfresh e' (by rw [hphase]; rfl)
      | answered e' => exact hfresh e' (by rw [hphase]; rfl)
  · rw [if_neg hgen]
    have hsame : s.closed s.breaker = s := by
      unfold System.closed
      rw [if_neg]
      rintro ⟨hsome, hnone⟩
      rw [hnone] at hsome
      cases hsome
    rw [hsame]
    exact hi

theorem step_inv (hi : Inv cfg s) {a : Label} (hclear : Clear cfg s a)
    (h : step cfg s a = some s') :
    Inv cfg s' := by
  cases a with
  | tick d =>
    obtain rfl := Option.some.inj h
    exact hi.tick d
  | arrive id =>
    simp only [step] at h
    split at h
    · cases h
    · unfold BreakerState.admitCaller at h
      cases hopen : s.breaker.openUntil with
      | none =>
        simp only [hopen] at h
        obtain rfl := Option.some.inj h
        refine hi.startCommand id fun p t e ht he => ?_
        by_contra hne
        exact (hi.outdated p t e ht he hne).1 hopen
      | some u =>
        simp only [hopen] at h
        by_cases hlt : s.now < u
        · rw [if_pos hlt] at h
          obtain rfl := Option.some.inj h
          exact hi
        · rw [if_neg hlt] at h
          obtain rfl := Option.some.inj h
          exact (hi.rearm hopen (by omega)).startCommand id fun p t e ht => by cases ht.2
  | succeed id =>
    simp only [step] at h
    split at h
    · rename_i e hcmd
      obtain rfl := Option.some.inj h
      exact (hi.succeed hcmd hclear).endCommand id (by simp)
    · cases h
  | fail id =>
    simp only [step] at h
    split at h
    · obtain rfl := Option.some.inj h
      exact hi.endCommand id (by simp)
    · cases h
  | trip id =>
    simp only [step] at h
    split at h
    · obtain rfl := Option.some.inj h
      exact (hi.open hclear).endCommand id (by simp)
    · cases h
  | claim id p =>
    simp only [step] at h
    split at h
    · unfold BreakerState.claimProber at h
      by_cases hprober : s.breaker.prober.isSome
      · rw [if_pos hprober] at h
        obtain rfl := Option.some.inj h
        exact hi.endCommand id (by simp)
      · rw [if_neg hprober] at h
        obtain rfl := Option.some.inj h
        obtain ⟨hopen, hlt⟩ := hclear (by simpa using hprober)
        exact (hi.endCommand id (c := none) (by simp)).claim hopen hlt
    · cases h
  | hold p =>
    simp only [step] at h
    split at h
    · rename_i c failedAt ht
      unfold BreakerState.holdOff at h
      by_cases hprober : s.breaker.prober = some c
      · rw [if_pos hprober] at h
        obtain rfl := Option.some.inj h
        refine (hi.hold).moveProber (t := ⟨c, .holding failedAt⟩) ht
          (n := some (.sleeping (s.now + cfg.window))) ?_ ?_ ?_
        · rintro phase e ⟨⟩ ⟨⟩
        · rintro - -  phase ⟨⟩
          trivial
        · rintro - phase e ⟨⟩ ⟨⟩
      · rw [if_neg hprober] at h
        obtain rfl := Option.some.inj h
        exact hi.endProber ht
    · cases h
  | ask p =>
    simp only [step] at h
    split at h
    · rename_i c wake ht
      by_cases hwake : wake ≤ s.now
      · rw [if_pos hwake] at h
        obtain rfl := Option.some.inj h
        refine hi.moveProber ht (n := some (.pinging ⟨s.breaker.generation, s.opens⟩)) ?_ ?_ ?_
        · rintro phase e ⟨⟩ ⟨⟩
          exact ⟨hi.generation, le_refl _⟩
        · rintro - - phase ⟨⟩
          rfl
        · rintro - phase e ⟨⟩ ⟨⟩ hne
          exact absurd rfl hne
      · rw [if_neg hwake] at h
        cases h
    · cases h
  | pong p =>
    simp only [step] at h
    split at h
    · rename_i c e ht
      obtain rfl := Option.some.inj h
      refine hi.moveProber ht (n := some (.answered e)) ?_ ?_ ?_
      · rintro phase e' ⟨⟩ ⟨⟩
        exact (hi.probers p _ ht).2 e rfl
      · rintro hcharge hnone phase ⟨⟩
        exact hi.current hnone p _ hcharge
      · rintro - phase e' ⟨⟩ ⟨⟩ -
        rfl
    · cases h
  | noPong p =>
    simp only [step] at h
    split at h
    · rename_i c e ht
      obtain rfl := Option.some.inj h
      refine hi.moveProber ht (n := some (.holding (some s.closes))) ?_ ?_ ?_
      · rintro phase e' ⟨⟩ ⟨⟩
      · rintro - - phase ⟨⟩
        rfl
      · rintro - phase e' ⟨⟩ ⟨⟩
    · cases h
  | close p =>
    simp only [step] at h
    split at h
    · rename_i c e ht
      unfold BreakerState.closeFromProber at h
      by_cases hclose : s.breaker.prober = some c ∧ s.breaker.generation = e.seen
      · rw [if_pos hclose] at h
        obtain rfl := Option.some.inj h
        have hinv : Inv cfg (s.closed { s.breaker with openUntil := none, prober := none }) :=
          hi.close rfl rfl rfl fun q t _ hprober => by cases hprober
        exact hinv.endProber (by simpa using ht)
      · rw [if_neg hclose] at h
        obtain rfl := Option.some.inj h
        have hseen := ((hi.probers p _ ht).2 e rfl).seen_iff (hclear c e ht)
        rw [← hi.generation] at hseen
        refine hi.moveProber ht (n := some (.holding none)) ?_ ?_ ?_
        · rintro phase e' ⟨⟩ ⟨⟩
        · rintro hcharge hnone phase ⟨⟩
          -- an answer that may not close is older than an opening
          have hne : e.began ≠ s.opens := fun h => hclose ⟨hcharge.2, hseen.2 h⟩
          exact absurd hnone (hi.outdated p _ e hcharge rfl hne).1
        · rintro - phase e' ⟨⟩ ⟨⟩
    · cases h
  | drop p =>
    simp only [step] at h
    split at h
    · rename_i t ht
      obtain rfl := Option.some.inj h
      exact hi.endProber ht
    · cases h

end Invariant

section Steps

/-- What a step does to the deadline, and who does it. -/
inductive Moved (s : System) (a : Label) (s' : System) : Prop where
  | same (h : s'.breaker.openUntil = s.breaker.openUntil)
  | rearmed (id : Nat) (ha : a = .arrive id) (hopen : s.breaker.openUntil ≠ none)
      (hopen' : s'.breaker.openUntil ≠ none)
  | opened (id : Nat) (ha : a = .trip id) (hopen : s'.breaker.openUntil ≠ none)
  | extended (p : Nat) (c : UInt64) (failedAt : Option Nat) (ha : a = .hold p)
      (ht : InCharge s p ⟨c, .holding failedAt⟩) (hopen : s'.breaker.openUntil ≠ none)
  | closed (e : Evidence) (he : evidence s a = some e) (hseen : s.breaker.generation = e.seen)
      (hcharge : ∀ p, a = .close p → ∃ t, InCharge s p t) (hnone : s'.breaker.openUntil = none)

theorem moved_of_step (h : step cfg s a = some s') : Moved s a s' := by
  cases a with
  | tick d =>
    obtain rfl := Option.some.inj h
    exact .same rfl
  | arrive id =>
    simp only [step] at h
    split at h
    · cases h
    · unfold BreakerState.admitCaller at h
      cases hopen : s.breaker.openUntil with
      | none =>
        simp only [hopen] at h
        obtain rfl := Option.some.inj h
        exact .same rfl
      | some u =>
        simp only [hopen] at h
        split_ifs at h
        · obtain rfl := Option.some.inj h
          exact .same rfl
        · obtain rfl := Option.some.inj h
          exact .rearmed id rfl (by rw [hopen]; exact Option.some_ne_none u) (Option.some_ne_none _)
  | succeed id =>
    simp only [step] at h
    split at h
    · rename_i e hcmd
      obtain rfl := Option.some.inj h
      by_cases hgen : s.breaker.generation = e.seen
      · refine .closed e (by rw [evidence, hcmd]) hgen (by rintro p ⟨⟩) ?_
        simp [BreakerState.closeUnlessReopened, hgen]
      · exact .same (by simp [BreakerState.closeUnlessReopened, hgen])
    · cases h
  | fail id =>
    simp only [step] at h
    split at h
    · obtain rfl := Option.some.inj h
      exact .same rfl
    · cases h
  | trip id =>
    simp only [step] at h
    split at h
    · obtain rfl := Option.some.inj h
      exact .opened id rfl (Option.some_ne_none _)
    · cases h
  | claim id p =>
    simp only [step, BreakerState.claimProber] at h
    split at h
    · split_ifs at h
      · obtain rfl := Option.some.inj h
        exact .same rfl
      · obtain rfl := Option.some.inj h
        exact .same rfl
    · cases h
  | hold p =>
    simp only [step, BreakerState.holdOff] at h
    split at h
    · rename_i c failedAt ht
      split_ifs at h with hprober
      · obtain rfl := Option.some.inj h
        exact .extended p c failedAt rfl ⟨ht, hprober⟩ (Option.some_ne_none _)
      · obtain rfl := Option.some.inj h
        exact .same rfl
    · cases h
  | ask p =>
    simp only [step] at h
    split at h
    · split_ifs at h
      obtain rfl := Option.some.inj h
      exact .same rfl
    · cases h
  | pong p =>
    simp only [step] at h
    split at h
    · obtain rfl := Option.some.inj h
      exact .same rfl
    · cases h
  | noPong p =>
    simp only [step] at h
    split at h
    · obtain rfl := Option.some.inj h
      exact .same rfl
    · cases h
  | close p =>
    simp only [step, BreakerState.closeFromProber] at h
    split at h
    · rename_i c e ht
      split_ifs at h with hclose
      · obtain rfl := Option.some.inj h
        refine .closed e (by rw [evidence, ht]) hclose.2 ?_ (by simp)
        rintro q ⟨⟩
        exact ⟨_, ht, hclose.1⟩
      · obtain rfl := Option.some.inj h
        exact .same rfl
    · cases h
  | drop p =>
    simp only [step] at h
    split at h
    · obtain rfl := Option.some.inj h
      exact .same rfl
    · cases h

theorem fresh_of_seen (hi : Inv cfg s) (hclear : Clear cfg s a) {e : Evidence}
    (he : evidence s a = some e) (hseen : s.breaker.generation = e.seen) : e.began = s.opens := by
  rw [hi.generation] at hseen
  cases a with
  | succeed id =>
    simp only [evidence] at he
    split at he
    · rename_i e' hcmd
      obtain rfl := Option.some.inj he
      exact ((hi.commands id _ hcmd).seen_iff (hclear _ hcmd).1).1 hseen
    · cases he
  | close p =>
    simp only [evidence] at he
    split at he
    · rename_i c e' ht
      obtain rfl := Option.some.inj he
      exact (((hi.probers p _ ht).2 _ rfl).seen_iff (hclear c _ ht)).1 hseen
    · cases he
  | _ => cases he

theorem admit_closed {st : BreakerState} (h : st.openUntil = none) (window now : Nat) :
    (st.admitCaller window now).1.isSome := by
  simp [BreakerState.admitCaller, h]

theorem step_admit_past (cfg : Config) {id u : Nat} (hid : s.commands id = none)
    (hu : s.breaker.openUntil = some u)
    (hpast : u ≤ s.now) : ∃ s', step cfg s (.arrive id) = some s' ∧
      s'.commands id = some (.running ⟨s.breaker.generation, s.opens⟩) := by
  simp only [step, hid, BreakerState.admitCaller, hu, if_neg (Nat.not_lt.2 hpast)]
  exact ⟨_, rfl, by rw [System.setCommand_commands, if_pos rfl]⟩

theorem behaves_of_inv (hi : Inv cfg s) (hclear : Clear cfg s a) (h : step cfg s a = some s') :
    Behaves cfg s a s' where
  closesOnFresh hopen hnone := by
    cases moved_of_step h with
    | same hsame => exact absurd (hsame ▸ hnone) hopen
    | rearmed id ha hopen hopen' => exact absurd hnone hopen'
    | opened id ha hopen' => exact absurd hnone hopen'
    | extended p c failedAt ha ht hopen' => exact absurd hnone hopen'
    | closed e he hseen hcharge hnone' => exact ⟨e, he, fresh_of_seen hi hclear he hseen⟩
  admitsClosed hnone now := admit_closed hnone cfg.window now
  staysClosed hnone hopen := by
    cases moved_of_step h with
    | same hsame => exact absurd (hsame.trans hnone) hopen
    | rearmed id ha hopen' hopen'' => exact absurd hnone hopen'
    | opened id ha hopen' => exact .inl ⟨id, ha⟩
    | extended p c failedAt ha ht hopen' =>
      have hcurrent : failedAt = some s.closes := hi.current hnone p _ ht
      exact .inr ⟨p, c, ha, hcurrent ▸ ht.1⟩
    | closed e he hseen hcharge hnone' => exact absurd hnone' hopen
  onlyInCharge p ha hne := by
    cases moved_of_step h with
    | same hsame => exact absurd hsame hne
    | rearmed id ha' => rcases ha with rfl | rfl <;> cases ha'
    | opened id ha' => rcases ha with rfl | rfl <;> cases ha'
    | extended q c failedAt ha' ht =>
      rcases ha with rfl | rfl
      · cases ha'
        exact ⟨_, ht⟩
      · cases ha'
    | closed e he hseen hcharge =>
      rcases ha with rfl | rfl
      · cases he
      · exact hcharge p rfl
  oneInCharge p p' t t' ht ht' :=
    hi.unique p p' t t' ht.1 ht'.1 (Option.some.inj (ht.2.symm.trans ht'.2))
  heldOff id _ hadmitted d hd := by
    obtain ⟨u, hu, hle⟩ := hi.held d hd
    by_contra hlt
    have hnow : s.now < u := by omega
    simp [BreakerState.admitCaller, hu, hnow] at hadmitted
  notLatched _ u hu d hd id hid := by
    obtain ⟨s₂, hstep, hadmitted⟩ :=
      step_admit_past cfg (s := { s with now := s.now + d }) hid hu hd
    exact ⟨_, s₂, _, rfl, hstep, hadmitted⟩

/-- The breaker behaves in every state of every run that keeps clear. -/
theorem coolOff_behaves {as : List Label} (hrun : run (step cfg) init as = some s)
    (hmeets : Meets (step cfg) (Clear cfg) init as) (hclear : Clear cfg s a)
    (h : step cfg s a = some s') : Behaves cfg s a s' :=
  behaves_of_inv
    (run_invariant_of_meets (fun _ _ _ hi hc hs => step_inv hi hc hs) inv_init hmeets hrun) hclear h

/-- An outage, its prober, and the answer after which commands resume. -/
def outage : List Label :=
  [.arrive 0, .trip 0, .claim 0 0, .hold 0, .tick 30, .ask 0, .pong 0]

theorem coolOff_behaves_outage : ∃ s s', run (step ⟨30, 5⟩) init outage = some s ∧
    step ⟨30, 5⟩ s (.close 0) = some s' ∧ Behaves ⟨30, 5⟩ s (.close 0) s' := by
  refine ⟨_, _, rfl, rfl, @coolOff_behaves _ _ _ _ outage rfl ?_ ?_ rfl⟩
  · refine ⟨trivial, ?_⟩
    rintro _ ⟨⟩
    refine ⟨by rintro deadline ⟨⟩, ?_⟩
    rintro _ ⟨⟩
    refine ⟨fun _ => ⟨Option.some_ne_none _, by decide⟩, ?_⟩
    rintro _ ⟨⟩
    refine ⟨trivial, ?_⟩
    rintro _ ⟨⟩
    refine ⟨trivial, ?_⟩
    rintro _ ⟨⟩
    refine ⟨trivial, ?_⟩
    rintro _ ⟨⟩
    exact ⟨trivial, fun _ _ => trivial⟩
  · rintro c e ⟨⟩
    decide

/-- Two commands out when the outage begins: the second failure opens the breaker for less than the
prober holds it, and a command is let through while the prober waits for its ping. -/
def deadlineBack : List Label :=
  [.arrive 0, .arrive 1, .trip 0, .claim 0 0, .hold 0, .tick 1, .trip 1, .claim 1 1, .tick 31]

/-- A prober closes the breaker between the two steps of another command's `trip`, and the prober
that command starts opens it again. -/
def claimedClosed : List Label :=
  [.arrive 0, .arrive 1, .trip 0, .claim 0 0, .hold 0, .tick 30, .trip 1, .ask 0, .pong 0, .close 0,
    .claim 1 1]

theorem coolOff_flaps :
    (∃ s s', run (step ⟨30, 5⟩) init deadlineBack = some s ∧ step ⟨30, 5⟩ s (.arrive 2) = some s' ∧
      ¬ Behaves ⟨30, 5⟩ s (.arrive 2) s') ∧
    ∃ s s', run (step ⟨30, 5⟩) init claimedClosed = some s ∧ step ⟨30, 5⟩ s (.hold 1) = some s' ∧
      ¬ Behaves ⟨30, 5⟩ s (.hold 1) s' := by
  constructor
  · refine ⟨_, _, rfl, rfl, fun h => ?_⟩
    exact absurd (h.heldOff 2 rfl rfl 35 List.mem_cons_self) (by decide)
  · refine ⟨_, _, rfl, rfl, fun h => ?_⟩
    rcases h.staysClosed rfl (Option.some_ne_none _) with ⟨id, ⟨⟩⟩ | ⟨p, c, ha, ht⟩
    cases ha
    cases ht

end Steps

end Breaker
end Aisix
