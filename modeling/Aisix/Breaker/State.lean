import Aisix.Lts
import Mathlib.Logic.Function.Basic

/-!
# Aisix.Breaker.State

The cool-off breaker of a Redis subsystem (`aisix-redis`): the state under its mutex, its methods,
and the commands and probers that call them.

Every method is one step; a command or a prober is a task that is somewhere between two of them.
* A command: `arrive` (`admit`), then its outcome: `succeed` (`close_unless_reopened`), `fail` (the
  server's own error) or `trip` (`open`) and `claim` (`claim_prober`).
* A prober: `hold` (`hold_off`), a sleep, `ask` (`generation`), the ping, and `close`
  (`close_from_prober`), or `hold` again.

`opens`, `closes`, `held` and the counts in the tasks are history; no method reads them.
-/

namespace Aisix
namespace Breaker

structure BreakerState where
  openUntil : Option Nat
  generation : UInt64
  prober : Option UInt64
  claims : UInt64

namespace BreakerState

/-- The generation this command may close, or `none` to short-circuit it. -/
def admitCaller (st : BreakerState) (window now : Nat) : Option UInt64 × BreakerState :=
  match st.openUntil with
  | none => (some st.generation, st)
  | some deadline =>
    if now < deadline then (none, st)
    else (some st.generation, { st with prober := none, openUntil := some (now + window) })

def claimProber (st : BreakerState) : Option UInt64 × BreakerState :=
  if st.prober.isSome then (none, st)
  else (some (st.claims + 1), { st with claims := st.claims + 1, prober := some (st.claims + 1) })

def holdOff (st : BreakerState) (claim : UInt64) (now wait : Nat) : Bool × BreakerState :=
  if st.prober = some claim then (true, { st with openUntil := some (now + wait) }) else (false, st)

def closeFromProber (st : BreakerState) (claim seen : UInt64) : Bool × BreakerState :=
  if st.prober = some claim ∧ st.generation = seen then
    (true, { st with openUntil := none, prober := none })
  else (false, st)

def closeUnlessReopened (st : BreakerState) (seen : UInt64) : BreakerState :=
  if st.generation = seen then { st with openUntil := none } else st

end BreakerState

def BreakerState.open (st : BreakerState) (window now : Nat) : BreakerState :=
  { st with openUntil := some (now + window), generation := st.generation + 1 }

/-- A generation, and how many openings there had been when it was read. -/
structure Evidence where
  seen : UInt64
  began : Nat

inductive Command where
  | running (e : Evidence)
  /-- Between the two steps of `trip`. -/
  | tripped

inductive Phase where
  /-- About to call `hold_off`; `failedAt` counts the closings before the ping that failed. -/
  | holding (failedAt : Option Nat)
  | sleeping (wake : Nat)
  | pinging (e : Evidence)
  | answered (e : Evidence)

structure Prober where
  claim : UInt64
  phase : Phase

structure Config where
  window : Nat
  probeBudget : Nat

structure System where
  now : Nat
  breaker : BreakerState
  commands : Nat → Option Command
  probers : Nat → Option Prober
  opens : Nat
  closes : Nat
  /-- The deadlines set by `hold_off` since the breaker last closed. -/
  held : List Nat

def init : System where
  now := 0
  breaker := ⟨none, 0, none, 0⟩
  commands := fun _ => none
  probers := fun _ => none
  opens := 0
  closes := 0
  held := []

inductive Label where
  | tick (d : Nat)
  | arrive (id : Nat)
  | succeed (id : Nat)
  | fail (id : Nat)
  | trip (id : Nat)
  | claim (id p : Nat)
  | hold (p : Nat)
  | ask (p : Nat)
  | pong (p : Nat)
  | noPong (p : Nat)
  | close (p : Nat)
  | drop (p : Nat)
  deriving DecidableEq

namespace System

def setCommand (s : System) (id : Nat) (c : Option Command) : System :=
  { s with commands := Function.update s.commands id c }

def setProber (s : System) (p : Nat) (t : Option Prober) : System :=
  { s with probers := Function.update s.probers p t }

@[simp] theorem setCommand_breaker (s : System) (id : Nat) (c : Option Command) :
    (s.setCommand id c).breaker = s.breaker := rfl
@[simp] theorem setCommand_probers (s : System) (id : Nat) (c : Option Command) :
    (s.setCommand id c).probers = s.probers := rfl
@[simp] theorem setCommand_now (s : System) (id : Nat) (c : Option Command) :
    (s.setCommand id c).now = s.now := rfl
@[simp] theorem setCommand_opens (s : System) (id : Nat) (c : Option Command) :
    (s.setCommand id c).opens = s.opens := rfl
@[simp] theorem setCommand_closes (s : System) (id : Nat) (c : Option Command) :
    (s.setCommand id c).closes = s.closes := rfl
@[simp] theorem setCommand_held (s : System) (id : Nat) (c : Option Command) :
    (s.setCommand id c).held = s.held := rfl
@[simp] theorem setProber_breaker (s : System) (p : Nat) (t : Option Prober) :
    (s.setProber p t).breaker = s.breaker := rfl
@[simp] theorem setProber_commands (s : System) (p : Nat) (t : Option Prober) :
    (s.setProber p t).commands = s.commands := rfl
@[simp] theorem setProber_now (s : System) (p : Nat) (t : Option Prober) :
    (s.setProber p t).now = s.now := rfl
@[simp] theorem setProber_opens (s : System) (p : Nat) (t : Option Prober) :
    (s.setProber p t).opens = s.opens := rfl
@[simp] theorem setProber_closes (s : System) (p : Nat) (t : Option Prober) :
    (s.setProber p t).closes = s.closes := rfl
@[simp] theorem setProber_held (s : System) (p : Nat) (t : Option Prober) :
    (s.setProber p t).held = s.held := rfl

theorem setCommand_commands (s : System) (id id' : Nat) (c : Option Command) :
    (s.setCommand id c).commands id' = if id' = id then c else s.commands id' :=
  Function.update_apply ..

theorem setProber_probers (s : System) (p p' : Nat) (t : Option Prober) :
    (s.setProber p t).probers p' = if p' = p then t else s.probers p' :=
  Function.update_apply ..

/-- The breaker after a method that may have closed it. -/
def closed (s : System) (b : BreakerState) : System :=
  if s.breaker.openUntil.isSome ∧ b.openUntil = none then
    { s with breaker := b, closes := s.closes + 1, held := [] }
  else { s with breaker := b }

@[simp] theorem closed_breaker (s : System) (b : BreakerState) : (s.closed b).breaker = b := by
  unfold closed
  split <;> rfl
@[simp] theorem closed_commands (s : System) (b : BreakerState) :
    (s.closed b).commands = s.commands := by
  unfold closed
  split <;> rfl
@[simp] theorem closed_probers (s : System) (b : BreakerState) :
    (s.closed b).probers = s.probers := by
  unfold closed
  split <;> rfl
@[simp] theorem closed_now (s : System) (b : BreakerState) : (s.closed b).now = s.now := by
  unfold closed
  split <;> rfl
@[simp] theorem closed_opens (s : System) (b : BreakerState) : (s.closed b).opens = s.opens := by
  unfold closed
  split <;> rfl

end System

/-- One step of one task; `none` where the task is not at that step. -/
def step (cfg : Config) (s : System) : Label → Option System
  | .tick d => some { s with now := s.now + d }
  | .arrive id =>
    match s.commands id with
    | some _ => none
    | none =>
      match s.breaker.admitCaller cfg.window s.now with
      | (none, _) => some s
      | (some seen, b) =>
        some ({ s with breaker := b }.setCommand id (some (.running ⟨seen, s.opens⟩)))
  | .succeed id =>
    match s.commands id with
    | some (.running e) =>
      some ((s.closed (s.breaker.closeUnlessReopened e.seen)).setCommand id none)
    | _ => none
  | .fail id =>
    match s.commands id with
    | some (.running _) => some (s.setCommand id none)
    | _ => none
  | .trip id =>
    match s.commands id with
    | some (.running _) =>
      some
        ({ s with breaker := s.breaker.open cfg.window s.now, opens := s.opens + 1 }.setCommand id
          (some .tripped))
    | _ => none
  | .claim id p =>
    match s.commands id, s.probers p with
    | some .tripped, none =>
      match s.breaker.claimProber with
      | (none, _) => some (s.setCommand id none)
      | (some c, b) =>
        some (({ s with breaker := b }.setCommand id none).setProber p (some ⟨c, .holding none⟩))
    | _, _ => none
  | .hold p =>
    match s.probers p with
    | some ⟨c, .holding _⟩ =>
      match s.breaker.holdOff c s.now (cfg.window + cfg.probeBudget) with
      | (true, b) =>
        some
          ({ s with breaker := b, held := (s.now + (cfg.window + cfg.probeBudget)) ::
            s.held }.setProber p (some ⟨c, .sleeping (s.now + cfg.window)⟩))
      | (false, _) => some (s.setProber p none)
    | _ => none
  | .ask p =>
    match s.probers p with
    | some ⟨c, .sleeping wake⟩ =>
      if wake ≤ s.now then some (s.setProber p (some ⟨c, .pinging ⟨s.breaker.generation, s.opens⟩⟩))
      else none
    | _ => none
  | .pong p =>
    match s.probers p with
    | some ⟨c, .pinging e⟩ => some (s.setProber p (some ⟨c, .answered e⟩))
    | _ => none
  | .noPong p =>
    match s.probers p with
    | some ⟨c, .pinging _⟩ => some (s.setProber p (some ⟨c, .holding (some s.closes)⟩))
    | _ => none
  | .close p =>
    match s.probers p with
    | some ⟨c, .answered e⟩ =>
      match s.breaker.closeFromProber c e.seen with
      | (true, b) => some ((s.closed b).setProber p none)
      | (false, _) => some (s.setProber p (some ⟨c, .holding none⟩))
    | _ => none
  | .drop p =>
    match s.probers p with
    | some _ => some (s.setProber p none)
    | none => none

end Breaker
end Aisix
