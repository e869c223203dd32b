import Aisix.Lts
import Mathlib.Logic.Function.Basic

/-!
# Aisix.Health.RuntimeStatus

The runtime status of the targets: a failure puts a target in a cooldown, a success ends it unless
its attempt is older than the cooldown, and the state a target is in is published when it changed.
`tracker_exact` says so of every order of the operations.
-/

namespace Aisix
namespace Health

inductive DeploymentState where
  | healthy
  | partialFailure
  | down
  deriving DecidableEq

inductive Status where
  | healthy
  | unhealthy
  | cooldown
  | notApplicable
  deriving DecidableEq

/-- Times are nanoseconds, of the wall clock but for `cooldownMarkedAt`, which is an instant. -/
structure RuntimeEntry where
  unhealthy : Bool
  cooldownUntil : Option Nat
  cooldownMarkedAt : Option Nat
  lastCheckedAt : Option Nat
  lastCheckStatus : Option UInt16
  statusReason : Option String
  emittedState : Option DeploymentState
  deriving DecidableEq

namespace RuntimeEntry

def default : RuntimeEntry := ⟨false, none, none, none, none, none, none⟩

variable (e : RuntimeEntry)

def coolingAt (now : Nat) : Bool := e.cooldownUntil.any fun deadline => now < deadline

def deploymentState (now : Nat) : DeploymentState :=
  if e.unhealthy || e.coolingAt now then .down else .healthy

def cooldownOutlives (attemptStarted now : Nat) : Bool :=
  (e.cooldownMarkedAt.any fun marked => attemptStarted < marked) && e.coolingAt now

def isStale (now : Nat) (staleAfter : Option Nat) : Bool :=
  match staleAfter, e.lastCheckedAt with
  | some staleAfter, some checked => checked ≤ now && staleAfter < now - checked
  | _, _ => false

def status (now : Nat) (staleAfter : Option Nat) : Status :=
  if e.coolingAt now then .cooldown
  else if e.unhealthy && !e.isStale now staleAfter then .unhealthy
  else .healthy

/-- What a success leaves of an entry. -/
def recovered : RuntimeEntry :=
  { e with
    unhealthy := false, cooldownUntil := none, cooldownMarkedAt := none, statusReason := none }

end RuntimeEntry

/-- What the metrics sink is told. -/
inductive Emission where
  | cooldown (model : String)
  | state (model : String) (state : DeploymentState)
  deriving DecidableEq

structure Tracker where
  entries : String → Option RuntimeEntry
  inFlight : String → Nat
  /-- The guards that were handed out: the model whose count a guard holds, if it holds one. -/
  guards : List (Option String)
  emitted : List Emission

def COOLDOWN_UNTIL_CEILING : Nat := 100 * 365 * 24 * 60 * 60 * 10 ^ 9

/-- One operation, with what the clocks say as it reads them. `active` is what `bookkeeping_active`
answers. -/
inductive Op where
  | markCooldown (model : String) (ttl : Nat) (reason : String) (now marked : Nat)
  | markHealthy (active : Bool) (model : String) (attemptStarted checked synced : Nat)
  | markUnhealthy (model : String) (status : Option UInt16) (reason : String) (now : Nat)
  | clearUnhealthy (model : String) (checked synced : Nat)
  | beginInFlight (active : Bool) (model : String)
  | finish (guard : Nat)

namespace Tracker

def new : Tracker := ⟨fun _ => none, fun _ => 0, [], []⟩

def put (t : Tracker) (model : String) (e : RuntimeEntry) : Tracker :=
  { t with entries := Function.update t.entries model (some e) }

def syncDeploymentState (t : Tracker) (model : String) (e : RuntimeEntry) (now : Nat) : Tracker :=
  let state := e.deploymentState now
  if e.emittedState = some state then t.put model e
  else
    { t.put model { e with emittedState := some state } with emitted := t.emitted ++
      [.state model state] }

/-- The deadline of a cooldown on a clock that ends at `clockMax`; `none` is a panic. -/
def cooldownUntil (clockMax now ttl : Nat) : Option Nat :=
  if now + ttl ≤ clockMax then some (now + ttl)
  else if now + COOLDOWN_UNTIL_CEILING ≤ clockMax then some (now + COOLDOWN_UNTIL_CEILING)
  else none

def recordCooldown (t : Tracker) (model : String) : Tracker :=
  { t with emitted := t.emitted ++ [.cooldown model] }

def markCooldown (t : Tracker) (clockMax : Nat) (model : String) (ttl : Nat) (reason : String)
    (now marked : Nat) :
    Option Tracker :=
  (cooldownUntil clockMax now ttl).map fun deadline =>
    let e := (t.entries model).getD .default
    let enteredCooldown := e.cooldownUntil.all fun deadline => deadline ≤ now
    let e := { e with
      cooldownUntil := some deadline
      cooldownMarkedAt := some marked
      statusReason := some reason }
    let t := if enteredCooldown then t.recordCooldown model else t
    t.syncDeploymentState model e now

/-- A success on an entry that is written. -/
def heal (t : Tracker) (model : String) (e : RuntimeEntry) (attemptStarted checked synced : Nat) :
    Tracker :=
  if e.cooldownOutlives attemptStarted checked then t
  else t.syncDeploymentState model e.recovered synced

def needsWrite (e : RuntimeEntry) : Bool :=
  e.unhealthy || e.cooldownUntil.isSome || e.statusReason.isSome || e.emittedState ≠ some .healthy

def markHealthy (t : Tracker) (active : Bool) (model : String)
    (attemptStarted checked synced : Nat) : Tracker :=
  if active then
    match t.entries model with
    | some e => t.heal model e attemptStarted checked synced
    | none => t
  else
    match t.entries model with
    | some e => if needsWrite e then t.heal model e attemptStarted checked synced else t
    | none => t

def clearUnhealthy (t : Tracker) (model : String) (checked synced : Nat) : Tracker :=
  match t.entries model with
  | some e =>
    let reason := if e.statusReason = some "background_check_failed" then none else e.statusReason
    let e := { e with
      unhealthy := false
      lastCheckedAt := some checked
      lastCheckStatus := some 200
      statusReason := reason }
    t.syncDeploymentState model e synced
  | none => t

def markUnhealthy (t : Tracker) (model : String) (status : Option UInt16) (reason : String)
    (now : Nat) : Tracker :=
  let e := (t.entries model).getD .default
  let e := { e with
    unhealthy := true
    lastCheckedAt := some now
    lastCheckStatus := status
    statusReason := some reason }
  t.syncDeploymentState model e now

def countInFlight (t : Tracker) (active : Bool) (model : String) : Tracker :=
  if active then
    { t with
      inFlight := Function.update t.inFlight model (t.inFlight model + 1)
      guards := t.guards ++ [some model] }
  else { t with guards := t.guards ++ [none] }

def beginInFlight (t : Tracker) (active : Bool) (model : String) : Tracker :=
  let t := if t.entries model = none then t.put model .default else t
  t.countInFlight active model

/-- A guard is dropped. -/
def finish (t : Tracker) (guard : Nat) : Tracker :=
  match t.guards[guard]? with
  | some (some model) =>
    { t with
      inFlight := Function.update t.inFlight model (t.inFlight model - 1)
      guards := t.guards.set guard none }
  | _ => t

def step (clockMax : Nat) (t : Tracker) : Op → Option Tracker
  | .markCooldown model ttl reason now marked => t.markCooldown clockMax model ttl reason now marked
  | .markHealthy active model attemptStarted checked synced =>
    some (t.markHealthy active model attemptStarted checked synced)
  | .markUnhealthy model status reason now => some (t.markUnhealthy model status reason now)
  | .clearUnhealthy model checked synced => some (t.clearUnhealthy model checked synced)
  | .beginInFlight active model => some (t.beginInFlight active model)
  | .finish guard => some (t.finish guard)

def deploymentState (t : Tracker) (model : String) (now : Nat) : DeploymentState :=
  ((t.entries model).getD .default).deploymentState now

def status (t : Tracker) (model : String) (now : Nat) (staleAfter : Option Nat) : Status :=
  ((t.entries model).getD .default).status now staleAfter

end Tracker

/-- The state of a model that was published last. -/
def published (log : List Emission) (model : String) : Option DeploymentState :=
  (log.filterMap fun
    | .state model' state => if model' = model then some state else none
    | .cooldown _ => none).getLast?

namespace Op

/-- The same operation where bookkeeping is always kept. -/
def booked : Op → Op
  | .markHealthy _ model attemptStarted checked synced =>
    .markHealthy true model attemptStarted checked synced
  | .beginInFlight _ model => .beginInFlight true model
  | op => op

/-- What the operation reads of the wall clock. -/
def readings : Op → List Nat
  | .markCooldown _ _ _ now _ => [now]
  | .markHealthy _ _ _ checked synced => [checked, synced]
  | .markUnhealthy _ _ _ now => [now]
  | .clearUnhealthy _ checked synced => [checked, synced]
  | .beginInFlight _ _ => []
  | .finish _ => []

def isBegin : Op → Bool
  | .beginInFlight _ _ => true
  | _ => false

/-- The operation is no failure of the model, and no success of it whose attempt began at `marked`
or later. -/
def Spares (model : String) (marked : Nat) : Op → Prop
  | .markCooldown model' _ _ _ _ => model' ≠ model
  | .markHealthy _ model' attemptStarted _ _ => model' = model → attemptStarted < marked
  | _ => True

end Op

open Lts

/-- The state of a model after the operation that changed its entry, as the clock stood. An entry
that only begins to exist is not changed. -/
def changedState (t t' : Tracker) (op : Op) (model : String) : Option DeploymentState :=
  if t'.entries model = t.entries model ∨ op.isBegin then none
  else op.readings.getLast?.map (t'.deploymentState model)

/-- The state of a model right after the last operation that changed it. -/
def lastChanged (clockMax : Nat) (model : String) :
    Tracker → List Op → Option DeploymentState → Option DeploymentState
  | _, [], last => last
  | t, op :: ops, last =>
    match t.step clockMax op with
    | none => last
    | some t' => lastChanged clockMax model t' ops ((changedState t t' op model).or last)

section Published

variable (log : List Emission) (model model' : String)

@[simp] theorem published_state (state : DeploymentState) :
    published (log ++ [.state model' state]) model =
      if model' = model then some state else published log model := by
  unfold published
  rw [List.filterMap_append]
  by_cases h : model' = model
  · simp [h]
  · simp [h]

@[simp] theorem published_cooldown :
    published (log ++ [.cooldown model']) model = published log model := by
  unfold published
  simp

end Published

/-! ### What one operation does -/

variable {clockMax : Nat} {t t' r : Tracker} {op : Op} {model : String} {e : RuntimeEntry}

/-- The entry when the state it is in is published. -/
def RuntimeEntry.settled (e : RuntimeEntry) (now : Nat) : RuntimeEntry :=
  { e with emittedState := some (e.deploymentState now) }

@[simp] theorem sync_entries (t : Tracker) (model : String) (e : RuntimeEntry) (now : Nat) :
    (t.syncDeploymentState model e now).entries = Function.update t.entries model
    (some (e.settled now)) := by
  unfold Tracker.syncDeploymentState RuntimeEntry.settled
  dsimp only
  split
  · next h =>
    rw [← h]
    rfl
  · rfl

theorem published_sync {now : Nat} (h : published t.emitted model = e.emittedState) (m : String) :
    published (t.syncDeploymentState model e now).emitted m =
      if m = model then some (e.deploymentState now) else published t.emitted m := by
  unfold Tracker.syncDeploymentState
  dsimp only
  split
  · next hsame =>
    split
    · next hm =>
      rw [hm]
      exact h.trans hsame
    · rfl
  · rw [published_state]
    simp only [eq_comm]

theorem entries_recordCooldown (t : Tracker) (model : String) (entered : Bool) :
    (if entered then t.recordCooldown model else t).entries = t.entries := by
  cases entered <;> rfl

theorem published_recordCooldown (t : Tracker) (model m : String) (entered : Bool) :
    published (if entered then t.recordCooldown model else t).emitted m =
      published t.emitted m := by
  cases entered
  · rfl
  · exact published_cooldown ..

/-- What holds of the tracker between the operations. -/
structure Inv (t : Tracker) : Prop where
  marked : ∀ m e, t.entries m = some e → e.cooldownUntil = none → e.cooldownMarkedAt = none
  shown : ∀ m, published t.emitted m = (t.entries m).bind (·.emittedState)

theorem inv_new : Inv Tracker.new := by
  constructor
  · intro m e h
    cases h
  · intro m
    rfl

/-- What one operation does to the entries and to what is published. -/
inductive Effect (t t' : Tracker) (op : Op) : Prop where
  | quiet (entries : t'.entries = t.entries) (emitted : t'.emitted = t.emitted)
  | created (model : String) (begins : op.isBegin = true) (absent : t.entries model = none)
      (entries : t'.entries = Function.update t.entries model (some .default))
        (emitted : t'.emitted = t.emitted)
  | wrote (model : String) (e : RuntimeEntry) (now : Nat) (begins : op.isBegin = false)
      (reading : op.readings.getLast? = some now)
        (marked : e.cooldownUntil = none → e.cooldownMarkedAt = none)
      (entries : t'.entries = Function.update t.entries model (some (e.settled now)))
      (emitted : ∀ m, published t'.emitted m =
        if m = model then some (e.deploymentState now) else published t.emitted m)

theorem Inv.marked_getD (h : Inv t) (model : String) :
    ((t.entries model).getD .default).cooldownUntil = none →
    ((t.entries model).getD .default).cooldownMarkedAt = none := by
  cases hentry : t.entries model with
  | none => exact fun _ => rfl
  | some e => exact h.marked model e hentry

theorem Inv.shown_getD (h : Inv t) (model : String) :
    published t.emitted model = ((t.entries model).getD .default).emittedState := by
  rw [h.shown model]
  cases t.entries model <;> rfl

theorem Effect.heal
    (h : Inv t) (hentry : t.entries model = some e) {attemptStarted checked synced : Nat}
    (hbegin : op.isBegin = false) (hreading : op.readings.getLast? = some synced) :
    Effect t (t.heal model e attemptStarted checked synced) op := by
  unfold Tracker.heal
  split
  · exact .quiet rfl rfl
  · refine .wrote model e.recovered synced hbegin hreading (fun _ => rfl) (sync_entries ..) ?_
    intro m
    refine published_sync ?_ m
    rw [h.shown, hentry]
    rfl

theorem effect_of_step (h : Inv t) (hs : t.step clockMax op = some t') : Effect t t' op := by
  cases op with
  | markCooldown model ttl reason now marked =>
    obtain ⟨deadline, -, rfl⟩ := Option.map_eq_some_iff.mp hs
    refine .wrote model { (t.entries model).getD .default with
      cooldownUntil := some deadline
      cooldownMarkedAt := some marked
      statusReason := some reason } now rfl rfl ?_ ?_ ?_
    · rintro ⟨⟩
    · dsimp only
      rw [sync_entries, entries_recordCooldown]
    · intro m
      dsimp only
      rw [published_sync, published_recordCooldown]
      rw [published_recordCooldown]
      exact h.shown_getD model
  | markHealthy active model attemptStarted checked synced =>
    obtain rfl := Option.some.inj hs
    unfold Tracker.markHealthy
    cases hentry : t.entries model with
    | none => cases active <;> exact .quiet rfl rfl
    | some e =>
      cases active with
      | true => exact .heal h hentry rfl rfl
      | false =>
        dsimp only
        rw [if_neg Bool.false_ne_true]
        split
        · exact .heal h hentry rfl rfl
        · exact .quiet rfl rfl
  | markUnhealthy model status reason now =>
    obtain rfl := Option.some.inj hs
    refine .wrote model _ now rfl rfl ?_ (sync_entries ..) ?_
    · exact h.marked_getD model
    · exact published_sync (h.shown_getD model)
  | clearUnhealthy model checked synced =>
    obtain rfl := Option.some.inj hs
    unfold Tracker.clearUnhealthy
    cases hentry : t.entries model with
    | none => exact .quiet rfl rfl
    | some e =>
      refine .wrote model _ synced rfl rfl ?_ (sync_entries ..) ?_
      · exact h.marked model e hentry
      · refine published_sync ?_
        rw [h.shown, hentry]
        rfl
  | beginInFlight active model =>
    obtain rfl := Option.some.inj hs
    have hcount : ∀ t : Tracker, (t.countInFlight active model).entries = t.entries ∧
        (t.countInFlight active model).emitted = t.emitted := by
      intro t
      cases active <;> exact ⟨rfl, rfl⟩
    unfold Tracker.beginInFlight
    dsimp only
    split
    · next habsent =>
      exact .created model rfl habsent (hcount _).1 (hcount _).2
    · exact .quiet (hcount _).1 (hcount _).2
  | finish guard =>
    obtain rfl := Option.some.inj hs
    unfold Tracker.finish
    split <;> exact .quiet rfl rfl

theorem Inv.effect (h : Inv t) (he : Effect t t' op) : Inv t' := by
  cases he with
  | quiet hentries hemitted =>
    constructor
    · rw [hentries]
      exact h.marked
    · rw [hentries, hemitted]
      exact h.shown
  | created model hbegin habsent hentries hemitted =>
    constructor
    · intro m e hm hnone
      rw [hentries] at hm
      by_cases heq : m = model
      · rw [heq, Function.update_self] at hm
        cases hm
        rfl
      · rw [Function.update_of_ne heq] at hm
        exact h.marked m e hm hnone
    · intro m
      rw [hentries, hemitted, h.shown m]
      by_cases heq : m = model
      · rw [heq, Function.update_self, habsent]
        rfl
      · rw [Function.update_of_ne heq]
  | wrote model e now hbegin hreading hmarked hentries hemitted =>
    constructor
    · intro m e' hm hnone
      rw [hentries] at hm
      by_cases heq : m = model
      · rw [heq, Function.update_self] at hm
        cases hm
        exact hmarked hnone
      · rw [Function.update_of_ne heq] at hm
        exact h.marked m e' hm hnone
    · intro m
      rw [hentries, hemitted m]
      by_cases heq : m = model
      · rw [if_pos heq, heq, Function.update_self]
        rfl
      · rw [if_neg heq, Function.update_of_ne heq, h.shown m]

theorem Inv.step (h : Inv t) (hs : t.step clockMax op = some t') : Inv t' :=
  h.effect (effect_of_step h hs)

/-! ### The published state -/

theorem published_step (h : Inv t) (hs : t.step clockMax op = some t') (model : String) :
    published t'.emitted model = (changedState t t' op model).or (published t.emitted model) := by
  unfold changedState
  have hinv := h.step hs
  cases effect_of_step h hs with
  | quiet hentries hemitted => rw [if_pos (.inl (congrFun hentries model)), hemitted]; rfl
  | created model' hbegin _ _ hemitted => rw [if_pos (.inr hbegin), hemitted]; rfl
  | wrote model' e now hbegin hreading _ hentries hemitted =>
    by_cases heq : model = model'
    · have hentry : t'.entries model = some (e.settled now) := by
        rw [hentries, heq, Function.update_self]
      by_cases hsame : t'.entries model = t.entries model
      · rw [if_pos (.inl hsame), hinv.shown, h.shown, hsame]
        rfl
      · rw [if_neg, hreading, hemitted model, if_pos heq]
        · unfold Tracker.deploymentState
          rw [Option.map_some, hentry]
          rfl
        · rintro (h | h)
          · exact hsame h
          · rw [hbegin] at h
            cases h
    · rw [if_pos, hemitted model, if_neg heq]
      · rfl
      · left
        rw [hentries, Function.update_of_ne heq]

theorem published_run {ops : List Op} (h : Inv t)
    (hrun : run (Tracker.step clockMax) t ops = some t') (model : String) :
    published t'.emitted model = lastChanged clockMax model t ops (published t.emitted model) := by
  induction ops generalizing t with
  | nil =>
    cases hrun
    rfl
  | cons op ops ih =>
    obtain ⟨t₁, hs, hrest⟩ := run_cons_some hrun
    rw [lastChanged, hs]
    dsimp only
    rw [ih (h.step hs) hrest, published_step h hs model]

/-! ### The fast path -/

/-- Two trackers that differ in what they count only. -/
structure Alike (t r : Tracker) : Prop where
  entries : r.entries = t.entries
  emitted : r.emitted = t.emitted

theorem Alike.sync (h : Alike t r) (model : String) (e : RuntimeEntry) (now : Nat) :
    Alike (t.syncDeploymentState model e now) (r.syncDeploymentState model e now) := by
  refine ⟨by rw [sync_entries, sync_entries, h.entries], ?_⟩
  unfold Tracker.syncDeploymentState
  dsimp only
  split
  · exact h.emitted
  · dsimp only
    rw [h.emitted]

theorem Alike.heal (h : Alike t r) (model : String) (e : RuntimeEntry)
    (attemptStarted checked synced : Nat) :
    Alike (t.heal model e attemptStarted checked synced)
      (r.heal model e attemptStarted checked synced) := by
  unfold Tracker.heal
  split
  · exact h
  · exact h.sync ..

theorem heal_of_clean (h : Inv t) (hentry : t.entries model = some e)
    (hclean : Tracker.needsWrite e = false) (attemptStarted checked synced : Nat) :
    Alike t (t.heal model e attemptStarted checked synced) := by
  unfold Tracker.needsWrite at hclean
  simp only [Bool.or_eq_false_iff, decide_eq_false_iff_not, not_not, Option.isSome_eq_false_iff,
    Option.isNone_iff_eq_none] at hclean
  obtain ⟨⟨⟨hhealthy, huntil⟩, hreason⟩, hemitted⟩ := hclean
  have hrecovered : e.recovered = e := by
    have hmarked := h.marked model e hentry huntil
    cases e
    simp only at hhealthy huntil hreason hmarked
    subst hhealthy huntil hreason hmarked
    rfl
  have hstate : e.deploymentState synced = .healthy := by
    unfold RuntimeEntry.deploymentState RuntimeEntry.coolingAt
    rw [hhealthy, huntil]
    rfl
  unfold Tracker.heal
  split
  · exact ⟨rfl, rfl⟩
  · rw [hrecovered]
    constructor
    · rw [sync_entries]
      unfold RuntimeEntry.settled
      rw [hstate, ← hemitted, ← hentry, Function.update_eq_self]
    · unfold Tracker.syncDeploymentState
      dsimp only
      rw [hstate, if_pos hemitted]
      rfl

theorem Alike.trans {u : Tracker} (h : Alike t r) (h' : Alike r u) : Alike t u :=
  ⟨h'.entries.trans h.entries, h'.emitted.trans h.emitted⟩

theorem Alike.step (h : Inv t) (ha : Alike t r) (hs : t.step clockMax op = some t') :
    ∃ r', r.step clockMax op.booked = some r' ∧ Alike t' r' := by
  cases op with
  | markCooldown model ttl reason now marked =>
    obtain ⟨deadline, hdeadline, rfl⟩ := Option.map_eq_some_iff.mp hs
    refine ⟨_, Option.map_eq_some_iff.mpr ⟨deadline, hdeadline, rfl⟩, ?_⟩
    dsimp only
    rw [ha.entries]
    refine Alike.sync ?_ _ _ _
    split
    · constructor
      · exact ha.entries
      · exact congrArg (· ++ _) ha.emitted
    · exact ha
  | markHealthy active model attemptStarted checked synced =>
    obtain rfl := Option.some.inj hs
    refine ⟨_, rfl, ?_⟩
    unfold Tracker.markHealthy
    rw [ha.entries]
    cases hentry : t.entries model with
    | none => cases active <;> exact ha
    | some e =>
      cases active with
      | true => exact ha.heal ..
      | false =>
        dsimp only
        rw [if_neg Bool.false_ne_true, if_pos rfl]
        split
        · exact ha.heal ..
        · next hclean =>
          exact (heal_of_clean h hentry (Bool.not_eq_true _ ▸ hclean) ..).trans (ha.heal ..)
  | markUnhealthy model status reason now =>
    obtain rfl := Option.some.inj hs
    refine ⟨_, rfl, ?_⟩
    unfold Tracker.markUnhealthy
    rw [ha.entries]
    exact ha.sync ..
  | clearUnhealthy model checked synced =>
    obtain rfl := Option.some.inj hs
    refine ⟨_, rfl, ?_⟩
    unfold Tracker.clearUnhealthy
    rw [ha.entries]
    cases t.entries model with
    | none => exact ha
    | some e => exact ha.sync ..
  | beginInFlight active model =>
    obtain rfl := Option.some.inj hs
    refine ⟨_, rfl, ?_⟩
    unfold Tracker.beginInFlight
    dsimp only
    rw [ha.entries]
    split
    · cases active
      · exact ⟨congrArg (Function.update · model _) ha.entries, ha.emitted⟩
      · exact ⟨congrArg (Function.update · model _) ha.entries, ha.emitted⟩
    · cases active
      · exact ⟨ha.entries, ha.emitted⟩
      · exact ⟨ha.entries, ha.emitted⟩
  | finish guard =>
    obtain rfl := Option.some.inj hs
    refine ⟨_, rfl, ?_⟩
    unfold Tracker.finish
    constructor
    · split <;> split <;> exact ha.entries
    · split <;> split <;> exact ha.emitted

theorem Alike.run {ops : List Op} (h : Inv t) (ha : Alike t r)
    (hrun : run (Tracker.step clockMax) t ops = some t') :
    ∃ r', Lts.run (Tracker.step clockMax) r (ops.map Op.booked) = some r' ∧ Alike t' r' := by
  induction ops generalizing t r with
  | nil =>
    cases hrun
    exact ⟨r, rfl, ha⟩
  | cons op ops ih =>
    obtain ⟨t₁, hs, hrest⟩ := run_cons_some hrun
    obtain ⟨r₁, hr, ha₁⟩ := ha.step h hs
    obtain ⟨r', hrun', ha'⟩ := ih (h.step hs) ha₁ hrest
    refine ⟨r', ?_, ha'⟩
    rw [List.map_cons, Lts.run, hr]
    exact hrun'

/-! ### A live cooldown -/

/-- The cooldown of the model ends at `deadline` and was set at `marked`. -/
def Cooling (t : Tracker) (model : String) (deadline marked : Nat) : Prop :=
  ∃ e, t.entries model = some e ∧ e.cooldownUntil = some deadline ∧ e.cooldownMarkedAt = some marked

theorem Cooling.sync {deadline marked : Nat} (h : Cooling t model deadline marked) {model' : String}
    {now : Nat}
    (hkept : model' = model → e.cooldownUntil = some deadline ∧ e.cooldownMarkedAt = some marked) :
    Cooling (t.syncDeploymentState model' e now) model deadline marked := by
  obtain ⟨e₀, hentry, huntil, hmarked⟩ := h
  unfold Cooling
  rw [sync_entries]
  by_cases heq : model' = model
  · obtain ⟨huntil', hmarked'⟩ := hkept heq
    rw [heq, Function.update_self]
    exact ⟨_, rfl, huntil', hmarked'⟩
  · rw [Function.update_of_ne (Ne.symm heq)]
    exact ⟨e₀, hentry, huntil, hmarked⟩

theorem Cooling.heal {deadline marked attemptStarted checked synced : Nat}
    (h : Cooling t model deadline marked) {model' : String} (hentry : t.entries model' = some e)
    (hspares : model' = model → attemptStarted < marked) (hlive : checked < deadline) :
    Cooling (t.heal model' e attemptStarted checked synced) model deadline marked := by
  unfold Tracker.heal
  split
  · exact h
  · next houtlives =>
    refine h.sync ?_
    intro heq
    obtain ⟨e₀, hentry₀, huntil, hmarked⟩ := h
    rw [heq, hentry₀] at hentry
    cases hentry
    refine absurd ?_ houtlives
    unfold RuntimeEntry.cooldownOutlives RuntimeEntry.coolingAt
    rw [huntil, hmarked]
    simp [hspares heq, hlive]

theorem Cooling.step {deadline marked : Nat} (h : Cooling t model deadline marked)
    (hspares : op.Spares model marked) (hlive : ∀ x ∈ op.readings, x < deadline)
    (hs : t.step clockMax op = some t') : Cooling t' model deadline marked := by
  cases op with
  | markCooldown model' ttl reason now marked' =>
    obtain ⟨deadline', -, rfl⟩ := Option.map_eq_some_iff.mp hs
    refine Cooling.sync ?_ fun heq => absurd heq hspares
    split
    · exact h
    · exact h
  | markHealthy active model' attemptStarted checked synced =>
    obtain rfl := Option.some.inj hs
    have hchecked : checked < deadline := hlive checked (List.mem_cons_self ..)
    unfold Tracker.markHealthy
    cases hentry : t.entries model' with
    | none => cases active <;> exact h
    | some e =>
      cases active with
      | true => exact h.heal hentry hspares hchecked
      | false =>
        dsimp only
        rw [if_neg Bool.false_ne_true]
        split
        · exact h.heal hentry hspares hchecked
        · exact h
  | markUnhealthy model' status reason now =>
    obtain rfl := Option.some.inj hs
    refine h.sync ?_
    rintro rfl
    obtain ⟨e, hentry, hkept⟩ := h
    rw [hentry]
    exact hkept
  | clearUnhealthy model' checked synced =>
    obtain rfl := Option.some.inj hs
    unfold Tracker.clearUnhealthy
    cases hentry : t.entries model' with
    | none => exact h
    | some e =>
      refine h.sync ?_
      rintro rfl
      obtain ⟨e₀, hentry₀, hkept⟩ := h
      rw [hentry₀] at hentry
      cases hentry
      exact hkept
  | beginInFlight active model' =>
    obtain rfl := Option.some.inj hs
    obtain ⟨e, hentry, hkept⟩ := h
    have hcount : ∀ t : Tracker, (t.countInFlight active model').entries = t.entries := by
      intro t
      cases active <;> rfl
    unfold Tracker.beginInFlight
    dsimp only
    refine ⟨e, ?_, hkept⟩
    rw [hcount]
    split
    · next habsent =>
      have hne : model ≠ model' := by
        rintro rfl
        rw [hentry] at habsent
        cases habsent
      exact (Function.update_of_ne hne _ _).trans hentry
    · exact hentry
  | finish guard =>
    obtain rfl := Option.some.inj hs
    unfold Tracker.finish
    split <;> exact h

theorem Cooling.run {deadline marked : Nat} {ops : List Op} (h : Cooling t model deadline marked)
    (hspares : ∀ op ∈ ops, op.Spares model marked)
    (hlive : ∀ op ∈ ops, ∀ x ∈ op.readings, x < deadline)
    (hrun : run (Tracker.step clockMax) t ops = some t') : Cooling t' model deadline marked := by
  induction ops generalizing t with
  | nil =>
    cases hrun
    exact h
  | cons op ops ih =>
    obtain ⟨hhere, hrest⟩ := List.forall_mem_cons.mp hspares
    obtain ⟨hliveHere, hliveRest⟩ := List.forall_mem_cons.mp hlive
    obtain ⟨t₁, hs, hrun'⟩ := run_cons_some hrun
    exact ih (h.step hhere hliveHere hs) hrest hliveRest hrun'

theorem cooling_markCooldown {ttl now marked deadline : Nat} {reason : String}
    (hdeadline : Tracker.cooldownUntil clockMax now ttl = some deadline)
    (hs : t.step clockMax (.markCooldown model ttl reason now marked) = some t') :
    Cooling t' model deadline marked := by
  obtain ⟨deadline', hdeadline', rfl⟩ := Option.map_eq_some_iff.mp hs
  obtain rfl := Option.some.inj (hdeadline.symm.trans hdeadline')
  unfold Cooling
  rw [sync_entries, Function.update_self]
  exact ⟨_, rfl, rfl, rfl⟩

theorem Cooling.status {deadline marked now : Nat} (h : Cooling t model deadline marked)
    (hnow : now < deadline) :
    (∀ staleAfter, t.status model now staleAfter = .cooldown) ∧
      t.deploymentState model now = .down := by
  obtain ⟨e, hentry, huntil, -⟩ := h
  have hcooling : e.coolingAt now = true := by
    unfold RuntimeEntry.coolingAt
    rw [huntil]
    simp [hnow]
  unfold Tracker.status Tracker.deploymentState RuntimeEntry.status RuntimeEntry.deploymentState
  rw [hentry]
  simp [hcooling]

/-- In every order of the operations: the state of the models is what it is without the fast path,
the latest cooldown of a model lasts until its deadline unless a success ends it that is no older
than the cooldown, and what is published is the state right after the last change. -/
theorem tracker_exact (clockMax : Nat) (ops : List Op) (t : Tracker)
    (hrun : run (Tracker.step clockMax) Tracker.new ops = some t) :
    (∃ r, run (Tracker.step clockMax) Tracker.new (ops.map Op.booked) = some r ∧
        (∀ model now, r.deploymentState model now = t.deploymentState model now) ∧ Alike t r) ∧
      (∀ before model ttl reason now marked after deadline u,
        ops = before ++ .markCooldown model ttl reason now marked :: after →
        Tracker.cooldownUntil clockMax now ttl = some deadline →
        (∀ op ∈ after, op.Spares model marked) → (∀ op ∈ after, ∀ x ∈ op.readings, x ≤ u) →
          u < deadline →
        (∀ staleAfter, t.status model u staleAfter = .cooldown) ∧
          t.deploymentState model u = .down) ∧
      ∀ model, published t.emitted model = lastChanged clockMax model Tracker.new ops none := by
  refine ⟨?_, ?_, ?_⟩
  · obtain ⟨r, hr, halike⟩ := Alike.run inv_new ⟨rfl, rfl⟩ hrun
    refine ⟨r, hr, ?_, halike⟩
    intro model now
    unfold Tracker.deploymentState
    rw [halike.entries]
  · rintro before model ttl reason now marked after deadline u rfl hdeadline hspares hclock hu
    rw [run_append] at hrun
    obtain ⟨t₁, -, hrest⟩ := Option.bind_eq_some_iff.mp hrun
    obtain ⟨t₂, hs, hafter⟩ := run_cons_some hrest
    have hlive : ∀ op ∈ after, ∀ x ∈ op.readings, x < deadline := by
      intro op hop x hx
      exact Nat.lt_of_le_of_lt (hclock op hop x hx) hu
    exact ((cooling_markCooldown hdeadline hs).run hspares hlive hafter).status hu
  · intro model
    exact published_run inv_new hrun model

/-- A success that began before the cooldown leaves the target in it. -/
theorem tracker_exact_late_success :
    ∃ t, run (Tracker.step 100) Tracker.new
        [.beginInFlight false "m", .markCooldown "m" 60 "upstream_rate_limited" 2 2,
          .markHealthy false "m" 1 3 3] = some t ∧
      t.deploymentState "m" 61 = .down ∧ published t.emitted "m" = some .down := by
  refine ⟨_, rfl, ?_, ?_⟩
  · refine ((tracker_exact 100 _ _ rfl).2.1
      [.beginInFlight false "m"] "m" 60 "upstream_rate_limited" 2 2
      [.markHealthy false "m" 1 3 3] 62 61 rfl rfl ?_ ?_ (by decide)).2
    · intro op hop
      cases List.mem_singleton.mp hop
      exact fun _ => by decide
    · intro op hop
      cases List.mem_singleton.mp hop
      decide
  · exact (tracker_exact 100
      [.beginInFlight false "m", .markCooldown "m" 60 "upstream_rate_limited" 2 2,
        .markHealthy false "m" 1 3 3] _ rfl).2.2 "m"

/-- A second failure with a shorter cooldown ends the first one early, without any success. -/
theorem cooldown_shortened :
    ∃ t, run (Tracker.step 100) Tracker.new [.markCooldown "m" 60 "upstream_rate_limited" 0 0,
        .markCooldown "m" 1 "transport_error" 1 1] = some t ∧
      t.status "m" 3 none = .healthy ∧ t.deploymentState "m" 3 = .healthy := by
  exact ⟨_, rfl, rfl, rfl⟩

end Health
end Aisix
