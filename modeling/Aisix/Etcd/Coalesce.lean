import Aisix.Etcd.Supervisor
import Aisix.Lts

/-!
# Aisix.Etcd.Coalesce

A coalesced apply decides and leaves what the same events decide and leave one at a time.

`effect` is what one event does, given which rows serve: its outcome, the books it leaves, its
change to the snapshot, the revision it stamps. It does not see the batch.

* `stage_eq` — staging an event is its effect, absorbed by the batch.
* `absorb_present` — the overlay of a batch answers like the snapshot with the staged changes.
* `applyEvents_eq_oneByOne` — one apply of a run of events is an apply per event.
-/

namespace Aisix
namespace Etcd

variable {J V : Type}

/-- The change of one event to the snapshot. -/
inductive Change (V : Type) where
  | keep
  | put (key : String) (table : Table) (entry : ResourceEntry V)
  | remove (kind id : String)

def Change.applyTo : Change V → Snapshot V → Snapshot V
  | .keep, s => s
  | .put _ table entry, s => s.insert table entry
  | .remove kind id, s => s.remove kind id

/-- What one event does. -/
structure Effect (V : Type) where
  outcome : Bool
  books : Books
  change : Change V
  stamp : Option Int
  dirty : Bool

/-- `captureLastGood`, told which rows serve. -/
def captureServing (env : Env J V) (present : String → String → Bool) (key : String) (b : Books) :
    Books :=
  if key ∈ b.stale then b
  else
    match env.address key with
    | none => b
    | some (kind, id) =>
      if present kind id then
        match b.observed.lookup key with
        | some good => { b with stale := b.stale.insert key good }
        | none => b
      else b

/-- The books without a deleted key. -/
def Books.forget (key : String) (b : Books) : Books :=
  let b := (b.removeRejectionForKey key).2.updatePartialRow key none
  { b.unpin key with observed := b.observed.erase key }

def Books.raise (revision : Option Int) (b : Books) : Books :=
  match revision with
  | none => b
  | some revision => { b with revision := max b.revision revision }

def putEffect (env : Env J V) (present : String → String → Bool) (entry : RawEntry) (b : Books) :
    Effect V :=
  match load env entry with
  | .error r =>
    { outcome := false
      books := ((captureServing env present entry.key b).storeObserved entry).pushRejection r
      change := .keep
      stamp := some entry.revision
      dirty := true }
  | .ok l =>
    { outcome := true
      books := (((b.removeRejectionForKey entry.key).2.unpin entry.key).updatePartialRow entry.key
        l.partialRow).storeObserved entry
      change := .put entry.key l.table l.entry
      stamp := some entry.revision
      dirty := true }

def deleteEffect (env : Env J V) (present : String → String → Bool) (key : String)
    (revision : Option Int) (b : Books) : Effect V :=
  match env.address key with
  | none =>
    { outcome := false, books := b.raise revision, change := .keep, stamp := revision
      dirty := revision.isSome }
  | some (kind, id) =>
    let removedRejection := (b.removeRejectionForKey key).1
    let clears := present kind id || removedRejection || decide (key ∈ b.observed)
    { outcome := present kind id || removedRejection
      books := (b.forget key).raise revision
      change := if present kind id then .remove kind id else .keep
      stamp := if clears then some ((b.raise revision).revision) else revision
      dirty := clears || revision.isSome }

def effect (env : Env J V) (present : String → String → Bool) (event : PendingEvent) (b : Books) :
    Effect V :=
  match event with
  | .put entry => putEffect env present entry b
  | .delete key revision => deleteEffect env present key revision b

/-- The batch with one more event staged. -/
def Batch.absorb (env : Env J V) (batch : Batch V) (e : Effect V) : Batch V where
  view :=
    match e.change with
    | .keep => batch.view
    | .put key _ _ => batch.view.recordPut env key
    | .remove kind id => batch.view.recordDelete kind id
  mutations :=
    match e.change with
    | .keep => batch.mutations
    | .put _ table entry => stageMerge (Snapshot.empty.insert table entry) batch.mutations
    | .remove kind id => .remove kind id :: batch.mutations
  applyStamp :=
    match e.stamp with
    | some revision => stampMax batch.applyStamp revision
    | none => batch.applyStamp
  dirty := batch.dirty || e.dirty

section Stage

variable {env : Env J V} {base : Snapshot V} {batch : Batch V} {b : Books}

theorem buildSnapshot_singleton_error {entry : RawEntry} {r : RejectedEntry}
    (h : load env entry = .error r) :
    buildSnapshot env [entry] = (.empty, ⟨0, [r], []⟩) := by
  simp [buildSnapshot, buildStep, h, BuildStats.new]

theorem buildSnapshot_singleton_ok {entry : RawEntry} {l : Loaded V} (h : load env entry = .ok l) :
    buildSnapshot env [entry] =
      (Snapshot.empty.insert l.table l.entry, ⟨1, [], l.partialRow.toList⟩) := by
  simp [buildSnapshot, buildStep, h, BuildStats.new]

theorem stampMax_stampMax (slot : Option Int) (r r' : Int) :
    stampMax (stampMax slot r) r' = stampMax slot (max r r') := by
  cases slot <;> simp [stampMax, max_assoc]

theorem stagePut_eq (entry : RawEntry) :
    stagePut env base entry batch b =
      let e := putEffect env (batch.view.present base) entry b
      (e.outcome, batch.absorb env e, e.books) := by
  cases h : load env entry with
  | error r =>
    simp only [stagePut, buildSnapshot_singleton_error h, putEffect, h, if_true, List.foldl_cons,
      List.foldl_nil, Batch.absorb, Bool.or_true]
    rfl
  | ok l =>
    have hrow : (l.partialRow.toList).find? (·.key = entry.key) = l.partialRow := by
      cases hp : l.partialRow with
      | none => rfl
      | some row => simp [load_partialRow h hp]
    simp only [stagePut, buildSnapshot_singleton_ok h, putEffect, h, one_ne_zero, if_false, hrow,
      Batch.absorb, Bool.or_true]

theorem stageDelete_eq (key : String) (revision : Option Int) :
    stageDelete env base key revision batch b =
      let e := deleteEffect env (batch.view.present base) key revision b
      (e.outcome, batch.absorb env e, e.books) := by
  cases haddr : env.address key with
  | none =>
    simp only [stageDelete, deleteEffect, haddr]
    cases revision <;> simp [raiseRevisionFloor, Batch.absorb, Books.raise]
  | some addr =>
    obtain ⟨kind, id⟩ := addr
    have hobserved : (b.removeRejectionForKey key).2.observed = b.observed := rfl
    have hrevision : (b.removeRejectionForKey key).2.revision = b.revision := rfl
    simp only [stageDelete, deleteEffect, haddr, Books.updatePartialRow, Books.unpin, hobserved]
    cases hp : batch.view.present base kind id with
    | true =>
      cases revision <;>
        simp [raiseRevisionFloor, Batch.absorb, Books.raise, Books.forget, Books.updatePartialRow,
          Books.unpin, hobserved, hrevision, stampMax_stampMax]
    | false =>
      simp only [Bool.false_or]
      cases hc : (b.removeRejectionForKey key).1 || decide (key ∈ b.observed) <;> cases revision <;>
        simp [raiseRevisionFloor, Batch.absorb, Books.raise, Books.forget, Books.updatePartialRow,
          Books.unpin, hobserved, hrevision, stampMax_stampMax]

theorem stage_eq (event : PendingEvent) :
    stage env base event batch b =
      let e := effect env (batch.view.present base) event b
      (e.outcome, batch.absorb env e, e.books) := by
  cases event with
  | put entry => exact stagePut_eq entry
  | delete key revision => exact stageDelete_eq key revision

theorem applyMutations_stageMerge (tiny : Snapshot V) (mutations : List (SnapshotMutation V)) :
    applyMutations (stageMerge tiny mutations) base =
      (applyMutations mutations base).merge tiny := by
  match mutations with
  | [] => rfl
  | .merge acc :: rest => exact Snapshot.merge_assoc ..
  | .remove kind id :: rest => rfl

/-- Publishing after one more event is publishing before it, with the change of the event. -/
theorem applyMutations_absorb (e : Effect V) :
    applyMutations (batch.absorb env e).mutations base =
      e.change.applyTo (applyMutations batch.mutations base) := by
  cases hc : e.change with
  | keep => simp [Batch.absorb, hc, Change.applyTo]
  | put key table entry =>
    simp only [Batch.absorb, hc, Change.applyTo]
    rw [applyMutations_stageMerge, Snapshot.merge_insert_empty]
  | remove kind id =>
    simp only [Batch.absorb, hc, Change.applyTo]
    rfl

theorem present_recordPut {view : BatchView} {key kind id : String}
    (h : env.address key = some (kind, id)) (kind' id' : String) :
    (view.recordPut env key).present base kind' id' =
      (decide (kind' = kind ∧ id' = id) || view.present base kind' id') := by
  by_cases heq : kind' = kind ∧ id' = id
  · obtain ⟨rfl, rfl⟩ := heq
    simp [BatchView.recordPut, BatchView.present, h]
  · have hne : (kind', id') ≠ (kind, id) := fun h => heq (by simpa using h)
    simp [BatchView.recordPut, BatchView.present, h, hne, heq]

theorem present_recordDelete (view : BatchView) (kind id kind' id' : String) :
    (view.recordDelete kind id).present base kind' id' =
      (!decide (kind' = kind ∧ id' = id) && view.present base kind' id') := by
  by_cases heq : kind' = kind ∧ id' = id
  · obtain ⟨rfl, rfl⟩ := heq
    simp [BatchView.recordDelete, BatchView.present]
  · have hne : (kind', id') ≠ (kind, id) := fun h => heq (by simpa using h)
    simp [BatchView.recordDelete, BatchView.present, hne, heq]

/-- An accepted put goes where its key addresses. -/
def Change.Addressed (env : Env J V) : Change V → Prop
  | .put key table entry => env.address key = some (table.name, entry.id)
  | _ => True

theorem effect_addressed (present : String → String → Bool) (event : PendingEvent) (b : Books) :
    (effect env present event b).change.Addressed env := by
  cases event with
  | put entry =>
    simp only [effect, putEffect]
    cases h : load env entry with
    | error r => trivial
    | ok l => exact load_address h
  | delete key revision =>
    simp only [effect, deleteEffect]
    split
    · trivial
    · dsimp only; split <;> trivial

theorem absorb_present {e : Effect V} (haddr : e.change.Addressed env)
    (h : batch.view.present base = (applyMutations batch.mutations base).has) :
    (batch.absorb env e).view.present base =
    (applyMutations (batch.absorb env e).mutations base).has := by
  rw [applyMutations_absorb]
  cases hc : e.change with
  | keep => simpa [Batch.absorb, hc, Change.applyTo] using h
  | put key table entry =>
    rw [hc] at haddr
    funext kind id
    simp only [Batch.absorb, hc, Change.applyTo]
    rw [present_recordPut haddr, Snapshot.has_insert, h]
  | remove kind id =>
    funext kind' id'
    simp only [Batch.absorb, hc, Change.applyTo]
    rw [present_recordDelete, Snapshot.has_remove, h]

theorem effect_revision {present : String → String → Bool} {event : PendingEvent}
    (h : (effect env present event b).dirty = false) :
    (effect env present event b).books.revision = b.revision := by
  cases event with
  | put entry =>
    simp only [effect, putEffect] at h
    split at h <;> cases h
  | delete key revision =>
    have hrev : revision = none := by
      cases revision with
      | none => rfl
      | some r =>
        simp only [effect, deleteEffect] at h
        split at h <;> simp at h
    subst hrev
    simp only [effect, deleteEffect]
    split <;> rfl

end Stage

namespace Supervisor

variable {env : Env J V}

theorem commit_empty (s : Supervisor V) : s.commit .empty s.books = s := rfl

theorem commit_commit {s : Supervisor V} {batch : Batch V} {b : Books} {e : Effect V}
    (hrev : e.dirty = false → e.books.revision = b.revision) :
    (s.commit batch b).commit (Batch.empty.absorb env e) e.books =
    s.commit (batch.absorb env e) e.books := by
  have hsnapshot : applyMutations (Batch.empty.absorb env e).mutations (s.commit batch b).snapshot =
      applyMutations (batch.absorb env e).mutations s.snapshot := by
    rw [applyMutations_absorb, applyMutations_absorb]; rfl
  have hstamp : ((s.commit batch b).commit (Batch.empty.absorb env e) e.books).watchStatus =
      (s.commit (batch.absorb env e) e.books).watchStatus := by
    simp only [commit, Batch.absorb, Batch.empty]
    cases e.stamp <;> cases batch.applyStamp <;> simp [stampMax, max_assoc]
  have hconfig : ((s.commit batch b).commit (Batch.empty.absorb env e) e.books).configStatus =
      (s.commit (batch.absorb env e) e.books).configStatus := by
    simp only [commit, Batch.absorb, Batch.empty, Bool.false_or]
    by_cases hd : e.dirty = true
    · simp [hd]
    · have hd := Bool.eq_false_of_not_eq_true hd
      simp [hd, hrev hd]
  calc (s.commit batch b).commit (Batch.empty.absorb env e) e.books
      = ⟨e.books, applyMutations (Batch.empty.absorb env e).mutations (s.commit batch b).snapshot,
          ((s.commit batch b).commit (Batch.empty.absorb env e) e.books).watchStatus,
          ((s.commit batch b).commit (Batch.empty.absorb env e) e.books).configStatus⟩ := rfl
    _ = s.commit (batch.absorb env e) e.books := by rw [hsnapshot, hstamp, hconfig]; rfl

theorem applyEvents_singleton (event : PendingEvent) (s : Supervisor V) :
    s.applyEvents env [event] =
      let e := effect env s.snapshot.has event s.books
      ([e.outcome], s.commit (Batch.empty.absorb env e) e.books) := by
  have hview : BatchView.present .empty s.snapshot = s.snapshot.has := by
    funext kind id
    simp [BatchView.present, BatchView.empty]
  simp only [applyEvents, stageAll, stage_eq]
  rw [show (Batch.empty : Batch V).view = .empty from rfl, hview]

/-- The same events, one apply each. -/
def applyOneByOne (env : Env J V) (s : Supervisor V) (event : PendingEvent) :
    List Bool × Supervisor V :=
  s.applyEvents env [event]

theorem stageAll_eq_oneByOne (events : List PendingEvent) :
    ∀ {s : Supervisor V} {batch : Batch V} {b : Books},
      batch.view.present s.snapshot = (applyMutations batch.mutations s.snapshot).has →
      Lts.runOut (applyOneByOne env) (s.commit batch b) events =
        (((stageAll env s.snapshot events batch b).1).map ([·]),
          s.commit (stageAll env s.snapshot events batch b).2.1
            (stageAll env s.snapshot events batch b).2.2) := by
  induction events with
  | nil => intro s batch b _; rfl
  | cons event events ih =>
    intro s batch b hview
    have hhas : batch.view.present s.snapshot = (s.commit batch b).snapshot.has := hview
    set e := effect env (batch.view.present s.snapshot) event b with he
    have hcommit : (s.commit batch b).commit (Batch.empty.absorb env e) e.books =
        s.commit (batch.absorb env e) e.books := commit_commit fun hd => effect_revision hd
    have hfirst : applyOneByOne env (s.commit batch b) event =
        ([e.outcome], s.commit (batch.absorb env e) e.books) := by
      rw [← hcommit, he, hhas]
      exact applyEvents_singleton event (s.commit batch b)
    have hview' : (batch.absorb env e).view.present s.snapshot =
        (applyMutations (batch.absorb env e).mutations s.snapshot).has :=
      absorb_present (effect_addressed _ event b) hview
    have hrest := ih (b := e.books) hview'
    simp only [Lts.runOut, hfirst, hrest, stageAll, stage_eq, ← he, List.map_cons]

/-- Coalescing changes nothing: one apply of a run of events answers and leaves what an apply per
event answers and leaves. -/
theorem applyEvents_eq_oneByOne (env : Env J V) (events : List PendingEvent) (s : Supervisor V) :
    s.applyEvents env events =
      ((Lts.runOut (applyOneByOne env) s events).1.flatten,
        (Lts.runOut (applyOneByOne env) s events).2) := by
  have hview : (Batch.empty : Batch V).view.present s.snapshot =
      (applyMutations (Batch.empty : Batch V).mutations s.snapshot).has := by
    funext kind id
    simp [BatchView.present, BatchView.empty, Batch.empty, applyMutations]
  have h : Lts.runOut (applyOneByOne env) (s.commit .empty s.books) events = _ :=
    stageAll_eq_oneByOne events hview
  rw [commit_empty] at h
  simp only [h, applyEvents]
  congr 1
  induction (stageAll env s.snapshot events .empty s.books).1 with
  | nil => rfl
  | cons o os ih => simp [← ih]

end Supervisor
end Etcd
end Aisix
