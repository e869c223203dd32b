import Aisix.Etcd.Loader
import Aisix.KeyMap
import Mathlib.Data.Finset.Basic

/-!
# Aisix.Etcd.Supervisor

The configuration supervisor: it serves a snapshot, and keeps books of what etcd holds, which keys
are rejected, and which serve the last value that loaded (`stale`).

* `stagePut`, `stageDelete` — one watch event, against the batch it is staged in.
* `applyEvents` — a coalesced run of events: staged one after the other, published once.
* `applyResyncAt` — a full rebuild from an entry set, with the pinned values injected.
* `restoreFromCache` — the boot from an entry set and pins that were written to disk.

The digests, timestamps and versions of the status view are left out, as is the cache file itself.
-/

namespace Aisix
namespace Etcd

/-- Maximum rejected entries the supervisor retains. -/
def maxRetainedRejections : Nat := 256

/-- Maximum unknown-kind rows the supervisor retains, counted on their own. -/
def maxRetainedUnknownKinds : Nat := 256

/-- Maximum partially compatible rows the supervisor retains. -/
def maxRetainedPartialRows : Nat := 1024

/-- What the supervisor writes event by event. -/
structure Books where
  /-- The latest entry of every key etcd holds. -/
  observed : KeyMap String RawEntry
  /-- Per key whose latest bytes are rejected, the entry that keeps serving. -/
  stale : KeyMap String RawEntry
  rejectedKeys : Finset String
  rejections : List RejectedEntry
  partialRows : KeyMap String PartialCompatRow
  /-- The revision floor. -/
  revision : Int

/-- The books, the served snapshot, and the two reported revisions: the watch status, and the
configuration status of the last publication. -/
structure Supervisor (V : Type) where
  books : Books
  snapshot : Snapshot V
  watchStatus : Int
  configStatus : Int

def Books.empty : Books := ⟨∅, ∅, ∅, [], ∅, 0⟩

def Supervisor.new {V : Type} : Supervisor V := ⟨.empty, .empty, 0, 0⟩

def isUnknownKind (r : RejectedEntry) : Bool := r.kind = .unknownKind

def rejectionCap (forwardCompat : Bool) : Nat :=
  if forwardCompat then maxRetainedUnknownKinds else maxRetainedRejections

/-- Keep the newest rejections of each class, up to its cap. The list is read newest first. -/
def trimNewestFirst : (kept : Bool → Nat) → List RejectedEntry → List RejectedEntry
  | _, [] => []
  | kept, e :: es =>
    let class_ := isUnknownKind e
    if kept class_ < rejectionCap class_ then
      e :: trimNewestFirst (Function.update kept class_ (kept class_ + 1)) es
    else trimNewestFirst kept es

def trimRejectionsPerClass (entries : List RejectedEntry) : List RejectedEntry :=
  if entries.length ≤ min maxRetainedRejections maxRetainedUnknownKinds then entries
  else (trimNewestFirst (fun _ => 0) entries.reverse).reverse

namespace Books

variable {J V : Type}

def setRejections (rejected : List RejectedEntry) (b : Books) : Books :=
  { b with
    rejectedKeys := (rejected.map (·.key)).toFinset
    rejections := trimRejectionsPerClass rejected }

/-- Append one rejection; an older one of the same key is replaced, and the oldest of its class goes
on overflow. -/
def pushRejection (b : Books) (r : RejectedEntry) : Books :=
  let retained := b.rejections.filter (·.key ≠ r.key)
  let forwardCompat := isUnknownKind r
  let sameClass := fun e => isUnknownKind e = forwardCompat
  let retained :=
    if (retained.filter sameClass).length ≥ rejectionCap forwardCompat then
      retained.eraseP sameClass
    else retained
  { b with rejectedKeys := insert r.key b.rejectedKeys, rejections := retained ++ [r] }

/-- Whether there was a rejection to remove, and the books without it. -/
def removeRejectionForKey (key : String) (b : Books) : Bool × Books :=
  let retained := b.rejections.filter (·.key ≠ key)
  (decide (key ∈ b.rejectedKeys) || retained.length != b.rejections.length,
    { b with rejectedKeys := b.rejectedKeys.erase key, rejections := retained })

def setPartialRows (rows : List PartialCompatRow) (b : Books) : Books :=
  { b with
    -- the rows behind the cap are dropped
    partialRows := rows.foldl
      (fun m row => if m.keys.length ≥ maxRetainedPartialRows then m else m.insert row.key row) ∅ }

def updatePartialRow (key : String) (row : Option PartialCompatRow) (b : Books) : Books :=
  match row with
  | some row =>
    if key ∉ b.partialRows ∧ b.partialRows.keys.length ≥ maxRetainedPartialRows then b
    else { b with partialRows := b.partialRows.insert key row }
  | none => { b with partialRows := b.partialRows.erase key }

/-- Record an observed write, and raise the revision floor to it. -/
def storeObserved (entry : RawEntry) (b : Books) : Books :=
  { b with
    observed := b.observed.insert entry.key entry
    revision := max b.revision entry.revision }

def unpin (key : String) (b : Books) : Books := { b with stale := b.stale.erase key }

end Books

/-- One watch event of a coalesced apply. -/
inductive PendingEvent where
  | put (entry : RawEntry)
  | delete (key : String) (revision : Option Int)

/-- One staged change to the snapshot. -/
inductive SnapshotMutation (V : Type) where
  | merge (src : Snapshot V)
  | remove (kind id : String)

/-- The staged mutations as a presence overlay on the snapshot the batch started from. -/
structure BatchView where
  added : Finset (String × String)
  removed : Finset (String × String)

/-- What a batch has staged: the overlay, the mutations (latest first), the revision to stamp
freshness with, and whether the status is to be published. -/
structure Batch (V : Type) where
  view : BatchView
  mutations : List (SnapshotMutation V)
  applyStamp : Option Int
  dirty : Bool

variable {J V : Type}

def SnapshotMutation.applyTo (m : SnapshotMutation V) (dst : Snapshot V) : Snapshot V :=
  match m with
  | .merge src => dst.merge src
  | .remove kind id => dst.remove kind id

def applyMutations (mutations : List (SnapshotMutation V)) (base : Snapshot V) : Snapshot V :=
  mutations.foldr SnapshotMutation.applyTo base

namespace BatchView

def empty : BatchView := ⟨∅, ∅⟩

def recordPut (env : Env J V) (key : String) (view : BatchView) : BatchView :=
  match env.address key with
  | none => view
  | some probe => { removed := view.removed.erase probe, added := insert probe view.added }

def recordDelete (kind id : String) (view : BatchView) : BatchView :=
  { added := view.added.erase (kind, id), removed := insert (kind, id) view.removed }

def present (view : BatchView) (base : Snapshot V) (kind id : String) : Bool :=
  if (kind, id) ∈ view.removed then false
  else if (kind, id) ∈ view.added then true
  else base.has kind id

end BatchView

def Batch.empty : Batch V := ⟨.empty, [], none, false⟩

def stampMax (slot : Option Int) (revision : Int) : Option Int :=
  match slot with
  | some current => some (max current revision)
  | none => some revision

/-- A run of puts is folded into one staged snapshot; a removal breaks the run. -/
def stageMerge (tiny : Snapshot V) : List (SnapshotMutation V) → List (SnapshotMutation V)
  | .merge accumulated :: rest => .merge (accumulated.merge tiny) :: rest
  | mutations => .merge tiny :: mutations

/-- Pin the bytes that currently serve a key: no-op when it is already pinned or nothing serves. -/
def captureLastGood (env : Env J V) (key : String) (base : Snapshot V) (view : BatchView)
    (b : Books) :
    Books :=
  if key ∈ b.stale then b
  else
    match env.address key with
    | none => b
    | some (kind, id) =>
      if view.present base kind id then
        match b.observed.lookup key with
        | some good => { b with stale := b.stale.insert key good }
        | none => b
      else b

def stagePut (env : Env J V) (base : Snapshot V) (entry : RawEntry) (batch : Batch V) (b : Books) :
    Bool × Batch V × Books :=
  let (tiny, stats) := buildSnapshot env [entry]
  if stats.accepted = 0 then
    -- the serving bytes are pinned before the rejected ones are mirrored over them
    let b := captureLastGood env entry.key base batch.view b
    let b := b.storeObserved entry
    let b := stats.rejections.foldl Books.pushRejection b
    (false,
      { batch with applyStamp := stampMax batch.applyStamp entry.revision, dirty := true }, b)
  else
    let (_, b) := b.removeRejectionForKey entry.key
    let b := b.unpin entry.key
    let b := b.updatePartialRow entry.key (stats.partialRows.find? (·.key = entry.key))
    let b := b.storeObserved entry
    (true,
      { view := batch.view.recordPut env entry.key
        mutations := stageMerge tiny batch.mutations
        applyStamp := stampMax batch.applyStamp entry.revision
        dirty := true }, b)

def raiseRevisionFloor (revision : Option Int) (batch : Batch V) (b : Books) : Batch V × Books :=
  match revision with
  | none => (batch, b)
  | some revision =>
    ({ batch with applyStamp := stampMax batch.applyStamp revision, dirty := true },
      { b with revision := max b.revision revision })

def stageDelete (env : Env J V) (base : Snapshot V) (key : String) (revision : Option Int)
    (batch : Batch V) (b : Books) : Bool × Batch V × Books :=
  match env.address key with
  | none => (false, raiseRevisionFloor revision batch b)
  | some (kind, id) =>
    let present := batch.view.present base kind id
    let (removedRejection, b) := b.removeRejectionForKey key
    let b := b.updatePartialRow key none
    let b := b.unpin key
    let removedState := decide (key ∈ b.observed)
    let b := { b with observed := b.observed.erase key }
    if present then
      let batch :=
        { view := batch.view.recordDelete kind id
          mutations := .remove kind id :: batch.mutations
          applyStamp := stampMax batch.applyStamp b.revision
          dirty := true }
      (true, raiseRevisionFloor revision batch b)
    else
      let batch :=
        if removedRejection || removedState then
          { batch with applyStamp := stampMax batch.applyStamp b.revision, dirty := true }
        else batch
      (removedRejection, raiseRevisionFloor revision batch b)

def stage (env : Env J V) (base : Snapshot V) (event : PendingEvent) (batch : Batch V) (b : Books) :
    Bool × Batch V × Books :=
  match event with
  | .put entry => stagePut env base entry batch b
  | .delete key revision => stageDelete env base key revision batch b

def stageAll (env : Env J V) (base : Snapshot V) :
    List PendingEvent → Batch V → Books → List Bool × Batch V × Books
  | [], batch, b => ([], batch, b)
  | event :: events, batch, b =>
    let (outcome, batch, b) := stage env base event batch b
    let (outcomes, batch, b) := stageAll env base events batch b
    (outcome :: outcomes, batch, b)

namespace Supervisor

/-- Publish what a batch has staged. -/
def commit (batch : Batch V) (b : Books) (s : Supervisor V) : Supervisor V where
  books := b
  snapshot := applyMutations batch.mutations s.snapshot
  watchStatus :=
    match batch.applyStamp with
    | some revision => max s.watchStatus revision
    | none => s.watchStatus
  configStatus := if batch.dirty then b.revision else s.configStatus

/-- Apply a coalesced run of events as one copy-on-write cycle: the outcomes, and what is served. -/
def applyEvents (env : Env J V) (events : List PendingEvent) (s : Supervisor V) :
    List Bool × Supervisor V :=
  let (outcomes, batch, b) := stageAll env s.snapshot events .empty s.books
  (outcomes, s.commit batch b)

def applyPut (env : Env J V) (entry : RawEntry) (s : Supervisor V) : Bool × Supervisor V :=
  let (outcomes, s) := s.applyEvents env [.put entry]
  (outcomes.headD false, s)

def applyDelete (env : Env J V) (key : String) (s : Supervisor V) : Bool × Supervisor V :=
  let (outcomes, s) := s.applyEvents env [.delete key none]
  (outcomes.headD false, s)

/-- Pin the bytes that served a newly rejected key up to this resync. -/
def pinServing (env : Env J V) (s : Supervisor V) (stale : KeyMap String RawEntry)
    (r : RejectedEntry) : KeyMap String RawEntry :=
  if r.key ∈ stale then stale
  else
    match env.address r.key with
    | none => stale
    | some (kind, id) =>
      if s.snapshot.has kind id then
        match s.books.observed.lookup r.key with
        | some good => stale.insert r.key good
        | none => stale
      else stale

/-- The pins after a resync: those whose key is still there and still rejected, and the new ones. -/
def reconcilePins (env : Env J V) (entries : List RawEntry) (rejections : List RejectedEntry)
    (s : Supervisor V) : KeyMap String RawEntry :=
  let entryKeys := entries.map (·.key)
  let rejectedKeys := rejections.map (·.key)
  rejections.foldl (s.pinServing env)
    (KeyMap.retain (fun k => decide (k ∈ entryKeys ∧ k ∈ rejectedKeys)) s.books.stale)

/-- Replace the snapshot by a fresh build of the entry set. `readRevision` is the revision the set
was read at. -/
def applyResyncAt (env : Env J V) (entries : List RawEntry) (readRevision : Option Int)
    (s : Supervisor V) : Supervisor V :=
  let (snap, stats) := buildSnapshot env entries
  let stale := s.reconcilePins env entries stats.rejections
  let injected := env.hashOrder stale.values
  let (lkgSnap, lkgStats) := buildSnapshot env injected
  -- a pinned value that no longer parses drops its retention
  let stale := lkgStats.rejections.foldl (fun stale r => stale.erase r.key) stale
  let incoming := entries.map (·.key)
  let kept := KeyMap.retain (fun k => decide (k ∈ incoming)) s.books.observed
  let observed := entries.foldl (fun m e => m.insert e.key e) kept
  let revision :=
    match readRevision with
    | some revision => revision
    | none => (entries.map (·.revision)).foldl max s.books.revision
  let b : Books := { s.books with observed, stale, revision }
  let b := b.setRejections stats.rejections
  let b := b.setPartialRows (stats.partialRows ++ lkgStats.partialRows)
  { books := b
    snapshot := snap.merge lkgSnap
    watchStatus := max s.watchStatus revision
    configStatus := revision }

/-- Assigns the revision a completed read is consistent as of. -/
def recordReadRevision (revision : Int) (s : Supervisor V) : Supervisor V :=
  { s with
    books := { s.books with revision }
    watchStatus := revision
    configStatus := revision }

/-- A parsed cache file. -/
structure CachedSnapshot where
  entries : List RawEntry
  revision : Int
  stale : List RawEntry

/-- What `flush_cache` writes: the observed entries in key order, and the pins. -/
def cached (env : Env J V) (s : Supervisor V) : CachedSnapshot where
  entries := s.books.observed.values.insertionSort fun e e' => e.key ≤ e'.key
  revision := s.books.revision
  stale := env.hashOrder s.books.stale.values

/-- Seed a supervisor from the cache: the pins first, so that the resync finds them. -/
def restoreFromCache (env : Env J V) (c : CachedSnapshot) (s : Supervisor V) : Supervisor V :=
  let seeded := c.stale.foldl (fun m e => m.insert e.key e) (∅ : KeyMap String RawEntry)
  let s := { s with books := { s.books with stale := seeded } }
  let s := s.applyResyncAt env c.entries none
  { s with books := { s.books with revision := c.revision }, configStatus := c.revision }

end Supervisor
end Etcd
end Aisix
