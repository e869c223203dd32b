import Aisix.Etcd.Coalesce
import Aisix.Etcd.Resync

/-!
# Aisix.Etcd.Event

What one watch event does to the books and the snapshot, key by key and row by row.

* `lookup_observed_event` — the latest entry of a key.
* `stale_put_rejected`, `stale_put_accepted`, `stale_delete` — its pin.
* `row_put`, `row_delete` — the rows.
* `Reports.events` — the revisions that are reported afterwards.
-/

namespace Aisix
namespace Etcd

variable {J V : Type}

def PendingEvent.key : PendingEvent → String
  | .put e => e.key
  | .delete key _ => key

/-- What the event leaves under its key. -/
def PendingEvent.found : PendingEvent → Option RawEntry
  | .put e => some e
  | .delete _ _ => none

def PendingEvent.revision : PendingEvent → Option Int
  | .put e => some e.revision
  | .delete _ revision => revision

section Books

variable {env : Env J V} {b : Books} {key : String}

@[simp] theorem observed_updatePartialRow (row : Option PartialCompatRow) :
    (b.updatePartialRow key row).observed = b.observed := by
  unfold Books.updatePartialRow
  cases row with
  | none => rfl
  | some row => dsimp only; split <;> rfl

@[simp] theorem stale_updatePartialRow (row : Option PartialCompatRow) :
    (b.updatePartialRow key row).stale = b.stale := by
  unfold Books.updatePartialRow
  cases row with
  | none => rfl
  | some row => dsimp only; split <;> rfl

@[simp] theorem observed_raise (revision : Option Int) :
    (b.raise revision).observed = b.observed := by
  cases revision <;> rfl

@[simp] theorem stale_raise (revision : Option Int) : (b.raise revision).stale = b.stale := by
  cases revision <;> rfl

theorem observed_forget : (b.forget key).observed = b.observed.erase key := rfl

theorem stale_forget : (b.forget key).stale = b.stale.erase key := by
  simp [Books.forget, Books.unpin, Books.removeRejectionForKey]

theorem captureServing_eq (s : Supervisor V) (r : RejectedEntry) :
    captureServing env s.snapshot.has r.key s.books =
      { s.books with stale := s.pinServing env s.books.stale r } := by
  unfold captureServing Supervisor.pinServing
  by_cases hstale : r.key ∈ s.books.stale
  · rw [if_pos hstale, if_pos hstale]
  · rw [if_neg hstale, if_neg hstale]
    cases env.address r.key with
    | none => rfl
    | some addr =>
      dsimp only
      by_cases hhas : s.snapshot.has addr.1 addr.2 = true
      · rw [if_pos hhas, if_pos hhas]
        cases s.books.observed.lookup r.key <;> rfl
      · rw [if_neg hhas, if_neg hhas]

end Books

section Effect

variable {env : Env J V} {s : Supervisor V} {event : PendingEvent} {e : RawEntry} {k : String}

theorem books_event :
    (s.applyEvents env [event]).2.books = (effect env s.snapshot.has event s.books).books := by
  rw [Supervisor.applyEvents_singleton]; rfl

theorem snapshot_event :
    (s.applyEvents env [event]).2.snapshot =
      (effect env s.snapshot.has event s.books).change.applyTo s.snapshot := by
  rw [Supervisor.applyEvents_singleton]
  exact applyMutations_absorb _

theorem observed_put :
    (s.applyEvents env [.put e]).2.books.observed = s.books.observed.insert e.key e := by
  rw [books_event]
  simp only [effect, putEffect]
  cases hl : load env e with
  | ok l => simp [Books.storeObserved, Books.unpin, Books.removeRejectionForKey]
  | error r =>
    dsimp only [Books.pushRejection, Books.storeObserved]
    rw [← load_error_key hl, captureServing_eq]

theorem stale_put_rejected {r : RejectedEntry} (hl : load env e = .error r) :
    (s.applyEvents env [.put e]).2.books.stale.lookup k =
      if k = e.key then pinOf env s k else s.books.stale.lookup k := by
  rw [books_event]
  simp only [effect, putEffect, hl]
  dsimp only [Books.pushRejection, Books.storeObserved]
  rw [← load_error_key hl, captureServing_eq]
  exact Supervisor.lookup_pinServing s.books.stale r

theorem stale_put_accepted {l : Loaded V} (hl : load env e = .ok l) :
    (s.applyEvents env [.put e]).2.books.stale = s.books.stale.erase e.key := by
  rw [books_event]
  simp [effect, putEffect, hl, Books.storeObserved, Books.unpin, Books.removeRejectionForKey]

theorem row_put (t : Table) (id : String) :
    (s.applyEvents env [.put e]).2.snapshot.row t id =
      if env.address e.key = some (t.name, id) then (rowOf env e).or (s.snapshot.row t id)
      else s.snapshot.row t id := by
  rw [snapshot_event]
  simp only [effect, putEffect]
  cases hl : load env e with
  | error r => simp [Change.applyTo, rowOf, hl]
  | ok l =>
    simp only [Change.applyTo, Snapshot.row_insert, rowOf, hl, load_address hl, Option.some.injEq,
      Prod.mk.injEq, Option.some_or]
    refine if_congr ⟨fun h => ⟨by rw [h.1], h.2.symm⟩, fun h => ⟨?_, h.2.symm⟩⟩ rfl rfl
    have := Table.ofName?_name t
    rw [← h.1, Table.ofName?_name] at this
    exact (Option.some.inj this).symm

theorem observed_delete {revision : Option Int} (haddr : (env.address k).isSome) :
    (s.applyEvents env [.delete k revision]).2.books.observed = s.books.observed.erase k := by
  obtain ⟨addr, haddr⟩ := Option.isSome_iff_exists.1 haddr
  rw [books_event]
  simp [effect, deleteEffect, haddr, observed_forget]

theorem stale_delete {revision : Option Int} (haddr : (env.address k).isSome) :
    (s.applyEvents env [.delete k revision]).2.books.stale = s.books.stale.erase k := by
  obtain ⟨addr, haddr⟩ := Option.isSome_iff_exists.1 haddr
  rw [books_event]
  simp [effect, deleteEffect, haddr, stale_forget]

theorem books_delete_unaddressed {revision : Option Int} (haddr : env.address k = none) :
    (s.applyEvents env [.delete k revision]).2.books = s.books.raise revision := by
  rw [books_event]
  simp [effect, deleteEffect, haddr]

theorem row_delete (revision : Option Int) (t : Table) (id : String) :
    (s.applyEvents env [.delete k revision]).2.snapshot.row t id =
      if env.address k = some (t.name, id) then none else s.snapshot.row t id := by
  rw [snapshot_event]
  simp only [effect, deleteEffect]
  cases haddr : env.address k with
  | none => simp [Change.applyTo]
  | some addr =>
    obtain ⟨kind, id'⟩ := addr
    dsimp only
    by_cases hhas : s.snapshot.has kind id' = true
    · simp only [hhas, if_true, Change.applyTo, Snapshot.row_remove,
        Option.some.injEq, Prod.mk.injEq]
      exact if_congr ⟨fun h => ⟨h.1, h.2.symm⟩, fun h => ⟨h.1, h.2.symm⟩⟩ rfl rfl
    · rw [if_neg hhas]
      simp only [Change.applyTo, Option.some.injEq, Prod.mk.injEq]
      split
      next h =>
        obtain ⟨rfl, rfl⟩ := h
        simpa [Snapshot.has_name] using hhas
      · rfl

theorem lookup_observed_event (haddr : (env.address k).isSome) :
    (s.applyEvents env [event]).2.books.observed.lookup k =
      if event.key = k then event.found else s.books.observed.lookup k := by
  cases event with
  | put e =>
    rw [observed_put]
    by_cases hk : e.key = k
    · rw [← hk, AList.lookup_insert]
      simp [PendingEvent.key, PendingEvent.found]
    · rw [AList.lookup_insert_ne (Ne.symm hk)]
      simp [PendingEvent.key, hk]
  | delete k' revision =>
    by_cases hk : k' = k
    · subst hk
      rw [observed_delete haddr, AList.lookup_erase]
      simp [PendingEvent.key, PendingEvent.found]
    · simp only [PendingEvent.key, hk, if_false]
      cases haddr' : env.address k' with
      | none => rw [books_delete_unaddressed haddr', observed_raise]
      | some addr => rw [observed_delete (by rw [haddr']; rfl), AList.lookup_erase_ne (Ne.symm hk)]

theorem lookup_observed_events (haddr : (env.address k).isSome) (events : List PendingEvent) :
    (s.applyEvents env events).2.books.observed.lookup k =
      events.foldl (fun found event => if event.key = k then event.found else found)
        (s.books.observed.lookup k) := by
  rw [Supervisor.applyEvents_eq_oneByOne]
  dsimp only
  induction events generalizing s with
  | nil => rfl
  | cons event events ih =>
    rw [List.foldl_cons, ← lookup_observed_event haddr, ← ih]
    rfl

end Effect

/-- The revision floor and both reported revisions are at most `r`. -/
structure Reports (s : Supervisor V) (r : Int) : Prop where
  floor : s.books.revision ≤ r
  watch : s.watchStatus ≤ r
  config : s.configStatus ≤ r

section Reports

variable {env : Env J V} {s : Supervisor V} {r : Int}

theorem Reports.mono (h : Reports s r) {r' : Int} (hle : r ≤ r') : Reports s r' :=
  ⟨h.floor.trans hle, h.watch.trans hle, h.config.trans hle⟩

theorem revision_raise {b : Books} (revision : Option Int) (hb : b.revision ≤ r)
    (hr : ∀ x ∈ revision, x ≤ r) : (b.raise revision).revision ≤ r := by
  cases revision with
  | none => exact hb
  | some x => exact max_le hb (hr x rfl)

/-- An event raises the floor, and stamps, no higher than its own revision and the floor before it.
-/
theorem effect_revision_le {b : Books} {present : String → String → Bool} {event : PendingEvent}
    (hb : b.revision ≤ r) (hr : ∀ x ∈ event.revision, x ≤ r) :
    (effect env present event b).books.revision ≤ r ∧
      ∀ x ∈ (effect env present event b).stamp, x ≤ r := by
  cases event with
  | put e =>
    have he : e.revision ≤ r := hr e.revision rfl
    have hfloor : (effect env present (.put e) b).books.revision = max b.revision e.revision := by
      simp only [effect, putEffect]
      cases hl : load env e with
      | ok l =>
        have hpartial : ∀ b' : Books,
            (b'.updatePartialRow e.key l.partialRow).revision = b'.revision := by
          intro b'
          unfold Books.updatePartialRow
          cases l.partialRow with
          | none => rfl
          | some row => dsimp only; split <;> rfl
        simp only [Books.storeObserved, hpartial, Books.unpin, Books.removeRejectionForKey]
      | error r' =>
        have hcapture : (captureServing env present e.key b).revision = b.revision := by
          unfold captureServing
          repeat' split
          all_goals rfl
        simp only [Books.pushRejection, Books.storeObserved, hcapture]
    have hstamp : (effect env present (.put e) b).stamp = some e.revision := by
      simp only [effect, putEffect]
      cases load env e <;> rfl
    refine ⟨by rw [hfloor]; exact max_le hb he, fun x hx => ?_⟩
    rw [hstamp] at hx
    obtain rfl := Option.some.inj hx
    exact he
  | delete key revision =>
    have hraise : (b.raise revision).revision ≤ r := revision_raise revision hb hr
    simp only [effect, deleteEffect]
    cases env.address key with
    | none => exact ⟨hraise, hr⟩
    | some addr =>
      refine ⟨revision_raise revision hb hr, fun x hx => ?_⟩
      dsimp only at hx
      split at hx
      · obtain rfl := Option.some.inj hx
        exact hraise
      · exact hr x hx

theorem Reports.event {event : PendingEvent} (h : Reports s r) (hr : ∀ x ∈ event.revision, x ≤ r) :
    Reports (s.applyEvents env [event]).2 r := by
  rw [Supervisor.applyEvents_singleton]
  have heffect : (effect env s.snapshot.has event s.books).books.revision ≤ r ∧
      ∀ x ∈ (effect env s.snapshot.has event s.books).stamp, x ≤ r := effect_revision_le h.floor hr
  refine ⟨heffect.1, ?_, ?_⟩
  · simp only [Supervisor.commit, Batch.absorb, Batch.empty]
    cases hstamp : (effect env s.snapshot.has event s.books).stamp with
    | none => exact h.watch
    | some x => exact max_le h.watch (heffect.2 x hstamp)
  · simp only [Supervisor.commit]
    split
    · exact heffect.1
    · exact h.config

theorem Reports.events {events : List PendingEvent} (h : Reports s r)
    (hr : ∀ event ∈ events, ∀ x ∈ event.revision, x ≤ r) :
    Reports (s.applyEvents env events).2 r := by
  rw [Supervisor.applyEvents_eq_oneByOne]
  dsimp only
  induction events generalizing s with
  | nil => exact h
  | cons event events ih =>
    obtain ⟨hevent, hevents⟩ := List.forall_mem_cons.1 hr
    exact ih (h.event hevent) hevents

end Reports


end Etcd
end Aisix
