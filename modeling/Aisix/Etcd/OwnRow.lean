import Aisix.Etcd.LastGood

/-!
# Aisix.Etcd.OwnRow

Which rows a watch event touches, and which bytes are pinned, in every state that events, resyncs
and boots from the cache lead to.

The loader decides from the key which table a document goes to, and refuses every other key
(`rowAddress`). A deletion, the presence probe and the pins go by `Env.address` alone, which knows
nothing of those refusals: a misplaced key, such as `models/m` under the global prefix, addresses
the row of a key that is not.

* `rowAddress_inj` — no two keys have one row.
* `Owned.step`     — while no misplaced key hits a row that is served, every row and every pin comes
  from the documents of its own key.
* `event_touches_own_row` — what that says about one event.
-/

namespace Aisix
namespace Etcd

variable {J V : Type}

/-- The row of a key: where the loader stores a document of the key that it accepts. -/
def Env.rowAddress (env : Env J V) (key : String) : Option (Table × String) :=
  match env.prefixes.resolve key with
  | .error _ => none
  | .ok parsed =>
    if parsed.scope = .global ∧ parsed.kind ≠ "pricing" then none
    else (loaderTable parsed).map fun table => (table, parsed.id)

section Address

variable {env : Env J V} {k k' : String} {t : Table} {id : String}

theorem rowAddress_eq_some (h : env.rowAddress k = some (t, id)) :
    ∃ parsed, env.prefixes.resolve k = .ok parsed ∧ loaderTable parsed = some t ∧ parsed.id = id ∧
      ¬ (parsed.scope = .global ∧ parsed.kind ≠ "pricing") := by
  unfold Env.rowAddress at h
  split at h
  · cases h
  next parsed hresolve =>
    split at h
    · cases h
    next hscope =>
      obtain ⟨table, htable, heq⟩ := Option.map_eq_some_iff.1 h
      obtain ⟨rfl, rfl⟩ := Prod.mk.inj heq
      exact ⟨parsed, hresolve, htable, rfl, hscope⟩

theorem address_of_rowAddress (h : env.rowAddress k = some (t, id)) :
    env.address k = some (t.name, id) := by
  obtain ⟨parsed, hresolve, htable, rfl, hscope⟩ := rowAddress_eq_some h
  unfold Env.address
  rw [hresolve]
  dsimp only
  rw [loaderTable_name htable hscope]

theorem load_rowAddress {raw : RawEntry} {l : Loaded V} (h : load env raw = .ok l) :
    env.rowAddress raw.key = some (l.table, l.entry.id) := by
  cases hresolve : env.prefixes.resolve raw.key with
  | error err => simp [load, hresolve] at h
  | ok parsed =>
    simp only [load, hresolve] at h
    simp only [Env.rowAddress, hresolve]
    split at h
    · cases h
    next =>
      split at h
      · cases h
      next hscope =>
        rw [if_neg hscope]
        split at h
        · cases h
        next table htable =>
          rw [htable]
          split at h <;> cases h
          rfl

/-- Only the shared catalog's prices are in `globalPricing`, and nothing else of the shared catalog
is anywhere. -/
theorem loaderTable_scope {parsed : ScopedKey} (h : loaderTable parsed = some t)
    (hscope : ¬ (parsed.scope = .global ∧ parsed.kind ≠ "pricing")) :
    (parsed.scope = .global ↔ t = .globalPricing) ∧
    (parsed.scope = .global → parsed.kind = "pricing") := by
  obtain ⟨scope, kind, id⟩ := parsed
  by_cases hk : kind = "pricing"
  · subst hk
    cases scope <;> cases h <;> simp
  · have henv : scope = .environment := by
      cases scope with
      | environment => rfl
      | global => exact absurd ⟨rfl, hk⟩ hscope
    subst henv
    refine ⟨⟨fun h => (by cases h), fun ht => ?_⟩, fun h => (by cases h)⟩
    subst ht
    unfold loaderTable at h
    split at h
    · contradiction
    · cases h
    next hne =>
      have hname := Table.ofName?_eq_some.1 h
      exact absurd hname hne

theorem rowAddress_inj {environment global : String}
    (hprefixes : env.prefixes = .new [⟨environment, .environment⟩, ⟨global, .global⟩])
    (h : env.rowAddress k = some (t, id)) (h' : env.rowAddress k' = some (t, id)) : k = k' := by
  obtain ⟨p, hp, htable, rfl, hscope⟩ := rowAddress_eq_some h
  obtain ⟨p', hp', htable', hid, hscope'⟩ := rowAddress_eq_some h'
  have hname := (loaderTable_name htable hscope).trans (loaderTable_name htable' hscope').symm
  obtain ⟨hglobal, hkind⟩ := loaderTable_scope htable hscope
  obtain ⟨hglobal', hkind'⟩ := loaderTable_scope htable' hscope'
  have heq : p = p' := by
    obtain ⟨scope, kind, id⟩ := p
    obtain ⟨scope', kind', id'⟩ := p'
    obtain rfl : id' = id := hid
    have hs : scope = scope' := by
      cases scope <;> cases scope' <;> first | rfl | (exfalso; simp_all)
    subst hs
    have hk : kind = kind' := by
      cases scope with
      | environment => exact hname
      | global => exact (hkind rfl).trans (hkind' rfl).symm
    rw [hk]
  rw [hprefixes] at hp hp'
  exact PrefixSet.resolve_inj hp (heq ▸ hp')

end Address

/-- Rows and pins come from documents of their own key. -/
structure Owned (env : Env J V) (s : Supervisor V) : Prop where
  observed : ∀ k e, s.books.observed.lookup k = some e → e.key = k
  pinned : ∀ k p, s.books.stale.lookup k = some p → p.key = k ∧ (rowOf env p).isSome
  served : ∀ k t id, env.rowAddress k = some (t, id) → (s.snapshot.row t id).isSome →
    k ∈ s.books.stale ∨ ∃ e, s.books.observed.lookup k = some e ∧ (rowOf env e).isSome

/-- The row a misplaced key addresses is not served. -/
def HitsNoRow (env : Env J V) (s : Supervisor V) (k : String) : Prop :=
  env.rowAddress k = none → ∀ addr ∈ env.address k, s.snapshot.has addr.1 addr.2 = false

/-- A misplaced key is written: nothing is known of it, or the row it addresses is not served. -/
def PutHitsNoRow (env : Env J V) (s : Supervisor V) (k : String) : Prop :=
  k ∈ s.books.observed → HitsNoRow env s k

/-- The event of a misplaced key hits no served row. -/
def EventHitsNoRow (env : Env J V) (s : Supervisor V) : PendingEvent → Prop
  | .put e => PutHitsNoRow env s e.key
  | .delete k _ => HitsNoRow env s k

instance {env : Env J V} {s : Supervisor V} (k : String) : Decidable (HitsNoRow env s k) :=
  inferInstanceAs (Decidable (_ → _))

instance {env : Env J V} {s : Supervisor V} (k : String) : Decidable (PutHitsNoRow env s k) :=
  inferInstanceAs (Decidable (_ → _))

instance {env : Env J V} {s : Supervisor V} :
    (event : PendingEvent) → Decidable (EventHitsNoRow env s event)
  | .put e => inferInstanceAs (Decidable (PutHitsNoRow env s e.key))
  | .delete k _ => inferInstanceAs (Decidable (HitsNoRow env s k))

section Step

variable {env : Env J V} {s : Supervisor V} {k : String} {t : Table} {id : String}

theorem Owned.init : Owned env (Supervisor.new : Supervisor V) where
  observed k e he := by cases he
  pinned k p hp := by cases hp
  served k t id _ hrow := by cases hrow

theorem serving_of_misplaced (hk : env.rowAddress k = none) (h : PutHitsNoRow env s k) :
    s.serving env k = none := by
  cases hs : s.serving env k with
  | none => rfl
  | some p =>
    have hobs : k ∈ s.books.observed :=
      AList.lookup_isSome.1 (by rw [Supervisor.serving_eq_some hs]; rfl)
    unfold Supervisor.serving at hs
    cases haddr : env.address k with
    | none => rw [haddr] at hs; cases hs
    | some addr =>
      have hhas := h hobs hk addr haddr
      rw [haddr] at hs
      dsimp only at hs
      rw [hhas] at hs
      cases hs

theorem Owned.serving_loads (h : Owned env s) (hput : PutHitsNoRow env s k)
    (hpin : k ∉ s.books.stale)
    {p : RawEntry} (hp : s.serving env k = some p) : p.key = k ∧ (rowOf env p).isSome := by
  have hobs := Supervisor.serving_eq_some hp
  refine ⟨h.observed k p hobs, ?_⟩
  cases hrow : env.rowAddress k with
  | none =>
    rw [serving_of_misplaced hrow hput] at hp
    cases hp
  | some addr =>
    obtain ⟨t, id⟩ := addr
    have haddr := address_of_rowAddress hrow
    have hserved : (s.snapshot.row t id).isSome := by
      unfold Supervisor.serving at hp
      rw [haddr] at hp
      dsimp only at hp
      rw [Snapshot.has_name] at hp
      split at hp
      · assumption
      · cases hp
    rcases h.served k t id hrow hserved with hstale | ⟨e, he, hload⟩
    · exact absurd hstale hpin
    · rw [hobs] at he
      obtain rfl := Option.some.inj he
      exact hload

theorem Owned.pinOf_loads (h : Owned env s) (hput : PutHitsNoRow env s k) {p : RawEntry}
    (hp : pinOf env s k = some p) : p.key = k ∧ (rowOf env p).isSome := by
  rcases Option.or_eq_some_iff.1 hp with hp | ⟨hnone, hp⟩
  · exact h.pinned k p hp
  · exact h.serving_loads hput (AList.lookup_eq_none.1 hnone) hp

theorem row_event_of_ne {environment global : String}
    (hprefixes : env.prefixes = .new [⟨environment, .environment⟩, ⟨global, .global⟩])
    {event : PendingEvent} (hevent : EventHitsNoRow env s event) (hne : k ≠ event.key)
    (hk : env.rowAddress k = some (t, id)) :
    (s.applyEvents env [event]).2.snapshot.row t id = s.snapshot.row t id := by
  cases event with
  | put e =>
    rw [row_put]
    split
    next haddr =>
      cases hl : load env e with
      | error r => simp [rowOf, hl]
      | ok l =>
        -- an accepted document has a row of its own
        have hself := load_rowAddress hl
        have haddr' := (load_address hl).symm.trans haddr
        obtain ⟨hname, hid⟩ := Prod.mk.inj (Option.some.inj haddr')
        have ht := Table.ofName?_name t
        rw [← hname, Table.ofName?_name] at ht
        rw [Option.some.inj ht, hid] at hself
        exact absurd (rowAddress_inj hprefixes hk hself) hne
    next => rfl
  | delete k' revision =>
    rw [row_delete]
    split
    next haddr =>
      cases hk' : env.rowAddress k' with
      | none =>
        have hhas := hevent hk' _ haddr
        rw [Snapshot.has_name] at hhas
        exact (Option.not_isSome_iff_eq_none.1 (by rw [hhas]; simp)).symm
      | some addr =>
        obtain ⟨t', id'⟩ := addr
        have haddr' := (address_of_rowAddress hk').symm.trans haddr
        obtain ⟨hname, hid⟩ := Prod.mk.inj (Option.some.inj haddr')
        have ht := Table.ofName?_name t
        rw [← hname, Table.ofName?_name] at ht
        rw [Option.some.inj ht, hid] at hk'
        exact absurd (rowAddress_inj hprefixes hk hk') hne
    next => rfl

theorem Owned.put {environment global : String}
    (hprefixes : env.prefixes = .new [⟨environment, .environment⟩, ⟨global, .global⟩])
    (h : Owned env s) {e : RawEntry} (hput : PutHitsNoRow env s e.key) :
    Owned env (s.applyEvents env [.put e]).2 := by
  refine ⟨fun k e' he' => ?_, fun k p hp => ?_, fun k t id hk hrow => ?_⟩
  · rw [observed_put] at he'
    by_cases hkey : k = e.key
    · rw [hkey, AList.lookup_insert] at he'
      rw [hkey, Option.some.inj he']
    · rw [AList.lookup_insert_ne hkey] at he'
      exact h.observed k e' he'
  · cases hl : load env e with
    | ok l =>
      rw [stale_put_accepted hl] at hp
      by_cases hkey : k = e.key
      · rw [hkey, AList.lookup_erase] at hp
        cases hp
      · rw [AList.lookup_erase_ne hkey] at hp
        exact h.pinned k p hp
    | error r =>
      rw [stale_put_rejected hl] at hp
      split at hp
      next hkey =>
        subst hkey
        exact h.pinOf_loads hput hp
      next => exact h.pinned k p hp
  · by_cases hkey : k = e.key
    · subst hkey
      cases hl : load env e with
      | ok l =>
        refine .inr ⟨e, by rw [observed_put, AList.lookup_insert], ?_⟩
        simp [rowOf, hl]
      | error r =>
        -- the row was there before, and what served it is pinned
        refine .inl (AList.lookup_isSome.1 ?_)
        have hload : rowOf env e = none := by simp [rowOf, hl]
        rw [row_put, hload, Option.none_or, ite_self] at hrow
        rw [stale_put_rejected hl, if_pos rfl, pinOf]
        rcases h.served _ t id hk hrow with hstale | ⟨e', he', -⟩
        · obtain ⟨p, hp⟩ := Option.isSome_iff_exists.1 (AList.lookup_isSome.2 hstale)
          rw [hp]; rfl
        · have hserving : s.serving env e.key = some e' := by
            unfold Supervisor.serving
            rw [address_of_rowAddress hk]
            dsimp only
            rw [Snapshot.has_name, if_pos hrow, he']
          rw [hserving]
          cases s.books.stale.lookup e.key <;> rfl
    · have hevent : EventHitsNoRow env s (.put e) := hput
      rw [row_event_of_ne hprefixes hevent hkey hk] at hrow
      rcases h.served k t id hk hrow with hstale | ⟨e', he', hload⟩
      · refine .inl (AList.lookup_isSome.1 ?_)
        cases hl : load env e with
        | ok l =>
          rw [stale_put_accepted hl, AList.lookup_erase_ne hkey]
          exact AList.lookup_isSome.2 hstale
        | error r =>
          rw [stale_put_rejected hl, if_neg hkey]
          exact AList.lookup_isSome.2 hstale
      · exact .inr ⟨e', by rw [observed_put, AList.lookup_insert_ne hkey, he'], hload⟩

theorem Owned.delete {environment global : String}
    (hprefixes : env.prefixes = .new [⟨environment, .environment⟩, ⟨global, .global⟩])
    (h : Owned env s) (revision : Option Int) (hhits : HitsNoRow env s k) :
    Owned env (s.applyEvents env [.delete k revision]).2 := by
  have hrest : ∀ k' t id, k' ≠ k → env.rowAddress k' = some (t, id) →
      ((s.applyEvents env [.delete k revision]).2.snapshot.row t id).isSome →
      k' ∈ s.books.stale ∨ ∃ e, s.books.observed.lookup k' = some e ∧ (rowOf env e).isSome := by
    intro k' t id hne hk' hrow
    have hevent : EventHitsNoRow env s (.delete k revision) := hhits
    rw [row_event_of_ne hprefixes hevent hne hk'] at hrow
    exact h.served k' t id hk' hrow
  cases haddr : env.address k with
  | none =>
    have hbooks : (s.applyEvents env [.delete k revision]).2.books = s.books.raise revision :=
      books_delete_unaddressed haddr
    refine ⟨fun k' e he => ?_, fun k' p hp => ?_, fun k' t id hk' hrow => ?_⟩
    · rw [hbooks, observed_raise] at he
      exact h.observed k' e he
    · rw [hbooks, stale_raise] at hp
      exact h.pinned k' p hp
    · rw [hbooks, observed_raise, stale_raise]
      refine hrest k' t id ?_ hk' hrow
      rintro rfl
      rw [address_of_rowAddress hk'] at haddr
      cases haddr
  | some addr =>
    have hsome : (env.address k).isSome := by rw [haddr]; rfl
    have hobserved : ∀ k', (s.applyEvents env [.delete k revision]).2.books.observed.lookup k' =
        if k' = k then none else s.books.observed.lookup k' := by
      intro k'
      rw [observed_delete hsome]
      by_cases hkey : k' = k
      · rw [hkey, AList.lookup_erase, if_pos rfl]
      · rw [AList.lookup_erase_ne hkey, if_neg hkey]
    have hstale : ∀ k', (s.applyEvents env [.delete k revision]).2.books.stale.lookup k' =
        if k' = k then none else s.books.stale.lookup k' := by
      intro k'
      rw [stale_delete hsome]
      by_cases hkey : k' = k
      · rw [hkey, AList.lookup_erase, if_pos rfl]
      · rw [AList.lookup_erase_ne hkey, if_neg hkey]
    refine ⟨fun k' e he => ?_, fun k' p hp => ?_, fun k' t id hk' hrow => ?_⟩
    · rw [hobserved] at he
      split at he
      · cases he
      · exact h.observed k' e he
    · rw [hstale] at hp
      split at hp
      · cases hp
      · exact h.pinned k' p hp
    · by_cases hkey : k' = k
      · subst hkey
        rw [row_delete, if_pos (address_of_rowAddress hk')] at hrow
        cases hrow
      · rcases hrest k' t id hkey hk' hrow with hmem | hobs
        · refine .inl (AList.lookup_isSome.1 ?_)
          rw [hstale, if_neg hkey]
          exact AList.lookup_isSome.2 hmem
        · rw [hobserved, if_neg hkey]
          exact .inr hobs

theorem Owned.event {environment global : String}
    (hprefixes : env.prefixes = .new [⟨environment, .environment⟩, ⟨global, .global⟩])
    (h : Owned env s) {event : PendingEvent} (hevent : EventHitsNoRow env s event) :
    Owned env (s.applyEvents env [event]).2 := by
  cases event with
  | put e => exact h.put hprefixes hevent
  | delete k revision => exact h.delete hprefixes revision hevent

/-- Every event of a batch, where it comes to be applied. -/
def EventsHitNoRow (env : Env J V) : Supervisor V → List PendingEvent → Prop
  | _, [] => True
  | s, event :: events =>
    EventHitsNoRow env s event ∧ EventsHitNoRow env (s.applyEvents env [event]).2 events

theorem Owned.events {environment global : String}
    (hprefixes : env.prefixes = .new [⟨environment, .environment⟩, ⟨global, .global⟩])
    {events : List PendingEvent} (h : Owned env s) (hevents : EventsHitNoRow env s events) :
    Owned env (s.applyEvents env events).2 := by
  rw [Supervisor.applyEvents_eq_oneByOne]
  dsimp only
  induction events generalizing s with
  | nil => exact h
  | cons event events ih => exact ih (h.event hprefixes hevents.1) hevents.2

theorem exists_entry_of_row {entries : List RawEntry} {acc : Snapshot V × BuildStats}
    (h : ((entries.foldl (buildStep env) acc).1.row t id).isSome) :
    (acc.1.row t id).isSome ∨
      ∃ e ∈ entries, (rowOf env e).isSome ∧ env.rowAddress e.key = some (t, id) := by
  induction entries generalizing acc with
  | nil => exact .inl h
  | cons e es ih =>
    rw [List.foldl_cons] at h
    rcases ih h with hacc | ⟨e', he', hrow⟩
    · cases hl : load env e with
      | error r =>
        simp only [buildStep, hl] at hacc
        exact .inl hacc
      | ok l =>
        simp only [buildStep, hl, Snapshot.row_insert] at hacc
        split at hacc
        next heq =>
          refine .inr ⟨e, List.mem_cons_self, by simp [rowOf, hl], ?_⟩
          rw [load_rowAddress hl, heq.1, heq.2]
        next => exact .inl hacc
    · exact .inr ⟨e', List.mem_cons_of_mem _ he', hrow⟩

theorem Owned.resync {environment global : String}
    (hprefixes : env.prefixes = .new [⟨environment, .environment⟩, ⟨global, .global⟩])
    {entries : List RawEntry} (h : Owned env s) (hnodup : (entries.map (·.key)).Nodup)
    (hput : ∀ e ∈ entries, PutHitsNoRow env s e.key) (readRevision : Option Int) :
    Owned env (s.applyResyncAt env entries readRevision) := by
  have hpin :
      ∀ k p, (s.reconcilePins env entries (buildSnapshot env entries).2.rejections).lookup k =
      some p → p.key = k ∧ (rowOf env p).isSome := by
    intro k p hp
    rw [Supervisor.lookup_reconcilePins] at hp
    split at hp
    next hrejected =>
      obtain ⟨e, he, rfl, -⟩ := hrejected
      exact h.pinOf_loads (hput e he) hp
    next => cases hp
  refine ⟨fun k e he => ?_, fun k p hp => ?_, fun k t id hk hrow => ?_⟩
  · rw [observed_resync env readRevision hnodup] at he
    exact (entryOf_eq_some he).2
  · rw [stale_resync_eq readRevision] at hp
    split at hp
    · cases hp
    · exact hpin k p hp
  · rw [row_resync_eq readRevision] at hrow
    by_cases hinjected : ((buildSnapshot env (injected env entries s)).1.row t id).isSome
    · -- the pin of the key loads, and so stays
      rcases exists_entry_of_row hinjected with hnone | ⟨p, hp, hload, hp'⟩
      · cases hnone
      · have hkey : p.key = k := rowAddress_inj hprefixes hp' hk
        obtain ⟨k', hk'⟩ := (mem_of_perm_values injected_perm).1 hp
        obtain rfl : p.key = k' := (hpin k' p hk').1
        refine .inl (AList.lookup_isSome.1 ?_)
        rw [stale_resync_eq readRevision, if_neg, ← hkey, hk']
        · rfl
        · intro hmem
          obtain ⟨p', hmem', hkey', hnone⟩ := mem_rejections_build.1 hmem
          have hsame := List.inj_on_of_nodup_map
            (nodup_of_perm_values (fun k p hp => (hpin k p hp).1) injected_perm) hmem' hp
            (hkey'.trans hkey.symm)
          rw [hsame] at hnone
          rw [hnone] at hload
          cases hload
    · rw [Option.not_isSome_iff_eq_none.1 hinjected, Option.none_or] at hrow
      rcases exists_entry_of_row hrow with hnone | ⟨e, he, hload, he'⟩
      · cases hnone
      · have hkey : e.key = k := rowAddress_inj hprefixes he' hk
        refine .inr ⟨e, ?_, hload⟩
        rw [observed_resync env readRevision hnodup, ← hkey]
        exact entryOf_of_mem hnodup he

theorem Owned.restart {environment global : String}
    (hprefixes : env.prefixes = .new [⟨environment, .environment⟩, ⟨global, .global⟩])
    (h : Owned env s) : Owned env (Supervisor.new.restoreFromCache env (s.cached env)) := by
  have hseeded : Owned env (seeded (s.cached env).stale : Supervisor V) :=
    { observed := fun k e he => by cases he
      pinned := fun k p hp => by
        have hlookup := lookup_foldl_insert_of_perm_values (fun k p hp => (h.pinned k p hp).1)
          (env.hashOrder_perm _) k
        exact h.pinned k p (hlookup.symm.trans hp)
      served := fun k t id _ hrow => by cases hrow }
  have hnodup : ((s.cached env).entries.map (·.key)).Nodup :=
    nodup_of_perm_values h.observed (List.perm_insertionSort _ _)
  have hput : ∀ e ∈ (s.cached env).entries,
      PutHitsNoRow env (seeded (s.cached env).stale : Supervisor V) e.key := by
    intro e _ hmem
    cases hmem
  have hbooks := hseeded.resync hprefixes hnodup hput none
  exact ⟨hbooks.observed, hbooks.pinned, hbooks.served⟩

end Step

instance decidableEventsHitNoRow {env : Env J V} :
    (s : Supervisor V) → (events : List PendingEvent) → Decidable (EventsHitNoRow env s events)
  | _, [] => inferInstanceAs (Decidable True)
  | s, event :: events =>
    have : Decidable (EventsHitNoRow env (s.applyEvents env [event]).2 events) :=
      decidableEventsHitNoRow (s.applyEvents env [event]).2 events
    inferInstanceAs (Decidable (EventHitsNoRow env s event ∧ _))

/-- A process, and the caches that were written so far (latest first). -/
structure Process (V : Type) where
  sup : Supervisor V
  written : List Supervisor.CachedSnapshot

namespace Process

variable {env : Env J V}

def start : Process V := ⟨.new, []⟩

def flushed (env : Env J V) (st : Process V) (sup : Supervisor V) : Process V :=
  ⟨sup, sup.cached env :: st.written⟩

/-- A read returns no key twice. -/
def step (env : Env J V) (st : Process V) : Act → Option (Process V)
  | .put entry => some (st.flushed env (st.sup.applyPut env entry).2)
  | .delete k => some (st.flushed env (st.sup.applyDelete env k).2)
  | .events batch => some (st.flushed env (st.sup.applyEvents env batch).2)
  | .resync entries readRevision =>
    if (entries.map (·.key)).Nodup then
      some (st.flushed env (st.sup.applyResyncAt env entries readRevision))
    else none
  | .restart i => st.written[i]?.map fun c => st.flushed env (Supervisor.new.restoreFromCache env c)

/-- No misplaced key of the step hits a served row. -/
def HitsNoRow (env : Env J V) (st : Process V) : Act → Prop
  | .put entry => PutHitsNoRow env st.sup entry.key
  | .delete k => Etcd.HitsNoRow env st.sup k
  | .events batch => EventsHitNoRow env st.sup batch
  | .resync entries _ => ∀ e ∈ entries, PutHitsNoRow env st.sup e.key
  | .restart _ => True

instance (st : Process V) : (a : Act) → Decidable (HitsNoRow env st a)
  | .put entry => inferInstanceAs (Decidable (PutHitsNoRow env st.sup entry.key))
  | .delete k => inferInstanceAs (Decidable (Etcd.HitsNoRow env st.sup k))
  | .events batch => inferInstanceAs (Decidable (EventsHitNoRow env st.sup batch))
  | .resync entries _ => inferInstanceAs (Decidable (∀ e ∈ entries, PutHitsNoRow env st.sup e.key))
  | .restart _ => inferInstanceAs (Decidable True)

structure Inv (env : Env J V) (st : Process V) : Prop where
  now : Owned env st.sup
  written : ∀ c ∈ st.written, ∃ s : Supervisor V, Owned env s ∧ c = s.cached env

theorem Inv.flushed {st : Process V} (h : Inv env st) {sup : Supervisor V} (hnow : Owned env sup) :
    Inv env (st.flushed env sup) := by
  refine ⟨hnow, fun c hc => ?_⟩
  rcases List.mem_cons.1 hc with rfl | hc
  · exact ⟨sup, hnow, rfl⟩
  · exact h.written c hc

variable {environment global : String}

theorem Inv.step (hprefixes : env.prefixes = .new [⟨environment, .environment⟩, ⟨global, .global⟩])
    {st st' : Process V} {a : Act} (h : Inv env st) (ha : HitsNoRow env st a)
    (hs : step env st a = some st') : Inv env st' := by
  cases a with
  | put entry =>
    obtain rfl := Option.some.inj hs
    exact h.flushed (h.now.put hprefixes ha)
  | delete k =>
    obtain rfl := Option.some.inj hs
    exact h.flushed (h.now.delete hprefixes none ha)
  | events batch =>
    obtain rfl := Option.some.inj hs
    exact h.flushed (h.now.events hprefixes ha)
  | resync entries readRevision =>
    simp only [Process.step] at hs
    split at hs
    next hnodup =>
      obtain rfl := Option.some.inj hs
      exact h.flushed (h.now.resync hprefixes hnodup ha readRevision)
    next => cases hs
  | restart i =>
    obtain ⟨c, hi, rfl⟩ := Option.map_eq_some_iff.1 hs
    obtain ⟨s, howned, rfl⟩ := h.written c (List.mem_of_getElem? hi)
    exact h.flushed (howned.restart hprefixes)

/-- While no misplaced key hits a served row, every pin is a document of its own key that loaded,
and an event leaves the rows of all other keys as they are. -/
theorem event_touches_own_row
    (hprefixes : env.prefixes = .new [⟨environment, .environment⟩, ⟨global, .global⟩])
    {acts : List Act} {st : Process V} (hm : Lts.Meets (step env) (HitsNoRow env) start acts)
    (hr : Lts.run (step env) start acts = some st) :
    (∀ k p, st.sup.books.stale.lookup k = some p → p.key = k ∧ (rowOf env p).isSome) ∧
      ∀ event, EventHitsNoRow env st.sup event → ∀ k t id, k ≠ event.key →
        env.rowAddress k = some (t, id) →
        (st.sup.applyEvents env [event]).2.snapshot.row t id = st.sup.snapshot.row t id := by
  have hinv : Inv env st := Lts.run_invariant_of_meets (fun _ _ _ h ha hs => h.step hprefixes ha hs)
    ⟨Owned.init, fun _ hc => by cases hc⟩ hm hr
  exact ⟨hinv.now.pinned, fun event hevent k t id hne hk => row_event_of_ne hprefixes hevent hne hk⟩

/-- A model is put and its next bytes are refused; a misplaced key that names no row is written. -/
def refusedModel : List Act :=
  [.put ⟨"/aisix/e1/models/m", [1], 1⟩, .put ⟨"/aisix/e1/models/m", [], 2⟩,
    .put ⟨"/aisix/global/models/n", [1], 3⟩]

theorem event_touches_own_row_refused :
    ∃ st, Lts.run (step Run.environmentAndCatalog) start refusedModel = some st ∧
      "/aisix/e1/models/m" ∈ st.sup.books.stale ∧
      (∀ k p, st.sup.books.stale.lookup k = some p →
        p.key = k ∧ (rowOf Run.environmentAndCatalog p).isSome) ∧
      ∀ event, EventHitsNoRow Run.environmentAndCatalog st.sup event → ∀ k t id, k ≠ event.key →
        Run.environmentAndCatalog.rowAddress k = some (t, id) →
        (st.sup.applyEvents Run.environmentAndCatalog [event]).2.snapshot.row t id =
          st.sup.snapshot.row t id := by
  refine ⟨_, rfl, by decide, event_touches_own_row rfl ?_
    (show Lts.run _ start refusedModel = _ from rfl)⟩
  decide

/-- Deleting a misplaced key takes a served model offline, and bytes of a misplaced key that never
loaded are pinned. -/
theorem misplaced_key_hits_row :
    (∃ st, Lts.run (step Run.environmentAndCatalog) start [.put ⟨"/aisix/e1/models/m", [1], 1⟩] =
      some st ∧
        Run.environmentAndCatalog.rowAddress "/aisix/e1/models/m" = some (.models, "m") ∧
        (st.sup.snapshot.row .models "m").isSome ∧
        (st.sup.applyDelete Run.environmentAndCatalog "/aisix/global/models/m").2.snapshot.row
        .models "m" = none) ∧
    ∃ st, Lts.run (step Run.environmentAndCatalog) start
        [.put ⟨"/aisix/e1/models/m", [1], 1⟩, .put ⟨"/aisix/global/models/m", [1], 2⟩,
          .put ⟨"/aisix/global/models/m", [2], 3⟩] = some st ∧
      ∃ p, st.sup.books.stale.lookup "/aisix/global/models/m" = some p ∧
        rowOf Run.environmentAndCatalog p = none := by
  refine ⟨⟨_, rfl, by decide, by decide, by decide⟩,
    ⟨_, rfl, ⟨"/aisix/global/models/m", [1], 2⟩, ?_, ?_⟩⟩
  · decide
  · decide

end Process

end Etcd
end Aisix
