import Aisix.Etcd.Event

/-!
# Aisix.Etcd.LastGood

What is served for one watched key over whole runs: coalesced watch events, full resyncs, and boots
of a new process from a cache that an earlier state of the run had written. No other key of the run
addresses the row of the watched one.

`Watch` is the history of the key as etcd tells it, kept beside the supervisor: its latest bytes,
and the most recent bytes that loaded since it was last absent.

* `Inv.event`, `Inv.resync`, `Inv.restart` — each kind of step keeps books, pins and row in line
  with the history.
* `last_good_served` — what that says about the row that is served.
-/

namespace Aisix
namespace Etcd

variable {J V : Type}

/-- The history of the watched key. -/
structure Watch where
  latest : Option RawEntry
  /-- The most recent bytes that loaded since the key was last absent. -/
  good : Option RawEntry

/-- The key is found with these bytes, or absent. -/
def Watch.see (env : Env J V) (found : Option RawEntry) (w : Watch) : Watch :=
  match found with
  | none => ⟨none, none⟩
  | some e => ⟨some e, if rowOf env e = none then w.good else some e⟩

def Watch.observe (env : Env J V) (key : String) (w : Watch) (event : PendingEvent) : Watch :=
  if event.key = key then
    match event with
    | .put e => w.see env (some e)
    | .delete _ _ => w.see env none
  else w

structure Watch.Sound (env : Env J V) (w : Watch) : Prop where
  loads : ∀ g ∈ w.good, (rowOf env g).isSome
  current : ∀ e ∈ w.latest, (rowOf env e).isSome → w.good = some e
  absent : w.latest = none → w.good = none

theorem Watch.Sound.see {env : Env J V} {w : Watch} (h : w.Sound env) (found : Option RawEntry) :
    (w.see env found).Sound env := by
  cases found with
  | none => exact ⟨fun g hg => (by cases hg), fun e he => (by cases he), fun _ => rfl⟩
  | some e =>
    refine ⟨fun g hg => ?_, fun e' he' hrow => ?_, fun habs => by cases habs⟩
    · simp only [Watch.see] at hg
      split at hg
      · exact h.loads g hg
      next hne =>
        obtain rfl := Option.some.inj hg
        exact Option.isSome_iff_ne_none.2 hne
    · obtain rfl := Option.some.inj he'
      simp only [Watch.see]
      rw [if_neg (Option.isSome_iff_ne_none.1 hrow)]

/-- Books, pins and row of the watched key follow from its history. -/
structure Inv (env : Env J V) (key : String) (s : Supervisor V) (w : Watch) : Prop where
  keyed : Keyed env key s.books
  sound : w.Sound env
  observed : s.books.observed.lookup key = w.latest
  stale : s.books.stale.lookup key = w.latest.bind fun e =>
    if rowOf env e = none then w.good else none
  row : ∀ t id, env.address key = some (t.name, id) → s.snapshot.row t id = w.good.bind (rowOf env)

section Step

variable {env : Env J V} {key : String} {s s' : Supervisor V} {w : Watch}

theorem Inv.init : Inv env key (Supervisor.new : Supervisor V) ⟨none, none⟩ where
  keyed := ⟨by simp [Supervisor.new, Books.empty], by simp [Supervisor.new, Books.empty],
    by simp [Supervisor.new, Books.empty]⟩
  sound := ⟨fun g hg => (by cases hg), fun e he => (by cases he), fun _ => rfl⟩
  observed := by simp [Supervisor.new, Books.empty]
  stale := by simp [Supervisor.new, Books.empty]
  row t id _ := rfl

theorem Inv.latest_key (h : Inv env key s w) {e : RawEntry} (he : w.latest = some e) :
    e.key = key :=
  h.keyed.observed key e (h.observed.trans he)

theorem Inv.pinOf_eq (h : Inv env key s w) : pinOf env s key = w.good := by
  unfold pinOf
  rw [h.stale]
  cases hlatest : w.latest with
  | none =>
    rw [h.sound.absent hlatest]
    have hobs := h.observed.trans hlatest
    cases hs : s.serving env key with
    | none => rfl
    | some p =>
      rw [Supervisor.serving_eq_some hs] at hobs
      cases hobs
  | some e =>
    have hkey := h.latest_key hlatest
    cases hrow : rowOf env e with
    | some row =>
      -- the latest bytes load, so they are what serves
      have hgood := h.sound.current e hlatest (by rw [hrow]; rfl)
      obtain ⟨l, hl, -⟩ := rowOf_eq_some.1 hrow
      have haddr := load_address hl
      rw [hkey] at haddr
      have hhas : s.snapshot.has l.table.name l.entry.id = true := by
        rw [Snapshot.has_name, h.row _ _ haddr, hgood, Option.bind_some, hrow]; rfl
      simp [Supervisor.serving, haddr, hhas, hrow, h.observed, hlatest, hgood]
    | none =>
      cases hgood : w.good with
      | some g => simp [hrow]
      | none =>
        -- nothing of the key is served
        have hserving : s.serving env key = none := by
          unfold Supervisor.serving
          cases haddr : env.address key with
          | none => rfl
          | some addr =>
            obtain ⟨kind, id⟩ := addr
            dsimp only
            refine if_neg ?_
            unfold Snapshot.has
            cases hk : Table.ofName? kind with
            | none => simp
            | some t =>
              obtain rfl := Table.ofName?_eq_some.1 hk
              dsimp only
              rw [h.row t id haddr, hgood]
              simp
        simp [hserving]

/-- No other key addresses the row of `key`. -/
def Apart (env : Env J V) (key k : String) : Prop := k ≠ key → env.address k ≠ env.address key

instance (k : String) : Decidable (Apart env key k) :=
  inferInstanceAs (Decidable (k ≠ key → env.address k ≠ env.address key))

theorem Keyed.put (h : Keyed env key s.books) {e : RawEntry} (hapart : Apart env key e.key) :
    Keyed env key (s.applyEvents env [.put e]).2.books := by
  have hobserved : ∀ {k e'}, (s.applyEvents env [.put e]).2.books.observed.lookup k = some e' →
      (e' = e ∧ k = e.key) ∨ s.books.observed.lookup k = some e' := by
    intro k e' he'
    rw [observed_put] at he'
    by_cases hk : k = e.key
    · subst hk
      rw [AList.lookup_insert] at he'
      exact .inl ⟨(Option.some.inj he').symm, rfl⟩
    · rw [AList.lookup_insert_ne hk] at he'
      exact .inr he'
  have hstale : ∀ {k p}, (s.applyEvents env [.put e]).2.books.stale.lookup k = some p →
      s.books.stale.lookup k = some p ∨ s.books.observed.lookup k = some p := by
    intro k p hp
    cases hl : load env e with
    | ok l =>
      rw [stale_put_accepted hl] at hp
      by_cases hk : k = e.key
      · rw [hk, AList.lookup_erase] at hp
        cases hp
      · rw [AList.lookup_erase_ne hk] at hp
        exact .inl hp
    | error r =>
      rw [stale_put_rejected hl] at hp
      split at hp
      · rcases Option.or_eq_some_iff.1 hp with hp | ⟨-, hp⟩
        · exact .inl hp
        · exact .inr (Supervisor.serving_eq_some hp)
      · exact .inl hp
  refine ⟨fun k e' he' => ?_, fun k p hp => ?_, fun k hne hin => ?_⟩
  · rcases hobserved he' with ⟨rfl, rfl⟩ | he'
    · rfl
    · exact h.observed k e' he'
  · rcases hstale hp with hp | hp
    · exact h.stale k p hp
    · exact h.observed k p hp
  · rcases hin with hin | hin
    · obtain ⟨e', he'⟩ := Option.isSome_iff_exists.1 hin
      rcases hobserved he' with ⟨rfl, rfl⟩ | he'
      · exact hapart hne
      · exact h.apart k hne (.inl (by rw [he']; rfl))
    · obtain ⟨p, hp⟩ := Option.isSome_iff_exists.1 hin
      rcases hstale hp with hp | hp
      · exact h.apart k hne (.inr (by rw [hp]; rfl))
      · exact h.apart k hne (.inl (by rw [hp]; rfl))

theorem Keyed.delete (h : Keyed env key s.books) (k : String) (revision : Option Int) :
    Keyed env key (s.applyEvents env [.delete k revision]).2.books := by
  cases haddr : env.address k with
  | none =>
    rw [books_delete_unaddressed haddr]
    exact ⟨fun k' e he => h.observed k' e (by simpa using he),
      fun k' p hp => h.stale k' p (by simpa using hp),
      fun k' hne hin => h.apart k' hne (by simpa using hin)⟩
  | some addr =>
    have haddr : (env.address k).isSome := by rw [haddr]; rfl
    have herase : ∀ {m : KeyMap String RawEntry} {k' e}, (m.erase k).lookup k' = some e →
        m.lookup k' = some e := by
      intro m k' e he
      by_cases hk : k' = k
      · rw [hk, AList.lookup_erase] at he
        cases he
      · rwa [AList.lookup_erase_ne hk] at he
    refine ⟨fun k' e he => ?_, fun k' p hp => ?_, fun k' hne hin => ?_⟩
    · rw [observed_delete haddr] at he
      exact h.observed k' e (herase he)
    · rw [stale_delete haddr] at hp
      exact h.stale k' p (herase hp)
    · rw [observed_delete haddr, stale_delete haddr] at hin
      refine h.apart k' hne (hin.imp (fun hin => ?_) fun hin => ?_)
      · obtain ⟨e, he⟩ := Option.isSome_iff_exists.1 hin
        rw [herase he]; rfl
      · obtain ⟨p, hp⟩ := Option.isSome_iff_exists.1 hin
        rw [herase hp]; rfl

theorem Inv.put_self (h : Inv env key s w) {e : RawEntry} (hkey : e.key = key) :
    Inv env key (s.applyEvents env [.put e]).2 (w.see env (some e)) where
  keyed := h.keyed.put fun hne => absurd hkey hne
  sound := h.sound.see (some e)
  observed := by rw [observed_put, ← hkey, AList.lookup_insert]; rfl
  stale := by
    cases hl : load env e with
    | ok l =>
      rw [stale_put_accepted hl, ← hkey, AList.lookup_erase]
      simp [Watch.see, rowOf, hl]
    | error r =>
      rw [stale_put_rejected hl, if_pos hkey.symm, h.pinOf_eq]
      simp [Watch.see, rowOf, hl]
  row t id haddr := by
    rw [row_put, hkey, if_pos haddr, h.row t id haddr]
    cases hrow : rowOf env e <;> simp [Watch.see, hrow]

theorem Inv.delete_self (h : Inv env key s w) (revision : Option Int)
    (hkey : (env.address key).isSome) :
    Inv env key (s.applyEvents env [.delete key revision]).2 (w.see env none) where
  keyed := h.keyed.delete key revision
  sound := h.sound.see none
  observed := by rw [observed_delete hkey, AList.lookup_erase]; rfl
  stale := by rw [stale_delete hkey, AList.lookup_erase]; rfl
  row t id haddr := by rw [row_delete, if_pos haddr]; rfl

theorem Inv.put_other (h : Inv env key s w) {e : RawEntry} (hne : e.key ≠ key)
    (hapart : Apart env key e.key) : Inv env key (s.applyEvents env [.put e]).2 w where
  keyed := h.keyed.put hapart
  sound := h.sound
  observed := by rw [observed_put, AList.lookup_insert_ne hne.symm, h.observed]
  stale := by
    rw [← h.stale]
    cases hl : load env e with
    | ok l => rw [stale_put_accepted hl, AList.lookup_erase_ne hne.symm]
    | error r => rw [stale_put_rejected hl, if_neg hne.symm]
  row t id haddr := by
    rw [row_put, if_neg (haddr ▸ hapart hne), h.row t id haddr]

theorem Inv.delete_other (h : Inv env key s w) {k : String} (revision : Option Int) (hne : k ≠ key)
    (hapart : Apart env key k) : Inv env key (s.applyEvents env [.delete k revision]).2 w where
  keyed := h.keyed.delete k revision
  sound := h.sound
  observed := by
    rw [← h.observed]
    cases haddr : env.address k with
    | none => rw [books_delete_unaddressed haddr, observed_raise]
    | some addr => rw [observed_delete (by rw [haddr]; rfl), AList.lookup_erase_ne hne.symm]
  stale := by
    rw [← h.stale]
    cases haddr : env.address k with
    | none => rw [books_delete_unaddressed haddr, stale_raise]
    | some addr => rw [stale_delete (by rw [haddr]; rfl), AList.lookup_erase_ne hne.symm]
  row t id haddr := by rw [row_delete, if_neg (haddr ▸ hapart hne), h.row t id haddr]

theorem Inv.event (h : Inv env key s w) (event : PendingEvent) (hkey : (env.address key).isSome)
    (hapart : Apart env key event.key) :
    Inv env key (s.applyEvents env [event]).2 (w.observe env key event) := by
  unfold Watch.observe
  by_cases heq : event.key = key
  · rw [if_pos heq]
    cases event with
    | put e => exact h.put_self heq
    | delete k revision =>
      obtain rfl : k = key := heq
      exact h.delete_self revision hkey
  · rw [if_neg heq]
    cases event with
    | put e => exact h.put_other heq hapart
    | delete k revision => exact h.delete_other revision heq hapart

theorem Inv.events {events : List PendingEvent} (h : Inv env key s w)
    (hkey : (env.address key).isSome) (hapart : ∀ event ∈ events, Apart env key event.key) :
    Inv env key (s.applyEvents env events).2 (events.foldl (Watch.observe env key) w) := by
  rw [Supervisor.applyEvents_eq_oneByOne]
  dsimp only
  induction events generalizing s w with
  | nil => exact h
  | cons event events ih =>
    obtain ⟨hevent, hevents⟩ := List.forall_mem_cons.1 hapart
    exact ih (h.event event hkey hevent) hevents

theorem Inv.resync {entries : List RawEntry} (h : Inv env key s w) (hsep : Separate env key entries)
    (readRevision : Option Int) :
    Inv env key (s.applyResyncAt env entries readRevision) (w.see env (entryOf entries key)) where
  keyed := h.keyed.resync readRevision hsep
  sound := h.sound.see (entryOf entries key)
  observed := by
    rw [observed_resync env readRevision hsep.nodup]
    cases entryOf entries key <;> rfl
  stale := by
    have hpin : ∀ p ∈ pinOf env s key, (rowOf env p).isSome := by
      intro p hp
      rw [h.pinOf_eq] at hp
      exact h.sound.loads p hp
    rw [h.keyed.stale_resync readRevision hsep hpin, h.pinOf_eq]
    cases entryOf entries key with
    | none => rfl
    | some e =>
      simp only [Watch.see, Option.bind_some]
      split <;> rfl
  row t id haddr := by
    rw [h.keyed.row_resync readRevision hsep haddr, h.pinOf_eq]
    cases entryOf entries key with
    | none => rfl
    | some e => cases hrow : rowOf env e <;> simp [Watch.see, hrow]

section Boot

theorem Inv.cached_separate (h : Inv env key s w) : Separate env key (s.cached env).entries := by
  have hperm : (s.cached env).entries.Perm s.books.observed.values := List.perm_insertionSort _ _
  refine ⟨nodup_of_perm_values h.keyed.observed hperm, fun e he hne => ?_⟩
  obtain ⟨k, hk⟩ := (mem_of_perm_values hperm).1 he
  rw [h.keyed.observed k e hk] at hne ⊢
  exact h.keyed.apart k hne (.inl (by rw [hk]; rfl))

theorem Inv.entryOf_cached (h : Inv env key s w) : entryOf (s.cached env).entries key = w.latest :=
  (entryOf_of_perm_values h.keyed.observed (List.perm_insertionSort _ _) key).trans h.observed

/-- A new process that has read nothing but the pins. -/
def seeded (pins : List RawEntry) : Supervisor V :=
  { Supervisor.new with
    books := { Books.empty with stale := pins.foldl (fun m e => m.insert e.key e) ∅ } }

theorem Inv.lookup_seeded (h : Inv env key s w) (k : String) :
    (seeded (s.cached env).stale : Supervisor V).books.stale.lookup k = s.books.stale.lookup k :=
  lookup_foldl_insert_of_perm_values h.keyed.stale (env.hashOrder_perm _) k

theorem Inv.seeded_keyed (h : Inv env key s w) :
    Keyed env key (seeded (s.cached env).stale : Supervisor V).books where
  observed k e he := by
    rw [show (seeded (s.cached env).stale : Supervisor V).books.observed = ∅ from rfl,
      AList.lookup_empty] at he
    cases he
  stale k p hp := h.keyed.stale k p ((h.lookup_seeded k).symm.trans hp)
  apart k hne hin := by
    rw [h.lookup_seeded k, show (seeded (s.cached env).stale : Supervisor V).books.observed =
      ∅ from rfl, AList.lookup_empty] at hin
    exact h.keyed.apart k hne (.inr (hin.resolve_left (by simp)))

theorem Inv.pinOf_seeded (h : Inv env key s w) :
    pinOf env (seeded (s.cached env).stale : Supervisor V) key = s.books.stale.lookup key := by
  have hserving : (seeded (s.cached env).stale : Supervisor V).serving env key = none := by
    cases hs : (seeded (s.cached env).stale : Supervisor V).serving env key with
    | none => rfl
    | some p => cases Supervisor.serving_eq_some hs
  unfold pinOf
  rw [hserving, Option.or_none, h.lookup_seeded key]

theorem Inv.restart (h : Inv env key s w) :
    Inv env key (Supervisor.new.restoreFromCache env (s.cached env)) w := by
  have hsep := h.cached_separate
  have hpin : ∀ p ∈ pinOf env (seeded (s.cached env).stale : Supervisor V) key,
      (rowOf env p).isSome := by
    intro p hp
    rw [h.pinOf_seeded, h.stale] at hp
    obtain ⟨e, -, he⟩ := Option.bind_eq_some_iff.1 hp
    split at he
    · exact h.sound.loads p he
    · cases he
  have hbooks := h.seeded_keyed.resync none hsep
  refine
    { keyed := ⟨hbooks.observed, hbooks.stale, hbooks.apart⟩
      sound := h.sound
      observed := (observed_resync env none hsep.nodup).trans h.entryOf_cached
      stale := (h.seeded_keyed.stale_resync none hsep hpin).trans ?_
      row := fun t id haddr => (h.seeded_keyed.row_resync none hsep haddr).trans ?_ }
  · rw [h.entryOf_cached, h.pinOf_seeded, h.stale]
    cases w.latest with
    | none => rfl
    | some e =>
      simp only [Option.bind_some]
      split <;> rfl
  · rw [h.entryOf_cached, h.pinOf_seeded, h.stale]
    cases hlatest : w.latest with
    | none => rw [h.sound.absent hlatest]; rfl
    | some e =>
      cases hrow : rowOf env e with
      | none => simp [hrow]
      | some row => simp [hrow, h.sound.current e hlatest (by rw [hrow]; rfl)]

end Boot

end Step

inductive Act where
  | put (entry : RawEntry)
  | delete (key : String)
  | events (batch : List PendingEvent)
  | resync (entries : List RawEntry) (readRevision : Option Int)
  /-- The process ends, and a new one boots from a cache this run had written. -/
  | restart (i : Nat)

/-- No key of the step but `key` addresses its row, and a read returns no key twice. -/
def Act.Apart (env : Env J V) (key : String) : Act → Prop
  | .put entry => Etcd.Apart env key entry.key
  | .delete k => Etcd.Apart env key k
  | .events batch => ∀ event ∈ batch, Etcd.Apart env key event.key
  | .resync entries _ => Separate env key entries
  | .restart _ => True

instance {env : Env J V} {key : String} (entries : List RawEntry) :
    Decidable (Separate env key entries) :=
  decidable_of_iff
    ((entries.map (·.key)).Nodup ∧ ∀ e ∈ entries, e.key ≠ key → env.address e.key ≠ env.address key)
    ⟨fun h => ⟨h.1, h.2⟩, fun h => ⟨h.nodup, h.apart⟩⟩

instance {env : Env J V} {key : String} : (a : Act) → Decidable (a.Apart env key)
  | .put entry => inferInstanceAs (Decidable (Etcd.Apart env key entry.key))
  | .delete k => inferInstanceAs (Decidable (Etcd.Apart env key k))
  | .events batch => inferInstanceAs (Decidable (∀ event ∈ batch, Etcd.Apart env key event.key))
  | .resync entries _ => inferInstanceAs (Decidable (Separate env key entries))
  | .restart _ => inferInstanceAs (Decidable True)

/-- A run: the supervisor, the history of the watched key, and the caches written so far (latest
first), each with the history at its time. -/
structure Run (V : Type) where
  sup : Supervisor V
  watch : Watch
  written : List (Supervisor.CachedSnapshot × Watch)

namespace Run

variable {env : Env J V} {key : String}

def start : Run V := ⟨.new, ⟨none, none⟩, []⟩

/-- Every apply ends with a write of the cache. -/
def flushed (env : Env J V) (r : Run V) (sup : Supervisor V) (watch : Watch) : Run V :=
  ⟨sup, watch, (sup.cached env, watch) :: r.written⟩

def step (env : Env J V) (key : String) (r : Run V) : Act → Option (Run V)
  | .put entry =>
    some (r.flushed env (r.sup.applyPut env entry).2 (r.watch.observe env key (.put entry)))
  | .delete k =>
    some (r.flushed env (r.sup.applyDelete env k).2 (r.watch.observe env key (.delete k none)))
  | .events batch =>
    some
      (r.flushed env (r.sup.applyEvents env batch).2 (batch.foldl (Watch.observe env key) r.watch))
  | .resync entries readRevision =>
    some (r.flushed env (r.sup.applyResyncAt env entries readRevision)
      (r.watch.see env (entryOf entries key)))
  | .restart i =>
    r.written[i]?.map fun (c, watch) => r.flushed env (Supervisor.new.restoreFromCache env c) watch

/-- Books, pins and row follow the history, now and in every cache that was written. -/
structure Good (env : Env J V) (key : String) (r : Run V) : Prop where
  now : Inv env key r.sup r.watch
  written : ∀ c w, (c, w) ∈ r.written → ∃ s : Supervisor V, Inv env key s w ∧ c = s.cached env

theorem Good.flushed {r : Run V} (h : Good env key r) {sup : Supervisor V} {watch : Watch}
    (hnow : Inv env key sup watch) : Good env key (r.flushed env sup watch) := by
  refine ⟨hnow, fun c w hmem => ?_⟩
  rcases List.mem_cons.1 hmem with heq | hmem
  · obtain ⟨rfl, rfl⟩ := Prod.mk.inj heq
    exact ⟨sup, hnow, rfl⟩
  · exact h.written c w hmem

theorem Good.step {r r' : Run V} {a : Act} (hkey : (env.address key).isSome) (h : Good env key r)
    (ha : a.Apart env key) (hs : step env key r a = some r') : Good env key r' := by
  cases a with
  | put entry =>
    obtain rfl := Option.some.inj hs
    exact h.flushed (h.now.event (.put entry) hkey ha)
  | delete k =>
    obtain rfl := Option.some.inj hs
    exact h.flushed (h.now.event (.delete k none) hkey ha)
  | events batch =>
    obtain rfl := Option.some.inj hs
    exact h.flushed (h.now.events hkey ha)
  | resync entries readRevision =>
    obtain rfl := Option.some.inj hs
    exact h.flushed (h.now.resync ha readRevision)
  | restart i =>
    obtain ⟨⟨c, w⟩, hi, rfl⟩ := Option.map_eq_some_iff.1 hs
    obtain ⟨s, hinv, rfl⟩ := h.written c w (List.mem_of_getElem? hi)
    exact h.flushed hinv.restart

theorem good_of_run {acts : List Act} {r : Run V} (hkey : (env.address key).isSome)
    (hacts : ∀ a ∈ acts, a.Apart env key) (hr : Lts.run (step env key) start acts = some r) :
    Good env key r :=
  Lts.run_invariant_of_meets (fun _ _ _ h ha hs => h.step hkey ha hs)
    ⟨Inv.init, fun _ _ hmem => (by cases hmem)⟩ (Lts.Meets.of_forall hacts start) hr

/-- What is served and pinned for the key, given its history. -/
structure ServesLastGood (env : Env J V) (key : String) (t : Table) (id : String) (r : Run V) :
    Prop where
  latest : r.sup.books.observed.lookup key = r.watch.latest
  /-- An absent key is neither served nor pinned. -/
  absent : r.watch.latest = none → r.sup.snapshot.row t id = none ∧ key ∉ r.sup.books.stale
  /-- Bytes that load are served. -/
  loads : ∀ e ∈ r.watch.latest, (rowOf env e).isSome → r.sup.snapshot.row t id = rowOf env e
  /-- Rejected bytes: a pinned key serves the last bytes that loaded. -/
  pinned : ∀ e ∈ r.watch.latest, rowOf env e = none → key ∈ r.sup.books.stale →
    ∃ g row, r.watch.good = some g ∧ rowOf env g = some row ∧ r.sup.snapshot.row t id = some row
  /-- Rejected bytes: a key that is not pinned is not served. -/
  unpinned : ∀ e ∈ r.watch.latest, rowOf env e = none → key ∉ r.sup.books.stale →
    r.sup.snapshot.row t id = none

theorem last_good_served {acts : List Act} {r : Run V} {t : Table} {id : String}
    (haddr : env.address key = some (t.name, id)) (hacts : ∀ a ∈ acts, a.Apart env key)
    (hr : Lts.run (step env key) start acts = some r) : ServesLastGood env key t id r := by
  have h := (good_of_run (by rw [haddr]; rfl) hacts hr).now
  have hrow := h.row t id haddr
  have hstale : ∀ e ∈ r.watch.latest, rowOf env e = none →
      r.sup.books.stale.lookup key = r.watch.good := by
    intro e he hnone
    rw [h.stale, he, Option.bind_some, if_pos hnone]
  refine ⟨h.observed, fun habs => ?_, fun e he hloads => ?_, fun e he hnone hpin => ?_,
    fun e he hnone hpin => ?_⟩
  · refine ⟨by rw [hrow, h.sound.absent habs]; rfl, AList.lookup_eq_none.1 ?_⟩
    rw [h.stale, habs]; rfl
  · rw [hrow, h.sound.current e he hloads]; rfl
  · obtain ⟨g, hg⟩ := Option.isSome_iff_exists.1 (AList.lookup_isSome.2 hpin)
    rw [hstale e he hnone] at hg
    obtain ⟨row, hload⟩ := Option.isSome_iff_exists.1 (h.sound.loads g hg)
    exact ⟨g, row, hg, hload, by rw [hrow, hg]; exact hload⟩
  · have hgood := AList.lookup_eq_none.2 hpin
    rw [hstale e he hnone] at hgood
    rw [hrow, hgood]; rfl

/-- One prefix, and a loader that takes every document but the empty one. -/
def nonemptyDocuments : Env Unit (List UInt8) where
  prefixes := .new [⟨"/aisix", .environment⟩]
  loader :=
    { parseJson := fun bytes => if bytes = [] then .error "EOF while parsing a value" else .ok ()
      document := fun _ key _ => .accepted key.toUTF8.toList [] }
  hashOrder := id
  hashOrder_perm := fun _ => .refl _

/-- The same loader under two prefixes: an environment and the shared catalog. -/
def environmentAndCatalog : Env Unit (List UInt8) :=
  { nonemptyDocuments with
    prefixes := .new [⟨"/aisix/e1", .environment⟩, ⟨"/aisix/global", .global⟩] }

/-- A row is put, its next bytes are refused next to a put of another row, and the process restarts
from the cache it wrote last. -/
def refusedThenRestarted : List Act :=
  [.put ⟨"/aisix/models/a", [1], 1⟩,
    .events [.put ⟨"/aisix/models/b", [1], 2⟩, .put ⟨"/aisix/models/a", [], 3⟩], .restart 0]

theorem last_good_served_refused :
    ∃ r, Lts.run (step nonemptyDocuments "/aisix/models/a") start refusedThenRestarted = some r ∧
      ServesLastGood nonemptyDocuments "/aisix/models/a" .models "a" r := by
  refine ⟨_, rfl, last_good_served ?_ ?_ (show Lts.run _ start refusedThenRestarted = _ from rfl)⟩
  · decide
  · decide

end Run

end Etcd
end Aisix
