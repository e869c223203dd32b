import Aisix.Etcd.Supervisor

/-!
# Aisix.Etcd.Resync

What a full rebuild does to one key whose row nobody else addresses.

* `Separate.row_build` — the build stores what the key's entry loads to.
* `lookup_reconcilePins` — the key stays pinned, or is pinned anew, exactly when it is rejected.
* `observed_resync`, `Keyed.stale_resync`, `Keyed.row_resync` — the latest entry, the pin and the
  row of the key after `applyResyncAt`.
-/

namespace Aisix
namespace Etcd

variable {J V : Type} {env : Env J V}

/-- The row an entry loads to. -/
def rowOf (env : Env J V) (e : RawEntry) : Option (ResourceEntry V) :=
  match load env e with
  | .ok l => some l.entry
  | .error _ => none

theorem rowOf_eq_some {e : RawEntry} {row : ResourceEntry V} :
    rowOf env e = some row ↔ ∃ l, load env e = .ok l ∧ l.entry = row := by
  unfold rowOf
  cases load env e <;> simp

section Build

variable {entries : List RawEntry} {acc : Snapshot V × BuildStats} {t : Table} {id : String}

theorem row_build_of_apart (h : ∀ e ∈ entries, env.address e.key ≠ some (t.name, id)) :
    (entries.foldl (buildStep env) acc).1.row t id = acc.1.row t id := by
  induction entries generalizing acc with
  | nil => rfl
  | cons e es ih =>
    obtain ⟨he, hes⟩ := List.forall_mem_cons.1 h
    rw [List.foldl_cons, ih hes]
    cases hl : load env e with
    | error r => simp [buildStep, hl]
    | ok l =>
      have haddr := load_address hl
      simp only [buildStep, hl, Snapshot.row_insert]
      rw [if_neg fun heq => he (by rw [haddr, heq.1, heq.2])]

theorem row_build_of_mem {e : RawEntry} (hnodup : (entries.map (·.key)).Nodup) (he : e ∈ entries)
    (haddr : env.address e.key = some (t.name, id))
    (hapart : ∀ e' ∈ entries, e'.key ≠ e.key → env.address e'.key ≠ some (t.name, id))
    (hacc : acc.1.row t id = none) :
    (entries.foldl (buildStep env) acc).1.row t id = rowOf env e := by
  induction entries generalizing acc with
  | nil => cases he
  | cons e' es ih =>
    rw [List.map_cons, List.nodup_cons] at hnodup
    rw [List.foldl_cons]
    rcases List.mem_cons.1 he with rfl | he
    · have hrest : ∀ e' ∈ es, env.address e'.key ≠ some (t.name, id) := fun e' he' =>
        hapart e' (List.mem_cons_of_mem _ he') fun heq =>
          hnodup.1 (heq ▸ List.mem_map_of_mem (f := fun e : RawEntry => e.key) he')
      rw [row_build_of_apart hrest]
      cases hl : load env e with
      | error r => simpa [buildStep, hl, rowOf] using hacc
      | ok l =>
        have hself := load_address hl
        rw [haddr, Option.some.injEq, Prod.mk.injEq] at hself
        have ht : t = l.table := by
          have hname := Table.ofName?_name t
          rw [hself.1, Table.ofName?_name] at hname
          exact (Option.some.inj hname).symm
        simp only [buildStep, hl, Snapshot.row_insert, rowOf]
        rw [if_pos ⟨ht, hself.2⟩]
    · have hne : e'.key ≠ e.key := fun heq =>
        hnodup.1 (heq ▸ List.mem_map_of_mem (f := fun e : RawEntry => e.key) he)
      refine ih hnodup.2 he (fun e'' he'' => hapart e'' (List.mem_cons_of_mem _ he'')) ?_
      have hother := hapart e' List.mem_cons_self hne
      have hone : (List.foldl (buildStep env) acc [e']).1.row t id = acc.1.row t id :=
        row_build_of_apart (by simpa using hother)
      exact hone.trans hacc

theorem rejections_build :
    (entries.foldl (buildStep env) acc).2.rejections.map (·.key) =
      acc.2.rejections.map (·.key) ++
        (entries.filter fun e => (rowOf env e).isNone).map (·.key) := by
  induction entries generalizing acc with
  | nil => simp
  | cons e es ih =>
    rw [List.foldl_cons, ih]
    cases hl : load env e with
    | error r =>
      have hnone : (rowOf env e).isNone = true := by simp [rowOf, hl]
      simp [buildStep, hl, hnone, load_error_key hl]
    | ok l =>
      have hsome : (rowOf env e).isNone = false := by simp [rowOf, hl]
      simp [buildStep, hl, hsome]

theorem mem_rejections_build {k : String} :
    k ∈ (buildSnapshot env entries).2.rejections.map (·.key) ↔
      ∃ e ∈ entries, e.key = k ∧ rowOf env e = none := by
  rw [buildSnapshot, rejections_build]
  simp only [BuildStats.new, List.map_nil, List.nil_append, List.mem_map, List.mem_filter,
    Option.isNone_iff_eq_none]
  exact ⟨fun ⟨e, ⟨he, hn⟩, hk⟩ => ⟨e, he, hk, hn⟩, fun ⟨e, he, hk, hn⟩ => ⟨e, ⟨he, hn⟩, hk⟩⟩

end Build

namespace Supervisor

variable {s : Supervisor V} {entries : List RawEntry} {k : String}

/-- The bytes that serve a key which is not pinned. -/
def serving (env : Env J V) (s : Supervisor V) (k : String) : Option RawEntry :=
  match env.address k with
  | none => none
  | some (kind, id) => if s.snapshot.has kind id then s.books.observed.lookup k else none

theorem lookup_pinServing (stale : KeyMap String RawEntry) (r : RejectedEntry) :
    (s.pinServing env stale r).lookup k =
      if k = r.key then (stale.lookup k).or (s.serving env k) else stale.lookup k := by
  unfold pinServing serving
  by_cases hk : k = r.key
  · subst hk
    rw [if_pos rfl]
    cases hs : stale.lookup r.key with
    | some p =>
      have hmem : r.key ∈ stale := AList.lookup_isSome.1 (by rw [hs]; rfl)
      simp [hmem, hs]
    | none =>
      have hmem : r.key ∉ stale := AList.lookup_eq_none.1 hs
      rw [if_neg hmem]
      cases env.address r.key with
      | none => simp [hs]
      | some addr =>
        dsimp only
        split
        · cases hobs : s.books.observed.lookup r.key with
          | none => simp [hs]
          | some good => simp [AList.lookup_insert]
        · simp [hs]
  · rw [if_neg hk]
    split
    · rfl
    · split
      · rfl
      · split
        · split
          · exact AList.lookup_insert_ne hk
          · rfl
        · rfl

theorem lookup_foldl_pinServing (rejections : List RejectedEntry) (stale : KeyMap String RawEntry) :
    (rejections.foldl (s.pinServing env) stale).lookup k =
      if k ∈ rejections.map (·.key) then (stale.lookup k).or
        (s.serving env k) else stale.lookup k := by
  induction rejections generalizing stale with
  | nil => simp
  | cons r rs ih =>
    rw [List.foldl_cons, ih, lookup_pinServing]
    by_cases hk : k = r.key
    · simp [hk, Option.or_assoc]
    · simp [hk]

/-- A key is pinned after a resync when it is still there and rejected: by its old pin, or by the
bytes that served it. -/
theorem lookup_reconcilePins :
    (s.reconcilePins env entries (buildSnapshot env entries).2.rejections).lookup k =
      if ∃ e ∈ entries, e.key = k ∧ rowOf env e = none then
        (s.books.stale.lookup k).or (s.serving env k)
      else none := by
  unfold reconcilePins
  rw [lookup_foldl_pinServing, KeyMap.lookup_retain]
  by_cases hrej : ∃ e ∈ entries, e.key = k ∧ rowOf env e = none
  · obtain ⟨e, he, rfl, hnone⟩ := hrej
    have hkey : e.key ∈ entries.map (·.key) :=
      List.mem_map_of_mem (f := fun e : RawEntry => e.key) he
    have hrej : e.key ∈ (buildSnapshot env entries).2.rejections.map (·.key) :=
      mem_rejections_build.2 ⟨e, he, rfl, hnone⟩
    rw [if_pos hrej, if_pos (by simp only [decide_eq_true_eq]; exact ⟨hkey, hrej⟩),
      if_pos ⟨e, he, rfl, hnone⟩]
  · have hrej' : k ∉ (buildSnapshot env entries).2.rejections.map (·.key) :=
      fun h => hrej (mem_rejections_build.1 h)
    rw [if_neg hrej', if_neg (by simp only [decide_eq_true_eq]; exact fun h => hrej' h.2),
      if_neg hrej]

theorem serving_eq_some {p : RawEntry} (h : s.serving env k = some p) :
    s.books.observed.lookup k = some p := by
  unfold serving at h
  split at h
  · cases h
  · split at h
    · exact h
    · cases h

end Supervisor

/-- The entry of a key in an entry set. -/
def entryOf (entries : List RawEntry) (k : String) : Option RawEntry := entries.find? (·.key = k)

theorem entryOf_eq_some {entries : List RawEntry} {k : String} {e : RawEntry}
    (h : entryOf entries k = some e) : e ∈ entries ∧ e.key = k :=
  ⟨List.mem_of_find?_eq_some h, by simpa using List.find?_some h⟩

theorem entryOf_eq_none {entries : List RawEntry} {k : String} :
    entryOf entries k = none ↔ ∀ e ∈ entries, e.key ≠ k := by simp [entryOf]

theorem entryOf_of_mem {entries : List RawEntry} (hnodup : (entries.map (·.key)).Nodup)
    {e : RawEntry} (he : e ∈ entries) : entryOf entries e.key = some e := by
  cases h : entryOf entries e.key with
  | none => exact absurd rfl (entryOf_eq_none.1 h e he)
  | some e' =>
    obtain ⟨he', hkey⟩ := entryOf_eq_some h
    rw [List.inj_on_of_nodup_map hnodup he' he hkey]

section Values

variable {m : KeyMap String RawEntry} {l : List RawEntry}

theorem nodup_of_perm_values (hm : ∀ k e, m.lookup k = some e → e.key = k) (hl : l.Perm m.values) :
    (l.map (·.key)).Nodup :=
  (hl.map (·.key)).nodup_iff.2 (KeyMap.nodup_map_values hm)

theorem mem_of_perm_values (hl : l.Perm m.values) {e : RawEntry} :
    e ∈ l ↔ ∃ k, m.lookup k = some e := by rw [hl.mem_iff, KeyMap.mem_values]

theorem entryOf_of_perm_values (hm : ∀ k e, m.lookup k = some e → e.key = k) (hl : l.Perm m.values)
    (k : String) : entryOf l k = m.lookup k := by
  cases hk : m.lookup k with
  | some e =>
    obtain rfl := hm k e hk
    exact entryOf_of_mem (nodup_of_perm_values hm hl) ((mem_of_perm_values hl).2 ⟨e.key, hk⟩)
  | none =>
    refine entryOf_eq_none.2 fun e hmem hkey => ?_
    obtain ⟨k', hk'⟩ := (mem_of_perm_values hl).1 hmem
    rw [hm k' e hk'] at hkey
    subst hkey
    rw [hk] at hk'
    cases hk'

theorem lookup_foldl_insert_of_perm_values (hm : ∀ k e, m.lookup k = some e → e.key = k)
    (hl : l.Perm m.values) (k : String) :
    (l.foldl (fun m e => m.insert e.key e) (∅ : KeyMap String RawEntry)).lookup k = m.lookup k := by
  rw [← entryOf_of_perm_values hm hl]
  cases he : entryOf l k with
  | none =>
    rw [KeyMap.lookup_foldl_insert_of_notMem (entryOf_eq_none.1 he)]
    exact AList.lookup_empty k
  | some e =>
    obtain ⟨hmem, rfl⟩ := entryOf_eq_some he
    exact KeyMap.lookup_foldl_insert_of_mem (nodup_of_perm_values hm hl) hmem

end Values

/-- Everything in the books is under its own key, and no key but `key` addresses the row of `key`.
-/
structure Keyed (env : Env J V) (key : String) (b : Books) : Prop where
  observed : ∀ k e, b.observed.lookup k = some e → e.key = k
  stale : ∀ k p, b.stale.lookup k = some p → p.key = k
  apart : ∀ k, k ≠ key → (b.observed.lookup k).isSome ∨ (b.stale.lookup k).isSome →
    env.address k ≠ env.address key

/-- No other key of an entry set addresses the row of `key`, and no key is in it twice. -/
structure Separate (env : Env J V) (key : String) (entries : List RawEntry) : Prop where
  nodup : (entries.map (·.key)).Nodup
  apart : ∀ e ∈ entries, e.key ≠ key → env.address e.key ≠ env.address key

section Rebuild

variable {s : Supervisor V} {entries : List RawEntry} {key : String} (readRevision : Option Int)

theorem reconcilePins_eq_some {k : String} {p : RawEntry}
    (hp : (s.reconcilePins env entries (buildSnapshot env entries).2.rejections).lookup k =
      some p) :
    s.books.stale.lookup k = some p ∨ s.books.observed.lookup k = some p := by
  rw [Supervisor.lookup_reconcilePins] at hp
  split at hp
  · rcases Option.or_eq_some_iff.1 hp with hp | ⟨-, hp⟩
    · exact .inl hp
    · exact .inr (Supervisor.serving_eq_some hp)
  · cases hp

theorem Keyed.pin_key (h : Keyed env key s.books) {k : String} {p : RawEntry}
    (hp : (s.reconcilePins env entries (buildSnapshot env entries).2.rejections).lookup k =
      some p) :
    p.key = k := by
  rcases reconcilePins_eq_some hp with hp | hp
  · exact h.stale k p hp
  · exact h.observed k p hp

theorem Keyed.pin_apart (h : Keyed env key s.books) {k : String} {p : RawEntry}
    (hp : (s.reconcilePins env entries (buildSnapshot env entries).2.rejections).lookup k = some p)
    (hk : k ≠ key) : env.address k ≠ env.address key := by
  rcases reconcilePins_eq_some hp with hp | hp
  · exact h.apart k hk (.inr (by rw [hp]; rfl))
  · exact h.apart k hk (.inl (by rw [hp]; rfl))

/-- The pinned values that a resync builds again. -/
def injected (env : Env J V) (entries : List RawEntry) (s : Supervisor V) : List RawEntry :=
  env.hashOrder (s.reconcilePins env entries (buildSnapshot env entries).2.rejections).values

theorem injected_perm :
    (injected env entries s).Perm
      (s.reconcilePins env entries (buildSnapshot env entries).2.rejections).values :=
  env.hashOrder_perm _

theorem Keyed.injected_separate (h : Keyed env key s.books) :
    Separate env key (injected env entries s) where
  nodup := nodup_of_perm_values (fun _ _ hp => h.pin_key hp) injected_perm
  apart p hp hne := by
    obtain ⟨k, hk⟩ := (mem_of_perm_values injected_perm).1 hp
    rw [h.pin_key hk] at hne ⊢
    exact h.pin_apart hk hne

theorem Keyed.entryOf_injected (h : Keyed env key s.books) (k : String) :
    entryOf (injected env entries s) k =
      (s.reconcilePins env entries (buildSnapshot env entries).2.rejections).lookup k :=
  entryOf_of_perm_values (fun _ _ hp => h.pin_key hp) injected_perm k

theorem Separate.row_build (h : Separate env key entries) {t : Table} {id : String}
    (haddr : env.address key = some (t.name, id)) :
    (buildSnapshot env entries).1.row t id = (entryOf entries key).bind (rowOf env) := by
  cases he : entryOf entries key with
  | none =>
    refine row_build_of_apart fun e hmem => ?_
    rw [← haddr]
    exact h.apart e hmem (entryOf_eq_none.1 he e hmem)
  | some e =>
    obtain ⟨hmem, rfl⟩ := entryOf_eq_some he
    refine row_build_of_mem h.nodup hmem haddr (fun e' hmem' hne => ?_) rfl
    rw [← haddr]
    exact h.apart e' hmem' hne

variable (env) in
theorem observed_resync (hnodup : (entries.map (·.key)).Nodup) :
    (s.applyResyncAt env entries readRevision).books.observed.lookup key = entryOf entries key := by
  change (entries.foldl (fun m e => m.insert e.key e)
    (KeyMap.retain (fun k => decide (k ∈ entries.map (·.key))) s.books.observed)).lookup key = _
  cases he : entryOf entries key with
  | none =>
    have hne := entryOf_eq_none.1 he
    have hnot : key ∉ entries.map (·.key) := fun hmem => by
      obtain ⟨e, hmem, hkey⟩ := List.mem_map.1 hmem
      exact hne e hmem hkey
    rw [KeyMap.lookup_foldl_insert_of_notMem hne, KeyMap.lookup_retain]
    simp [hnot]
  | some e =>
    obtain ⟨hmem, rfl⟩ := entryOf_eq_some he
    exact KeyMap.lookup_foldl_insert_of_mem hnodup hmem

theorem stale_resync_eq (k : String) :
    (s.applyResyncAt env entries readRevision).books.stale.lookup k =
      if k ∈ (buildSnapshot env (injected env entries s)).2.rejections.map (·.key) then none
      else (s.reconcilePins env entries (buildSnapshot env entries).2.rejections).lookup k :=
  KeyMap.lookup_foldl_erase

theorem row_resync_eq (t : Table) (id : String) :
    (s.applyResyncAt env entries readRevision).snapshot.row t id =
      ((buildSnapshot env (injected env entries s)).1.row t id).or
        ((buildSnapshot env entries).1.row t id) := rfl

/-- The value that a resync keeps serving when the key's entry is rejected. -/
def pinOf (env : Env J V) (s : Supervisor V) (key : String) : Option RawEntry :=
  (s.books.stale.lookup key).or (s.serving env key)

theorem Keyed.stale_resync (hk : Keyed env key s.books) (hsep : Separate env key entries)
    (hpin : ∀ p ∈ pinOf env s key, (rowOf env p).isSome) :
    (s.applyResyncAt env entries readRevision).books.stale.lookup key =
      (entryOf entries key).bind fun e => if rowOf env e = none then pinOf env s key else none := by
  have hrejected : (∃ e ∈ entries, e.key = key ∧ rowOf env e = none) ↔
      ∃ e, entryOf entries key = some e ∧ rowOf env e = none := by
    constructor
    · rintro ⟨e, hmem, rfl, hnone⟩
      exact ⟨e, entryOf_of_mem hsep.nodup hmem, hnone⟩
    · rintro ⟨e, he, hnone⟩
      exact ⟨e, (entryOf_eq_some he).1, (entryOf_eq_some he).2, hnone⟩
  have hpinned : (s.reconcilePins env entries (buildSnapshot env entries).2.rejections).lookup key =
      (entryOf entries key).bind fun e => if rowOf env e = none then pinOf env s key else none := by
    rw [Supervisor.lookup_reconcilePins]
    simp only [hrejected]
    cases entryOf entries key <;> simp [pinOf]
  rw [stale_resync_eq readRevision, hpinned]
  refine if_neg fun hmem => ?_
  -- the injected value of the key is its pin, and that loads
  obtain ⟨p, hp, hkey, hnone⟩ := mem_rejections_build.1 hmem
  have hinj : entryOf (injected env entries s) key = some p := hkey ▸
    entryOf_of_mem (hk.injected_separate).nodup hp
  rw [hk.entryOf_injected, hpinned] at hinj
  obtain ⟨e, -, he⟩ := Option.bind_eq_some_iff.1 hinj
  split at he
  · have := hpin p he
    rw [hnone] at this
    cases this
  · cases he

/-- After a resync the key serves what its entry loads to, and else what is pinned. -/
theorem Keyed.row_resync (hk : Keyed env key s.books) (hsep : Separate env key entries) {t : Table}
    {id : String} (haddr : env.address key = some (t.name, id)) :
    (s.applyResyncAt env entries readRevision).snapshot.row t id =
      (entryOf entries key).bind fun e => (rowOf env e).or
      ((pinOf env s key).bind (rowOf env)) := by
  rw [row_resync_eq readRevision, hk.injected_separate.row_build haddr, hsep.row_build haddr,
    hk.entryOf_injected, Supervisor.lookup_reconcilePins]
  cases he : entryOf entries key with
  | none =>
    rw [if_neg fun ⟨e, hmem, hkey, _⟩ => entryOf_eq_none.1 he e hmem hkey]
    rfl
  | some e =>
    obtain ⟨hmem, hkey⟩ := entryOf_eq_some he
    cases hrow : rowOf env e with
    | none =>
      rw [if_pos ⟨e, hmem, hkey, hrow⟩]
      simp [pinOf, hrow]
    | some row =>
      have hnot : ¬ ∃ e' ∈ entries, e'.key = key ∧ rowOf env e' = none := by
        rintro ⟨e', hmem', rfl, hnone⟩
        rw [entryOf_of_mem hsep.nodup hmem', Option.some.injEq] at he
        rw [he, hrow] at hnone
        cases hnone
      rw [if_neg hnot]
      simp [hrow]

theorem Keyed.resync (hk : Keyed env key s.books) (hsep : Separate env key entries) :
    Keyed env key (s.applyResyncAt env entries readRevision).books := by
  have hstale : ∀ {k p}, (s.applyResyncAt env entries readRevision).books.stale.lookup k = some p →
      (s.reconcilePins env entries (buildSnapshot env entries).2.rejections).lookup k = some p := by
    intro k p hp
    rw [stale_resync_eq readRevision] at hp
    split at hp
    · cases hp
    · exact hp
  have hobserved :
      ∀ {k e}, (s.applyResyncAt env entries readRevision).books.observed.lookup k = some e →
      (e ∈ entries ∧ e.key = k) ∨ s.books.observed.lookup k = some e := by
    intro k e he
    rcases KeyMap.mem_of_lookup_foldl_insert he with h | h
    · exact .inl h
    · rw [KeyMap.lookup_retain] at h
      split at h
      · exact .inr h
      · cases h
  refine ⟨fun k e he => ?_, fun k p hp => hk.pin_key (hstale hp), fun k hne hin => ?_⟩
  · rcases hobserved he with h | h
    · exact h.2
    · exact hk.observed k e h
  · rcases hin with hin | hin
    · obtain ⟨e, he⟩ := Option.isSome_iff_exists.1 hin
      rcases hobserved he with ⟨hmem, rfl⟩ | h
      · exact hsep.apart e hmem hne
      · exact hk.apart k hne (.inl (by rw [h]; rfl))
    · obtain ⟨p, hp⟩ := Option.isSome_iff_exists.1 hin
      exact hk.pin_apart (hstale hp) hne

end Rebuild

end Etcd
end Aisix
