import Aisix.Etcd.LastGood
import Aisix.WriteLog
import Mathlib.Data.List.Dedup
import Mathlib.Data.List.ReduceOption

/-!
# Aisix.Etcd.Revision

The revision the supervisor reports, over whole runs of its cycle: the range reads of the two
watched prefixes, one after the other; one resync over their union; and then one watch per prefix,
each from its own read on, whose events are merged into batches in any order. The cluster is written
to at any moment.

* `loadAllPrefixes` — the union of the range reads, the later write of a key that both hold.
* `Cycle.step`      — one step of the supervisor or of the cluster.
* `Honest`          — at the reported revision nothing is missing: every watched key is served as
  the cluster held it at some revision that is not below the reported one.
* `honest_of_inOrder` — when no batch runs ahead of what the other stream has still to deliver,
  every state of the run is honest.
-/

namespace Aisix
namespace Etcd

open WriteLog

abbrev ClusterLog := List (Write String (List UInt8))

/-- What etcd holds under a key after its first `n` writes. -/
def entryAt (log : ClusterLog) (k : String) (n : Nat) : Option RawEntry :=
  (held log k n).map fun (value, revision) => ⟨k, value, revision⟩

/-- A range read of the keys `p`. -/
def rangeRead (log : ClusterLog) (p : String → Bool) : List RawEntry :=
  ((log.map (·.key)).dedup.filter p).filterMap fun k => entryAt log k log.length

/-- The union of all range reads, and the revision each was consistent as of. -/
structure PrefixLoad where
  entries : List RawEntry
  revisions : List (Option Int)

/-- Two reads of one key are two points in time: keep the later write. -/
def keepLater (all : KeyMap String RawEntry) (entry : RawEntry) : KeyMap String RawEntry :=
  match all.lookup entry.key with
  | some slot => if entry.revision > slot.revision then all.insert entry.key entry else all
  | none => all.insert entry.key entry

def unionOf (reads : List (List RawEntry × Int)) : KeyMap String RawEntry :=
  (reads.flatMap (·.1)).foldl keepLater ∅

def loadAllPrefixes (reads : List (List RawEntry × Int)) : PrefixLoad where
  entries := (unionOf reads).values.insertionSort fun e e' => e.key ≤ e'.key
  revisions := reads.map fun read => some read.2

/-- The lowest revision any prefix reported. -/
def PrefixLoad.appliedRevision (load : PrefixLoad) : Int := load.revisions.reduceOption.min?.getD 0

/-- The watch event of a write. -/
def watchEvent (i : Nat) (w : Write String (List UInt8)) : PendingEvent :=
  match w.value with
  | some value => .put ⟨w.key, value, (i + 1 : Nat)⟩
  | none => .delete w.key (some (i + 1 : Nat))

def watchEvents (log : ClusterLog) (positions : List Nat) : List PendingEvent :=
  positions.filterMap fun i => log[i]?.map (watchEvent i)

instance : Fintype PrefixScope := ⟨{.environment, .global}, by rintro ⟨⟩ <;> decide⟩

/-- Where a cycle of the supervisor stands. -/
inductive Phase where
  | idle
  /-- The environment prefix has been read. -/
  | readFirst (first : List RawEntry) (revision : Nat)
  | readAll (load : PrefixLoad) (reads : PrefixScope → Nat)
  /-- The resync is applied, its revision not yet recorded. -/
  | resynced (load : PrefixLoad) (reads : PrefixScope → Nat)
  /-- Each watch has the writes before its cursor behind it. -/
  | watching (reads cursor : PrefixScope → Nat)

structure Cycle (V : Type) where
  log : ClusterLog
  sup : Supervisor V
  phase : Phase

inductive CycleAct where
  | write (w : Write String (List UInt8))
  | read
  | resync
  | record
  /-- A batch of watch events: of which stream each is. -/
  | batch (merge : List PrefixScope)
  /-- A watch or a read ended the cycle. -/
  | restart

variable {J V : Type}

namespace Cycle

def start : Cycle V := ⟨[], .new, .idle⟩

/-- `under` says which keys are under which prefix; a key may be under both. -/
def step (env : Env J V) (under : PrefixScope → String → Bool) (st : Cycle V) :
    CycleAct → Option (Cycle V)
  | .write w => some { st with log := st.log ++ [w] }
  | .read =>
    match st.phase with
    | .idle =>
      some { st with phase := .readFirst (rangeRead st.log (under .environment)) st.log.length }
    | .readFirst first revision =>
      let reads : PrefixScope → Nat
        | .environment => revision
        | .global => st.log.length
      let load :=
        loadAllPrefixes [(first, revision), (rangeRead st.log (under .global), st.log.length)]
      some { st with phase := .readAll load reads }
    | _ => none
  | .resync =>
    match st.phase with
    | .readAll load reads =>
      some
        { st with
          sup := st.sup.applyResyncAt env load.entries (some load.appliedRevision)
          phase := .resynced load reads }
    | _ => none
  | .record =>
    match st.phase with
    | .resynced load reads =>
      some
        { st with
          sup := st.sup.recordReadRevision load.appliedRevision
          phase := .watching reads reads }
    | _ => none
  | .batch merge =>
    match st.phase with
    | .watching reads cursor =>
      (deliver st.log under merge cursor).map fun (positions, cursor) =>
        { st with
          sup := (st.sup.applyEvents env (watchEvents st.log positions)).2
          phase := .watching reads cursor }
    | _ => none
  | .restart => some { st with phase := .idle }

end Cycle

/-- The served state has for the key what etcd held under it after its first `n` writes: it is the
latest entry, and, when no other key addresses its row, a document that loads is the row and a
deleted key has none. A malformed key addresses no row, and is never served. -/
structure Reflects (env : Env J V) (log : ClusterLog) (s : Supervisor V) (k : String) (n : Nat) :
    Prop where
  observed : (env.address k).isSome → s.books.observed.lookup k = entryAt log k n
  gone : ∀ t id, env.address k = some (t.name, id) → (∀ w ∈ log, Apart env k w.key) →
    entryAt log k n = none → s.snapshot.row t id = none
  served : ∀ t id, env.address k = some (t.name, id) → (∀ w ∈ log, Apart env k w.key) →
    ∀ e ∈ entryAt log k n, (rowOf env e).isSome → s.snapshot.row t id = rowOf env e

/-- Every write under a watched prefix, up to the reported revision, is applied or superseded. -/
def Honest (env : Env J V) (under : PrefixScope → String → Bool) (st : Cycle V) : Prop :=
  ∀ scope k, under scope k → ∃ n ≤ st.log.length, st.sup.watchStatus ≤ n ∧ st.sup.configStatus ≤ n ∧
    Reflects env st.log st.sup k n

/-- The highest revision of a batch. -/
def highest (positions : List Nat) : Nat := (positions.map (· + 1)).foldr max 0

/-- A batch runs ahead of nothing: up to its highest revision no write is still to be delivered,
unless the other stream has delivered it, and for no key does it end on a write older than a
delivered one. -/
def InOrder (under : PrefixScope → String → Bool) (st : Cycle V) (a : CycleAct) : Prop :=
  match a, st.phase with
  | .batch merge, .watching reads cursor =>
    ∀ d ∈ deliver st.log under merge cursor,
      NoOverdue st.log under reads d.2 (highest d.1) ∧ NoStepBack st.log under reads d.2 d.1
  | _, _ => True

instance (under : PrefixScope → String → Bool) :
    (st : Cycle V) → (a : CycleAct) → Decidable (InOrder under st a)
  | ⟨log, _, .watching reads cursor⟩, .batch merge =>
    inferInstanceAs (Decidable (∀ d ∈ deliver log under merge cursor,
      NoOverdue log under reads d.2 (highest d.1) ∧ NoStepBack log under reads d.2 d.1))
  | ⟨_, _, .idle⟩, .batch _ | ⟨_, _, .readFirst _ _⟩, .batch _ | ⟨_, _, .readAll _ _⟩, .batch _
  | ⟨_, _, .resynced _ _⟩, .batch _ => inferInstanceAs (Decidable True)
  | _, .write _ | _, .read | _, .resync | _, .record | _, .restart =>
    inferInstanceAs (Decidable True)

section Entries

variable {log : ClusterLog} {k : String} {a b n : Nat} {p : String → Bool}

theorem entryAt_of_quiet (hab : a ≤ b) (h : Quiet log k a b) :
    entryAt log k b = entryAt log k a := by
  unfold entryAt
  rw [held_of_quiet hab h]

theorem entryAt_append (hn : n ≤ log.length) (more : ClusterLog) :
    entryAt (log ++ more) k n = entryAt log k n := by
  unfold entryAt
  rw [held_append hn]

theorem entryAt_take (n : Nat) : entryAt (log.take n) k n = entryAt log k n := by
  by_cases hn : n ≤ log.length
  · have hlen : n ≤ (log.take n).length := by rw [List.length_take]; omega
    rw [← entryAt_append hlen (log.drop n), List.take_append_drop]
  · rw [List.take_of_length_le (by omega)]

theorem entryAt_key {e : RawEntry} (h : entryAt log k n = some e) : e.key = k := by
  obtain ⟨v, -, rfl⟩ := Option.map_eq_some_iff.1 h
  rfl

theorem entryAt_mem {e : RawEntry} (h : entryAt log k n = some e) : ∃ w ∈ log, w.key = e.key := by
  rw [entryAt_key h]
  obtain ⟨v, hv, -⟩ := Option.map_eq_some_iff.1 h
  exact exists_write_of_held hv

theorem mem_rangeRead {e : RawEntry} :
    e ∈ rangeRead log p ↔ p e.key = true ∧ entryAt log e.key log.length = some e := by
  simp only [rangeRead, List.mem_filterMap, List.mem_filter, List.mem_dedup]
  constructor
  · rintro ⟨k, ⟨-, hp⟩, he⟩
    obtain rfl := entryAt_key he
    exact ⟨hp, he⟩
  · rintro ⟨hp, he⟩
    obtain ⟨w, hw, hk⟩ := entryAt_mem he
    exact ⟨e.key, ⟨List.mem_map.2 ⟨w, hw, hk⟩, hp⟩, he⟩

theorem nodup_rangeRead : ((rangeRead log p).map (·.key)).Nodup := by
  have hkeys : ∀ keys : List String,
      ((keys.filterMap fun k => entryAt log k log.length).map (·.key)).Sublist keys := by
    intro keys
    induction keys with
    | nil => exact .slnil
    | cons k ks ih =>
      cases he : entryAt log k log.length with
      | none =>
        simp only [List.filterMap_cons, he]
        exact ih.cons k
      | some e =>
        simp only [List.filterMap_cons, he, List.map_cons, entryAt_key he]
        exact ih.cons_cons k
  exact (hkeys _).nodup ((List.nodup_dedup _).filter _)

theorem entryOf_rangeRead :
    entryOf (rangeRead log p) k = if p k then entryAt log k log.length else none := by
  cases h : entryOf (rangeRead log p) k with
  | some e =>
    obtain ⟨hmem, rfl⟩ := entryOf_eq_some h
    obtain ⟨hp, he⟩ := mem_rangeRead.1 hmem
    rw [if_pos hp, he]
  | none =>
    have hnot := entryOf_eq_none.1 h
    split
    next hp =>
      cases he : entryAt log k log.length with
      | none => rfl
      | some e =>
        obtain rfl := entryAt_key he
        exact absurd rfl (hnot e (mem_rangeRead.2 ⟨hp, he⟩))
    next => rfl

end Entries

section Union

/-- Of two reads of a key, the later write. -/
def later : Option RawEntry → Option RawEntry → Option RawEntry
  | some e, some e' => if e'.revision > e.revision then some e' else some e
  | some e, none => some e
  | none, found => found

theorem lookup_keepLater (m : KeyMap String RawEntry) (e : RawEntry) (k : String) :
    (keepLater m e).lookup k = if e.key = k then later (m.lookup k) (some e) else m.lookup k := by
  unfold keepLater
  by_cases hk : e.key = k
  · subst hk
    rw [if_pos rfl]
    cases hslot : m.lookup e.key with
    | none => simp [later, AList.lookup_insert]
    | some slot =>
      dsimp only [later]
      split
      · exact AList.lookup_insert _
      · exact hslot
  · rw [if_neg hk]
    cases m.lookup e.key with
    | none => exact AList.lookup_insert_ne (Ne.symm hk)
    | some slot =>
      dsimp only
      split
      · exact AList.lookup_insert_ne (Ne.symm hk)
      · rfl

theorem later_none (found : Option RawEntry) : later found none = found := by cases found <;> rfl

theorem later_eq (found found' : Option RawEntry) :
    later found found' = found ∨ later found found' = found' := by
  cases found with
  | none => exact .inr rfl
  | some e =>
    cases found' with
    | none => exact .inl rfl
    | some e' =>
      dsimp only [later]
      split
      · exact .inr rfl
      · exact .inl rfl

theorem lookup_foldl_keepLater {read : List RawEntry} (hnodup : (read.map (·.key)).Nodup)
    (m : KeyMap String RawEntry) (k : String) :
    (read.foldl keepLater m).lookup k = later (m.lookup k) (entryOf read k) := by
  induction read generalizing m with
  | nil => exact (later_none _).symm
  | cons e es ih =>
    rw [List.map_cons, List.nodup_cons] at hnodup
    rw [List.foldl_cons, ih hnodup.2, lookup_keepLater]
    by_cases hk : e.key = k
    · have hrest : entryOf es k = none := entryOf_eq_none.2 fun e' he' heq =>
        hnodup.1 (List.mem_map.2 ⟨e', he', heq.trans hk.symm⟩)
      rw [if_pos hk, hrest, later_none, entryOf, List.find?_cons_of_pos (by simpa using hk)]
    · rw [if_neg hk, entryOf, entryOf, List.find?_cons_of_neg (by simpa using hk)]

theorem keepLater_keyed {m : KeyMap String RawEntry} (h : ∀ k e, m.lookup k = some e → e.key = k)
    (read : List RawEntry) : ∀ k e, (read.foldl keepLater m).lookup k = some e → e.key = k := by
  induction read generalizing m with
  | nil => exact h
  | cons e es ih =>
    refine ih fun k e' he' => ?_
    rw [lookup_keepLater] at he'
    split at he'
    next hk =>
      cases hslot : m.lookup k with
      | none =>
        rw [hslot] at he'
        obtain rfl := Option.some.inj he'
        exact hk
      | some slot =>
        rw [hslot] at he'
        dsimp only [later] at he'
        split at he'
        · obtain rfl := Option.some.inj he'
          exact hk
        · obtain rfl := Option.some.inj he'
          exact h k slot hslot
    next => exact h k e' he'

theorem unionOf_keyed (reads : List (List RawEntry × Int)) :
    ∀ k e, (unionOf reads).lookup k = some e → e.key = k := keepLater_keyed (by simp) _

theorem loadAllPrefixes_perm (reads : List (List RawEntry × Int)) :
    (loadAllPrefixes reads).entries.Perm (unionOf reads).values := List.perm_insertionSort _ _

theorem loadAllPrefixes_nodup (reads : List (List RawEntry × Int)) :
    ((loadAllPrefixes reads).entries.map (·.key)).Nodup :=
  nodup_of_perm_values (unionOf_keyed reads) (loadAllPrefixes_perm reads)

variable {first second : List RawEntry} {r r' : Int}

theorem entryOf_loadAllPrefixes (hfirst : (first.map (·.key)).Nodup)
    (hsecond : (second.map (·.key)).Nodup) (k : String) :
    entryOf (loadAllPrefixes [(first, r), (second, r')]).entries k =
      later (entryOf first k) (entryOf second k) := by
  rw [entryOf_of_perm_values (unionOf_keyed _) (loadAllPrefixes_perm _)]
  simp only [unionOf, List.flatMap_cons, List.flatMap_nil, List.append_nil, List.foldl_append]
  rw [lookup_foldl_keepLater hsecond, lookup_foldl_keepLater hfirst, AList.lookup_empty]
  rfl

theorem appliedRevision_loadAllPrefixes :
    (loadAllPrefixes [(first, r), (second, r')]).appliedRevision = min r r' := by
  simp [PrefixLoad.appliedRevision, loadAllPrefixes, List.min?_cons]

end Union

section Events

variable {env : Env J V} {log : ClusterLog} {s : Supervisor V} {k : String} {positions : List Nat}

theorem watchEvent_key (i : Nat) (w : Write String (List UInt8)) :
    (watchEvent i w).key = w.key := by
  unfold watchEvent
  split <;> rfl

theorem watchEvent_found (i : Nat) (w : Write String (List UInt8)) :
    (watchEvent i w).found = w.value.map fun value => ⟨w.key, value, (i + 1 : Nat)⟩ := by
  unfold watchEvent
  split
  next value hvalue => rw [hvalue]; rfl
  next hvalue => rw [hvalue]; rfl

theorem watchEvent_revision (i : Nat) (w : Write String (List UInt8)) :
    (watchEvent i w).revision = some ((i + 1 : Nat) : Int) := by
  unfold watchEvent
  split <;> rfl

theorem mem_watchEvents {event : PendingEvent} (h : event ∈ watchEvents log positions) :
    ∃ i ∈ positions, ∃ w ∈ log, event = watchEvent i w := by
  obtain ⟨i, hi, hevent⟩ := List.mem_filterMap.1 h
  obtain ⟨w, hw, rfl⟩ := Option.map_eq_some_iff.1 hevent
  exact ⟨i, hi, w, List.mem_of_getElem? hw, rfl⟩

theorem lookup_watchEvents (haddr : (env.address k).isSome) (positions : List Nat) :
    (s.applyEvents env (watchEvents log positions)).2.books.observed.lookup k =
      (lastOf log k positions).elim (s.books.observed.lookup k) fun i => entryAt log k (i + 1) := by
  rw [lookup_observed_events haddr, watchEvents, List.foldl_filterMap, lastOf, ← foldl_ite_eq_elim]
  congr 1
  funext found i
  cases hw : log[i]? with
  | none => simp
  | some w =>
    by_cases hk : w.key = k
    · subst hk
      simp [watchEvent_key, watchEvent_found, entryAt, held_write hw, Function.comp_def]
    · simp [watchEvent_key, hk]

theorem le_highest {i : Nat} (hi : i ∈ positions) : i + 1 ≤ highest positions := by
  unfold highest
  induction positions with
  | nil => cases hi
  | cons j js ih =>
    rcases List.mem_cons.1 hi with rfl | hi
    · exact le_max_left _ _
    · exact (ih hi).trans (le_max_right _ _)

theorem highest_le {n : Nat} (h : ∀ i ∈ positions, i < n) : highest positions ≤ n := by
  unfold highest
  induction positions with
  | nil => exact Nat.zero_le n
  | cons j js ih =>
    obtain ⟨hj, hjs⟩ := List.forall_mem_cons.1 h
    exact max_le hj (ih hjs)

end Events

/-- Every key whose row no other written key addresses is served from its history. -/
def Served (env : Env J V) (log : ClusterLog) (s : Supervisor V) : Prop :=
  ∀ k, (env.address k).isSome → (∀ w ∈ log, Apart env k w.key) → ∃ w, Inv env k s w

/-- The books hold every watched key as etcd did at a revision not below the reported one. -/
def Mirrored (env : Env J V) (under : PrefixScope → String → Bool) (log : ClusterLog)
    (s : Supervisor V) : Prop :=
  ∀ scope k, under scope k → ∃ n ≤ log.length, s.watchStatus ≤ n ∧ s.configStatus ≤ n ∧
    ((env.address k).isSome → s.books.observed.lookup k = entryAt log k n)

/-- Every watched key stands at a current position, and nothing up to the reported revision is
overdue. -/
structure Tracked (env : Env J V) (under : PrefixScope → String → Bool) (log : ClusterLog)
    (s : Supervisor V) (reads cursor : PrefixScope → Nat) : Prop where
  reads_le : ∀ scope, reads scope ≤ cursor scope
  cursor_le : ∀ scope, cursor scope ≤ log.length
  keys : ∀ scope k, under scope k → ∃ n ≤ log.length, Current log under reads cursor k n ∧
    ((env.address k).isSome → s.books.observed.lookup k = entryAt log k n)
  reported : ∃ r ≤ log.length, Reports s r ∧ NoOverdue log under reads cursor r

/-- What the range reads of a cycle have found. -/
structure ReadAll (under : PrefixScope → String → Bool) (log : ClusterLog) (load : PrefixLoad)
    (reads : PrefixScope → Nat) : Prop where
  nodup : (load.entries.map (·.key)).Nodup
  written : ∀ e ∈ load.entries, ∃ w ∈ log, w.key = e.key
  entries : ∀ scope k, under scope k → ∃ n ≤ log.length,
    (∀ m, (∀ scope, under scope k → m ≤ reads scope) → m ≤ n) ∧
    entryOf load.entries k = entryAt log k n
  revision : load.appliedRevision = min (reads .environment : Int) (reads .global)
  reads_le : ∀ scope, reads scope ≤ log.length

def PhaseInv (env : Env J V) (under : PrefixScope → String → Bool) (log : ClusterLog)
    (s : Supervisor V) : Phase → Prop
  | .idle => Mirrored env under log s ∧ Reports s log.length
  | .readFirst first revision =>
    Mirrored env under log s ∧ Reports s revision ∧ revision ≤ log.length ∧
      first = rangeRead (log.take revision) (under .environment)
  | .readAll load reads =>
    Mirrored env under log s ∧ (∀ scope, Reports s (reads scope)) ∧ ReadAll under log load reads
  | .resynced load reads =>
    Tracked env under log s reads reads ∧
      load.appliedRevision = min (reads .environment : Int) (reads .global)
  | .watching reads cursor => Tracked env under log s reads cursor

structure Cycle.Inv (env : Env J V) (under : PrefixScope → String → Bool) (st : Cycle V) :
    Prop where
  served : Served env st.log st.sup
  phase : PhaseInv env under st.log st.sup st.phase

section Steps

variable {env : Env J V} {under : PrefixScope → String → Bool} {log : ClusterLog} {s : Supervisor V}
  {reads cursor : PrefixScope → Nat} {load : PrefixLoad}

theorem Tracked.mirrored (h : Tracked env under log s reads cursor) : Mirrored env under log s := by
  intro scope k hk
  obtain ⟨n, hn, hcurrent, hobserved⟩ := h.keys scope k hk
  obtain ⟨r, hr, hreports, hoverdue⟩ := h.reported
  have hwatch := hreports.watch
  have hconfig := hreports.config
  refine ⟨max n r, max_le hn hr, by omega, by omega, fun haddr => ?_⟩
  rw [hobserved haddr]
  by_cases hnr : n ≤ r
  · rw [max_eq_right hnr, entryAt_of_quiet hnr (quiet_of_current hcurrent hoverdue hk)]
  · rw [max_eq_left (by omega)]

theorem Tracked.reports (h : Tracked env under log s reads cursor) : Reports s log.length := by
  obtain ⟨r, hr, hreports, -⟩ := h.reported
  exact hreports.mono (by exact_mod_cast hr)

section Write

variable (w : Write String (List UInt8))

theorem Served.write (h : Served env log s) : Served env (log ++ [w]) s := by
  intro k haddr hapart
  exact h k haddr fun w' hw' => hapart w' (List.mem_append_left _ hw')

theorem Mirrored.write (h : Mirrored env under log s) : Mirrored env under (log ++ [w]) s := by
  intro scope k hk
  obtain ⟨n, hn, hwatch, hconfig, hobserved⟩ := h scope k hk
  exact ⟨n, by
    simp; omega, hwatch, hconfig, fun haddr => by rw [hobserved haddr, entryAt_append hn]⟩

theorem Tracked.write (h : Tracked env under log s reads cursor) :
    Tracked env under (log ++ [w]) s reads cursor where
  reads_le := h.reads_le
  cursor_le scope := by
    have := h.cursor_le scope
    simp
    omega
  keys scope k hk := by
    obtain ⟨n, hn, hcurrent, hobserved⟩ := h.keys scope k hk
    exact ⟨n, by simp; omega, hcurrent.append h.cursor_le [w],
      fun haddr => by rw [hobserved haddr, entryAt_append hn]⟩
  reported := by
    obtain ⟨r, hr, hreports, hoverdue⟩ := h.reported
    exact ⟨r, by simp; omega, hreports, hoverdue.append hr [w]⟩

theorem ReadAll.write (h : ReadAll under log load reads) :
    ReadAll under (log ++ [w]) load reads where
  nodup := h.nodup
  written e he := by
    obtain ⟨w', hw', hk⟩ := h.written e he
    exact ⟨w', List.mem_append_left _ hw', hk⟩
  entries scope k hk := by
    obtain ⟨n, hn, hmin, hentry⟩ := h.entries scope k hk
    exact ⟨n, by simp; omega, hmin, by rw [hentry, entryAt_append hn]⟩
  revision := h.revision
  reads_le scope := by
    have := h.reads_le scope
    simp
    omega

theorem PhaseInv.write {phase : Phase} (h : PhaseInv env under log s phase) :
    PhaseInv env under (log ++ [w]) s phase := by
  have hlen : (log.length : Int) ≤ (log ++ [w]).length := by simp
  cases phase with
  | idle => exact ⟨h.1.write w, h.2.mono hlen⟩
  | readFirst first revision =>
    obtain ⟨hmirrored, hreports, hrevision, hfirst⟩ := h
    refine ⟨hmirrored.write w, hreports, by simp; omega, ?_⟩
    rw [List.take_append_of_le_length hrevision]
    exact hfirst
  | readAll load reads => exact ⟨h.1.write w, h.2.1, h.2.2.write w⟩
  | resynced load reads => exact ⟨h.1.write w, h.2⟩
  | watching reads cursor => exact Tracked.write w h

end Write

theorem PhaseInv.restart {phase : Phase} (h : PhaseInv env under log s phase) :
    PhaseInv env under log s .idle := by
  cases phase with
  | idle => exact h
  | readFirst first revision => exact ⟨h.1, h.2.1.mono (by exact_mod_cast h.2.2.1)⟩
  | readAll load reads =>
    obtain ⟨hmirrored, hreports, hload⟩ := h
    exact ⟨hmirrored, (hreports .environment).mono (by exact_mod_cast hload.reads_le .environment)⟩
  | resynced load reads => exact ⟨h.1.mirrored, h.1.reports⟩
  | watching reads cursor => exact ⟨Tracked.mirrored h, Tracked.reports h⟩

/-- The union of a read of the environment prefix at `revision` and of the global prefix now. -/
theorem entryOf_bothReads {revision : Nat} (hrevision : revision ≤ log.length) {r r' : Int}
    (k : String) :
    entryOf (loadAllPrefixes [(rangeRead (log.take revision) (under .environment), r),
        (rangeRead log (under .global), r')]).entries k =
      later (if under .environment k then entryAt log k revision else none)
        (if under .global k then entryAt log k log.length else none) := by
  rw [entryOf_loadAllPrefixes nodup_rangeRead nodup_rangeRead, entryOf_rangeRead, entryOf_rangeRead,
    List.length_take, min_eq_left hrevision, entryAt_take]

theorem readAll_of_reads {revision : Nat} (hrevision : revision ≤ log.length)
    (henvironment : reads .environment = revision) (hglobal : reads .global = log.length) :
    ReadAll under log
      (loadAllPrefixes [(rangeRead (log.take revision) (under .environment), revision),
        (rangeRead log (under .global), log.length)]) reads := by
  refine ⟨loadAllPrefixes_nodup _, fun e he => ?_, fun scope k hk => ?_, ?_, fun scope => ?_⟩
  · -- every entry of the union is an entry of one of the reads
    have hentry := entryOf_of_mem (loadAllPrefixes_nodup _) he
    rw [entryOf_bothReads hrevision] at hentry
    rcases later_eq (if under .environment e.key then entryAt log e.key revision else none)
      (if under .global e.key then entryAt log e.key log.length else none) with heq | heq <;>
      rw [heq] at hentry <;> split at hentry
    · exact entryAt_mem hentry
    · cases hentry
    · exact entryAt_mem hentry
    · cases hentry
  · rw [entryOf_bothReads hrevision]
    by_cases h1 : under .environment k <;> by_cases h2 : under .global k
    · -- both hold the key
      have hmin : ∀ m, (∀ scope, under scope k → m ≤ reads scope) → m ≤ revision := by
        intro m hm
        have hm1 := hm .environment h1
        omega
      rw [if_pos h1, if_pos h2]
      rcases later_eq (entryAt log k revision) (entryAt log k log.length) with heq |
        heq <;> rw [heq]
      · exact ⟨revision, hrevision, hmin, rfl⟩
      · exact ⟨log.length, le_refl _, fun m hm => (hmin m hm).trans hrevision, rfl⟩
    · rw [if_pos h1, if_neg h2, later_none]
      refine ⟨revision, hrevision, fun m hm => ?_, rfl⟩
      have hm1 := hm .environment h1
      omega
    · rw [if_neg h1, if_pos h2]
      refine ⟨log.length, le_refl _, fun m hm => ?_, rfl⟩
      have hm2 := hm .global h2
      omega
    · cases scope with
      | environment => exact absurd hk h1
      | global => exact absurd hk h2
  · rw [appliedRevision_loadAllPrefixes, henvironment, hglobal]
  · cases scope with
    | environment => omega
    | global => omega

theorem Served.resync (h : Served env log s) (hload : ReadAll under log load reads)
    (readRevision : Option Int) :
    Served env log (s.applyResyncAt env load.entries readRevision) := by
  intro k haddr hapart
  obtain ⟨w, hinv⟩ := h k haddr hapart
  have hsep : Separate env k load.entries :=
    ⟨hload.nodup, fun e he hne => by
      obtain ⟨w', hw', hkey⟩ := hload.written e he
      rw [← hkey] at hne ⊢
      exact hapart w' hw' hne⟩
  exact ⟨_, hinv.resync hsep readRevision⟩

theorem Tracked.resync (hreports : ∀ scope, Reports s (reads scope))
    (hload : ReadAll under log load reads) :
    Tracked env under log (s.applyResyncAt env load.entries (some load.appliedRevision))
      reads reads where
  reads_le _ := le_refl _
  cursor_le := hload.reads_le
  keys scope k hk := by
    obtain ⟨n, hn, hmin, hentry⟩ := hload.entries scope k hk
    refine ⟨n, hn, ⟨hmin, fun scope i w _ _ _ hread hlt => by omega⟩, fun _ => ?_⟩
    rw [observed_resync env _ hload.nodup, hentry]
  reported := by
    have hmin : load.appliedRevision = (min (reads .environment) (reads .global) : Nat) := by
      rw [hload.revision]
      omega
    refine ⟨min (reads .environment) (reads .global),
      (min_le_left _ _).trans (hload.reads_le _), ⟨hmin.le, max_le ?_ hmin.le, hmin.le⟩, ?_⟩
    · have h1 := (hreports .environment).watch
      have h2 := (hreports .global).watch
      omega
    · -- nothing up to the lowest read is still to be delivered
      intro scope i hi w _ _ hcursor
      cases scope <;> omega

theorem Served.record (h : Served env log s) (revision : Int) :
    Served env log (s.recordReadRevision revision) := by
  intro k haddr hapart
  obtain ⟨w, hinv⟩ := h k haddr hapart
  exact ⟨w, ⟨hinv.keyed.observed, hinv.keyed.stale, hinv.keyed.apart⟩, hinv.sound, hinv.observed,
    hinv.stale, hinv.row⟩

theorem Tracked.record (h : Tracked env under log s reads reads)
    (hrevision : load.appliedRevision = min (reads .environment : Int) (reads .global)) :
    Tracked env under log (s.recordReadRevision load.appliedRevision) reads reads where
  reads_le := h.reads_le
  cursor_le := h.cursor_le
  keys := h.keys
  reported := by
    have hmin : load.appliedRevision = (min (reads .environment) (reads .global) : Nat) := by
      rw [hrevision]
      omega
    refine ⟨min (reads .environment) (reads .global), (min_le_left _ _).trans (h.cursor_le _),
      ⟨hmin.le, hmin.le, hmin.le⟩, ?_⟩
    intro scope i hi w _ _ hcursor
    cases scope <;> omega

theorem Served.batch (h : Served env log s) (positions : List Nat) :
    Served env log (s.applyEvents env (watchEvents log positions)).2 := by
  intro k haddr hapart
  obtain ⟨w, hinv⟩ := h k haddr hapart
  refine ⟨_, hinv.events haddr fun event hevent => ?_⟩
  obtain ⟨i, -, w', hw', rfl⟩ := mem_watchEvents hevent
  rw [watchEvent_key]
  exact hapart w' hw'

theorem Tracked.batch {merge : List PrefixScope} {positions : List Nat}
    {cursor' : PrefixScope → Nat} (h : Tracked env under log s reads cursor)
    (hd : deliver log under merge cursor = some (positions, cursor'))
    (hoverdue : NoOverdue log under reads cursor' (highest positions))
    (hback : NoStepBack log under reads cursor' positions) :
    Tracked env under log (s.applyEvents env (watchEvents log positions)).2 reads cursor' where
  reads_le scope := (h.reads_le scope).trans (deliver_cursor hd scope).1
  cursor_le scope := (deliver_cursor hd scope).2 (h.cursor_le scope)
  keys scope k hk := by
    obtain ⟨n, hn, hcurrent, hobserved⟩ := h.keys scope k hk
    refine ⟨_, ?_, hcurrent.deliver h.reads_le hd hback, fun haddr => ?_⟩
    · cases hlast : lastOf log k positions with
      | none => exact hn
      | some m =>
        obtain ⟨-, w, hw, -⟩ := lastOf_eq_some hlast
        exact (List.getElem?_eq_some_iff.1 hw).1
    · rw [lookup_watchEvents haddr]
      cases lastOf log k positions with
      | none => exact hobserved haddr
      | some m => rfl
  reported := by
    obtain ⟨r, hr, hreports, hprev⟩ := h.reported
    have hlog : ∀ i ∈ positions, i < log.length := by
      intro i hi
      obtain ⟨_, w, hw, -⟩ := deliver_mem hd hi
      exact (List.getElem?_eq_some_iff.1 hw).1
    have hevents : ∀ event ∈ watchEvents log positions, ∀ x ∈ event.revision,
        x ≤ ((max r (highest positions) : Nat) : Int) := by
      intro event hevent x hx
      obtain ⟨i, hi, w, -, rfl⟩ := mem_watchEvents hevent
      rw [watchEvent_revision] at hx
      obtain rfl := Option.some.inj hx
      exact_mod_cast (le_highest hi).trans (le_max_right _ _)
    exact ⟨max r (highest positions), max_le hr (highest_le hlog),
      (hreports.mono (by exact_mod_cast le_max_left _ _)).events hevents,
      (hprev.mono fun scope => (deliver_cursor hd scope).1).max hoverdue⟩

end Steps

namespace Cycle

variable {env : Env J V} {under : PrefixScope → String → Bool} {st st' : Cycle V}

theorem Inv.init : Inv env under (start : Cycle V) where
  served k _ _ := ⟨_, Etcd.Inv.init⟩
  phase := by
    refine ⟨fun scope k _ => ⟨0, le_refl _, le_refl _, le_refl _, fun _ => ?_⟩,
      le_refl _, le_refl _, le_refl _⟩
    exact AList.lookup_empty k

theorem Inv.step {a : CycleAct} (h : Inv env under st) (ha : InOrder under st a)
    (hs : step env under st a = some st') : Inv env under st' := by
  obtain ⟨log, s, phase⟩ := st
  obtain ⟨hserved, hphase⟩ := h
  dsimp only at hserved hphase
  cases a with
  | write w =>
    obtain rfl := Option.some.inj hs
    exact ⟨hserved.write w, hphase.write w⟩
  | restart =>
    obtain rfl := Option.some.inj hs
    exact ⟨hserved, hphase.restart⟩
  | read =>
    cases phase with
    | idle =>
      obtain rfl := Option.some.inj hs
      refine ⟨hserved, hphase.1, hphase.2, le_refl _, ?_⟩
      rw [List.take_length]
    | readFirst first revision =>
      obtain ⟨hmirrored, hreports, hrevision, rfl⟩ := hphase
      obtain rfl := Option.some.inj hs
      refine ⟨hserved, hmirrored, fun scope => ?_, readAll_of_reads hrevision rfl rfl⟩
      cases scope with
      | environment => exact hreports
      | global => exact hreports.mono (by exact_mod_cast hrevision)
    | readAll load reads => cases hs
    | resynced load reads => cases hs
    | watching reads cursor => cases hs
  | resync =>
    cases phase with
    | readAll load reads =>
      obtain ⟨-, hreports, hload⟩ := hphase
      obtain rfl := Option.some.inj hs
      exact ⟨hserved.resync hload (some load.appliedRevision),
        Tracked.resync hreports hload, hload.revision⟩
    | idle => cases hs
    | readFirst first revision => cases hs
    | resynced load reads => cases hs
    | watching reads cursor => cases hs
  | record =>
    cases phase with
    | resynced load reads =>
      obtain rfl := Option.some.inj hs
      exact ⟨hserved.record _, hphase.1.record hphase.2⟩
    | idle => cases hs
    | readFirst first revision => cases hs
    | readAll load reads => cases hs
    | watching reads cursor => cases hs
  | batch merge =>
    cases phase with
    | watching reads cursor =>
      obtain ⟨⟨positions, cursor'⟩, hd, rfl⟩ := Option.map_eq_some_iff.1 hs
      obtain ⟨hoverdue, hback⟩ := ha _ hd
      exact ⟨hserved.batch positions, Tracked.batch hphase hd hoverdue hback⟩
    | idle => cases hs
    | readFirst first revision => cases hs
    | readAll load reads => cases hs
    | resynced load reads => cases hs

theorem PhaseInv.mirrored {log : ClusterLog} {s : Supervisor V} {phase : Phase}
    (h : PhaseInv env under log s phase) : Mirrored env under log s := h.restart.1

theorem Inv.honest (h : Inv env under st) : Honest env under st := by
  intro scope k hk
  obtain ⟨n, hn, hwatch, hconfig, hobserved⟩ := PhaseInv.mirrored h.phase scope k hk
  refine ⟨n, hn, hwatch, hconfig, hobserved, fun t id haddr hapart hnone => ?_,
    fun t id haddr hapart e he hloads => ?_⟩
  · have hsome : (env.address k).isSome := by rw [haddr]; rfl
    obtain ⟨w, hinv⟩ := h.served k hsome hapart
    have hlatest : w.latest = none := hinv.observed.symm.trans ((hobserved hsome).trans hnone)
    rw [hinv.row t id haddr, hinv.sound.absent hlatest]
    rfl
  · have hsome : (env.address k).isSome := by rw [haddr]; rfl
    obtain ⟨w, hinv⟩ := h.served k hsome hapart
    have hlatest : w.latest = some e := hinv.observed.symm.trans ((hobserved hsome).trans he)
    rw [hinv.row t id haddr, hinv.sound.current e hlatest hloads]
    rfl

/-- The supervisor is honest in every state of a run whose batches run ahead of nothing. -/
theorem honest_of_inOrder {acts : List CycleAct}
    (hm : Lts.Meets (step env under) (InOrder under) start acts)
    (hr : Lts.run (step env under) start acts = some st) : Honest env under st :=
  (Lts.run_invariant_of_meets (fun _ _ _ h ha hs => h.step ha hs) Inv.init hm hr).honest

def underE1AndGlobal (scope : PrefixScope) (key : String) : Bool :=
  match scope with
  | .environment => "/aisix/e1/".toList.isPrefixOf key.toList
  | .global => "/aisix/global/".toList.isPrefixOf key.toList

/-- A model is written, then a price; both watches are open. -/
def modelThenPrice : List CycleAct :=
  [.read, .read, .resync, .record, .write ⟨"/aisix/e1/models/m", some [1]⟩,
    .write ⟨"/aisix/global/pricing/p", some [2]⟩]

theorem honest_of_both_delivered :
    ∃ st, Lts.run (step Run.environmentAndCatalog underE1AndGlobal) start
        (modelThenPrice ++ [.batch [.global, .environment]]) = some st ∧
      st.sup.watchStatus = 2 ∧ Honest Run.environmentAndCatalog underE1AndGlobal st := by
  refine ⟨_, rfl, by decide, honest_of_inOrder ?_
    (show Lts.run _ start (modelThenPrice ++ [.batch [.global, .environment]]) = _ from rfl)⟩
  decide

/-- The price is delivered first: revision 2 is reported, the model of revision 1 is missing. -/
theorem dishonest_run :
    ∃ st, Lts.run (step Run.environmentAndCatalog underE1AndGlobal) start
      (modelThenPrice ++ [.batch [.global]]) = some st ∧ st.sup.watchStatus = 2 ∧
      ¬ Honest Run.environmentAndCatalog underE1AndGlobal st := by
  refine ⟨_, rfl, by decide, fun h => ?_⟩
  obtain ⟨n, hn, hwatch, -, hreflects⟩ := h .environment "/aisix/e1/models/m" (by decide)
  have hn : n ≤ 2 := hn
  have hwatch : (2 : Int) ≤ n := hwatch
  obtain rfl : n = 2 := by omega
  exact absurd (hreflects.observed (by decide)) (by decide)

end Cycle

end Etcd
end Aisix
