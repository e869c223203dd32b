import Aisix.Etcd.Loader
import Aisix.KeyMap
import Aisix.SortedMap
import Mathlib.Data.List.Dedup
import Mathlib.Data.List.Induction
import Mathlib.Data.String.Basic

/-!
# Aisix.Etcd.Observed

The observed entries and what of them is served. Whether a publication changed what is served is
decided from the keys written since the last one, and from those whose rejection or pin changed
(`publishServed_exact`).
-/

namespace Aisix
namespace Etcd

abbrev Bytes := List UInt8

/-- The bytes of one key in a digest. -/
abbrev Record := Bytes

/-- `canonicalJson` is the canonical text of a value that is JSON. -/
def hashRecord (canonicalJson : Bytes → Option Bytes) (key : String) (value : Bytes) : Record :=
  key.toUTF8.data.toList ++ 0 :: ((canonicalJson value).getD value ++ [10])

/-- A key whose latest bytes are rejected while its last good value keeps serving. -/
structure StaleServing where
  entry : RawEntry
  sinceUnixSecs : UInt64
  deriving DecidableEq

structure StateEntry where
  entry : RawEntry
  record : Record
  /-- What the key contributed to the served set at the last publication. -/
  served : Option Record

structure ObservedState where
  entries : SortedMap String StateEntry
  version : UInt64
  servedVersion : UInt64
  /-- Keys whose record changed since the last publication, with what each of them served at it. -/
  pending : KeyMap String (Option Record)
  /-- Keys that were rejected or serving stale at the last publication. -/
  filtered : List String

/-- The rejected keys and the pins a publication reports. -/
structure Publication where
  rejected : List String
  stale : KeyMap String StaleServing

namespace Publication

def empty : Publication := ⟨[], ∅⟩

def filtered (p : Publication) : List String := (p.rejected ++ p.stale.keys).dedup

end Publication

variable (canonicalJson : Bytes → Option Bytes)

def StateEntry.new (entry : RawEntry) : StateEntry :=
  ⟨entry, hashRecord canonicalJson entry.key entry.value, none⟩

def StaleServing.record (pin : StaleServing) : Record :=
  hashRecord canonicalJson pin.entry.key pin.entry.value

/-- What one key contributes to the served set right now. -/
def servedRecord (key : String) (entries : SortedMap String StateEntry) (p : Publication) :
    Option Record :=
  match p.stale.lookup key with
  | some pinned => some (pinned.record canonicalJson)
  | none => if key ∈ p.rejected then none else (entries.get? key).map (·.record)

namespace ObservedState

def empty : ObservedState := ⟨.empty, 0, 0, ∅, []⟩

/-- Once per key per publication: the first value wins. -/
def rememberServed (s : ObservedState) (key : String) (served : Option Record) : ObservedState :=
  match s.pending.lookup key with
  | some _ => s
  | none => { s with pending := s.pending.insert key served }

def insert (s : ObservedState) (entry : RawEntry) : ObservedState :=
  let row := StateEntry.new canonicalJson entry
  let key := entry.key
  let changed (served : Option Record) : ObservedState :=
    let s := s.rememberServed key served
    { s with version := s.version + 1, entries := s.entries.insert key row }
  match s.entries.get? key with
  | some old =>
    -- the same canonical bytes under a new revision: nothing observed changed
    if old.record =
      row.record then { s with entries := s.entries.insert key { row with served := old.served } }
    else changed old.served
  | none => changed none

def remove (s : ObservedState) (key : String) : ObservedState × Option StateEntry :=
  match s.entries.get? key with
  | some row =>
    let s := s.rememberServed key row.served
    ({ s with version := s.version + 1, entries := s.entries.erase key }, some row)
  | none => (s, none)

/-- Settles what one key serves now, and notes whether it moved. -/
def settle (s : ObservedState) (p : Publication) (acc : Bool × SortedMap String StateEntry)
    (key : String) : Bool × SortedMap String StateEntry :=
  let now := servedRecord canonicalJson key acc.2 p
  let before :=
    match s.pending.lookup key with
    | some before => before
    | none => (acc.2.get? key).bind (·.served)
  (acc.1 || now ≠ before,
    match acc.2.get? key with
    | some row => acc.2.insert key { row with served := now }
    | none => acc.2)

/-- The keys whose served bytes can have moved. -/
def candidates (s : ObservedState) (filtered : List String) : List String :=
  s.pending.keys ++ (s.filtered.filter (· ∉ filtered) ++ filtered.filter (· ∉ s.filtered))

def publishServed (s : ObservedState) (p : Publication) : ObservedState × UInt64 :=
  let settled := (s.candidates p.filtered).foldl (s.settle canonicalJson p) (false, s.entries)
  let servedVersion := if settled.1 then s.servedVersion + 1 else s.servedVersion
  ({ s with
    entries := settled.2, pending := ∅, filtered := p.filtered,
    servedVersion := servedVersion }, servedVersion)

def recordsByKey (s : ObservedState) : List (String × Record) :=
  s.entries.entries.map fun e => (e.1, e.2.record)

/-! ### One publication -/

/-- The record observed for a key. -/
def recordOf (entries : SortedMap String StateEntry) (key : String) : Option Record :=
  (entries.get? key).map (·.record)

def servedOf (entries : SortedMap String StateEntry) (key : String) : Option Record :=
  (entries.get? key).bind (·.served)

/-- What each key contributes to the served set, by its observed record. -/
def servedFrom (records : String → Option Record) (p : Publication) (key : String) :
    Option Record :=
  match p.stale.lookup key with
  | some pinned => some (pinned.record canonicalJson)
  | none => if key ∈ p.rejected then none else records key

variable {canonicalJson}

theorem servedRecord_eq (key : String) (entries : SortedMap String StateEntry) (p : Publication) :
    servedRecord canonicalJson key entries p = servedFrom canonicalJson (recordOf entries) p key :=
  rfl

/-- What a key served before, as one publication sees it. -/
def before (s : ObservedState) (entries : SortedMap String StateEntry) (key : String) :
    Option Record :=
  match s.pending.lookup key with
  | some served => served
  | none => servedOf entries key

theorem recordOf_settle (s : ObservedState) (p : Publication)
    (acc : Bool × SortedMap String StateEntry) (key : String) :
    recordOf (s.settle canonicalJson p acc key).2 = recordOf acc.2 := by
  funext k
  simp only [recordOf, settle]
  cases hrow : acc.2.get? key with
  | none => rfl
  | some row =>
    rw [SortedMap.get?_insert]
    split
    · next h =>
      rw [h, hrow]
      rfl
    · rfl

theorem servedOf_settle (s : ObservedState) (p : Publication)
    (acc : Bool × SortedMap String StateEntry) (key k : String) :
    servedOf (s.settle canonicalJson p acc key).2 k =
      if k = key ∧
        (acc.2.get? key).isSome then servedRecord canonicalJson key acc.2
        p else servedOf acc.2 k := by
  simp only [servedOf, settle]
  cases hrow : acc.2.get? key with
  | none => simp
  | some row =>
    rw [SortedMap.get?_insert]
    by_cases h : k = key <;> simp [h]

/-- A settled key that serves what it did before is seen as before, and so is every other key. -/
theorem before_settle (s : ObservedState) (p : Publication)
    (acc : Bool × SortedMap String StateEntry) (key k : String)
    (h : servedRecord canonicalJson key acc.2 p = s.before acc.2 key) :
    s.before (s.settle canonicalJson p acc key).2 k = s.before acc.2 k := by
  unfold before at h ⊢
  split
  · rfl
  · next hpending =>
    rw [servedOf_settle]
    split
    · next hkey =>
      obtain ⟨rfl, -⟩ := hkey
      rw [h, hpending]
    · rfl

theorem settle_fst (s : ObservedState) (p : Publication) (acc : Bool × SortedMap String StateEntry)
    (key : String) :
    (s.settle canonicalJson p acc key).1 = true ↔
      acc.1 = true ∨ servedRecord canonicalJson key acc.2 p ≠ s.before acc.2 key := by
  simp only [settle, before, servedOf, Bool.or_eq_true, decide_eq_true_eq]

/-- Settling keys changes no record, and settles what each of those that are observed serves. -/
theorem foldl_settle (s : ObservedState) (p : Publication) (keys : List String)
    (acc : Bool × SortedMap String StateEntry) :
    recordOf (keys.foldl (s.settle canonicalJson p) acc).2 = recordOf acc.2 ∧
    ∀ k, servedOf (keys.foldl (s.settle canonicalJson p) acc).2 k =
      if k ∈ keys ∧ (recordOf acc.2 k).isSome then servedFrom canonicalJson (recordOf acc.2) p k
      else servedOf acc.2 k := by
  induction keys generalizing acc with
  | nil => exact ⟨rfl, fun k => by simp⟩
  | cons key keys ih =>
    obtain ⟨hrecords, hserved⟩ := ih (s.settle canonicalJson p acc key)
    rw [recordOf_settle] at hrecords
    refine ⟨hrecords, fun k => ?_⟩
    rw [List.foldl_cons, hserved, recordOf_settle, servedOf_settle, servedRecord_eq]
    have hobserved : (recordOf acc.2 k).isSome = (acc.2.get? k).isSome := by simp [recordOf]
    by_cases hkey : k = key
    · subst hkey
      by_cases hrow : (acc.2.get? k).isSome = true <;> simp [hobserved, hrow]
    · simp [hkey]

/-- Some key moved if and only if one of the candidates serves something else than before. -/
theorem foldl_settle_fst (s : ObservedState) (p : Publication) (was : String → Option Record)
    (keys : List String) (acc : Bool × SortedMap String StateEntry)
    (hwas : ∀ k ∈ keys, s.before acc.2 k = was k ∨ acc.1 = true) :
    (keys.foldl (s.settle canonicalJson p) acc).1 = true ↔
      acc.1 = true ∨ ∃ k ∈ keys, servedFrom canonicalJson (recordOf acc.2) p k ≠ was k := by
  induction keys generalizing acc with
  | nil => simp
  | cons key keys ih =>
    obtain ⟨hkey, hkeys⟩ := List.forall_mem_cons.mp hwas
    have hnext : ∀ k ∈ keys, s.before (s.settle canonicalJson p acc key).2 k = was k ∨
        (s.settle canonicalJson p acc key).1 = true := by
      intro k hk
      rcases hkeys k hk with hbefore | hmoved
      · by_cases hsame : servedRecord canonicalJson key acc.2 p = s.before acc.2 key
        · exact .inl ((before_settle s p acc key k hsame).trans hbefore)
        · exact .inr ((settle_fst ..).mpr (.inr hsame))
      · exact .inr ((settle_fst ..).mpr (.inl hmoved))
    rw [List.foldl_cons, ih _ hnext, recordOf_settle, settle_fst, servedRecord_eq]
    rw [List.exists_mem_cons_iff]
    rcases hkey with hkey | hmoved
    · rw [hkey, or_assoc]
    · simp [hmoved]

/-! ### What is known since the last publication -/

def Filtered (p : Publication) (key : String) : Prop :=
  key ∈ p.rejected ∨ ∃ pin, p.stale.lookup key = some pin

theorem mem_filtered {p : Publication} {key : String} : key ∈ p.filtered ↔ Filtered p key := by
  rw [Publication.filtered, List.mem_dedup, List.mem_append, Filtered, ← AList.mem_keys,
    ← AList.lookup_isSome, Option.isSome_iff_exists]

/-- What the state knows of the last publication `p`, when the records were `records`. -/
structure Since (canonicalJson : Bytes → Option Bytes) (s : ObservedState)
    (records : String → Option Record) (p : Publication) : Prop where
  pending : ∀ k served, s.pending.lookup k = some served →
    served = servedFrom canonicalJson records p k
  served : ∀ k, s.pending.lookup k = none →
    servedOf s.entries k = servedFrom canonicalJson records p k
  recorded : ∀ k, s.pending.lookup k = none → recordOf s.entries k = records k
  filtered : ∀ k, k ∈ s.filtered ↔ Filtered p k

section Since

variable {s : ObservedState} {records : String → Option Record} {p : Publication}

theorem since_empty : Since canonicalJson empty (fun _ => none) .empty where
  pending := by
    intro k served h
    cases h
  served := fun _ _ => rfl
  recorded := fun _ _ => rfl
  filtered := by simp [empty, Filtered, Publication.empty]

theorem lookup_rememberServed (s : ObservedState) (key k : String) (served : Option Record) :
    (s.rememberServed key served).pending.lookup k =
      if k = key then some ((s.pending.lookup key).getD served) else s.pending.lookup k := by
  unfold rememberServed
  cases hpending : s.pending.lookup key with
  | some v =>
    by_cases h : k = key
    · rw [if_pos h, h]
      exact hpending
    · rw [if_neg h]
  | none =>
    by_cases h : k = key
    · rw [if_pos h, h]
      exact AList.lookup_insert _
    · rw [if_neg h]
      exact AList.lookup_insert_ne h

@[simp] theorem rememberServed_entries (s : ObservedState) (key : String) (served : Option Record) :
    (s.rememberServed key served).entries = s.entries := by
  unfold rememberServed
  split <;> rfl

@[simp] theorem rememberServed_filtered (s : ObservedState) (key : String)
    (served : Option Record) :
    (s.rememberServed key served).filtered = s.filtered := by
  unfold rememberServed
  split <;> rfl

@[simp] theorem rememberServed_servedVersion (s : ObservedState) (key : String)
    (served : Option Record) :
    (s.rememberServed key served).servedVersion = s.servedVersion := by
  unfold rememberServed
  split <;> rfl

theorem since_change (h : Since canonicalJson s records p) (key : String) {s' : ObservedState}
    (hpending : s'.pending = (s.rememberServed key (servedOf s.entries key)).pending)
    (hfiltered : s'.filtered = s.filtered)
    (hentries : ∀ k ≠ key, s'.entries.get? k = s.entries.get? k) :
    Since canonicalJson s' records p := by
  have hlookup : ∀ k, s'.pending.lookup k = none → k ≠ key ∧ s.pending.lookup k = none := by
    intro k hk
    rw [hpending, lookup_rememberServed] at hk
    split at hk
    · cases hk
    · exact ⟨‹_›, hk⟩
  constructor
  · intro k served hk
    rw [hpending, lookup_rememberServed] at hk
    split at hk
    · next hkey =>
      subst hkey
      rw [← Option.some.inj hk]
      cases hold : s.pending.lookup k with
      | some v => exact h.pending k v hold
      | none => exact h.served k hold
    · exact h.pending k served hk
  · intro k hk
    obtain ⟨hne, hk⟩ := hlookup k hk
    rw [servedOf, hentries k hne]
    exact h.served k hk
  · intro k hk
    obtain ⟨hne, hk⟩ := hlookup k hk
    rw [recordOf, hentries k hne]
    exact h.recorded k hk
  · intro k
    rw [hfiltered]
    exact h.filtered k

theorem since_insert (h : Since canonicalJson s records p) (entry : RawEntry) :
    Since canonicalJson (s.insert canonicalJson entry) records p := by
  have hother : ∀ (row : StateEntry), ∀ k ≠ entry.key, (s.entries.insert entry.key row).get? k =
      s.entries.get? k :=
    fun row k hk => SortedMap.get?_insert_ne hk row s.entries
  unfold insert
  dsimp only
  split
  · next old hold =>
    split
    · next hsame =>
      -- the row is replaced by one with the same record, which serves what the old one did
      have hrow :
          ∀ k,
          recordOf
          (s.entries.insert entry.key
            { StateEntry.new canonicalJson entry with served := old.served }) k =
            recordOf s.entries k ∧
          servedOf
            (s.entries.insert entry.key
              { StateEntry.new canonicalJson entry with served := old.served }) k =
            servedOf s.entries k := by
        intro k
        unfold recordOf servedOf
        by_cases hk : k = entry.key
        · rw [hk, SortedMap.get?_insert_self, hold]
          exact ⟨congrArg some hsame.symm, rfl⟩
        · rw [hother _ k hk]
          exact ⟨rfl, rfl⟩
      constructor
      · exact h.pending
      · intro k hk
        rw [(hrow k).2]
        exact h.served k hk
      · intro k hk
        rw [(hrow k).1]
        exact h.recorded k hk
      · exact h.filtered
    · have hserved : servedOf s.entries entry.key = old.served := by
        rw [servedOf, hold, Option.bind_some]
      refine since_change h entry.key ?_ ?_ ?_
      · rw [hserved]
      · simp
      · simpa using hother (StateEntry.new canonicalJson entry)
  · next hnone =>
    have hserved : servedOf s.entries entry.key = none := by rw [servedOf, hnone, Option.bind_none]
    refine since_change h entry.key ?_ ?_ ?_
    · rw [hserved]
    · simp
    · simpa using hother (StateEntry.new canonicalJson entry)

theorem since_remove (h : Since canonicalJson s records p) (key : String) :
    Since canonicalJson (s.remove key).1 records p := by
  unfold remove
  split
  · next row hrow =>
    have hserved : servedOf s.entries key = row.served := by rw [servedOf, hrow, Option.bind_some]
    refine since_change h key ?_ ?_ fun k hk => ?_
    · rw [hserved]
    · simp
    · simp [hk]
  · exact h

/-! ### A publication is exact -/

/-- What the pin of a key contributes. -/
def pinOf (canonicalJson : Bytes → Option Bytes) (p : Publication) (key : String) : Option Record :=
  (p.stale.lookup key).map (·.record canonicalJson)

theorem servedFrom_congr {records' : String → Option Record} {p' : Publication} {k : String}
    (hpin : pinOf canonicalJson p' k = pinOf canonicalJson p k)
    (hfiltered : Filtered p' k ↔ Filtered p k) (hrecord : records' k = records k) :
    servedFrom canonicalJson records' p' k = servedFrom canonicalJson records p k := by
  unfold pinOf at hpin
  unfold servedFrom
  unfold Filtered at hfiltered
  cases hp : p.stale.lookup k with
  | some pin =>
    cases hp' : p'.stale.lookup k with
    | some pin' => simpa [hp, hp'] using hpin
    | none => simp [hp, hp'] at hpin
  | none =>
    cases hp' : p'.stale.lookup k with
    | some pin' => simp [hp, hp'] at hpin
    | none =>
      have hrejected : k ∈ p'.rejected ↔ k ∈ p.rejected := by simpa [hp, hp'] using hfiltered
      simp only [hrejected, hrecord]

/-- Every pin is under its own key, and pins an observed entry. -/
def OwnKeys (s : ObservedState) (p : Publication) : Prop :=
  ∀ k pin, p.stale.lookup k = some pin → pin.entry.key = k ∧ ∃ row, s.entries.get? k = some row

/-- Pins change only for keys that are pending, or that begin or cease to be rejected or pinned. -/
def PinsNoted (canonicalJson : Bytes → Option Bytes) (s : ObservedState) (p p' : Publication) :
    Prop :=
  ∀ k, pinOf canonicalJson p' k ≠ pinOf canonicalJson p k →
    (∃ served, s.pending.lookup k = some served) ∨ ¬ (Filtered p' k ↔ Filtered p k)

theorem mem_candidates (h : Since canonicalJson s records p) {p' : Publication} {k : String} :
    k ∈ s.candidates p'.filtered ↔ (∃ served, s.pending.lookup k = some served) ∨
      ¬ (Filtered p' k ↔ Filtered p k) := by
  simp only [candidates, List.mem_append, List.mem_filter, ← AList.mem_keys, ← AList.lookup_isSome,
    Option.isSome_iff_exists, decide_eq_true_eq, mem_filtered, h.filtered]
  refine or_congr Iff.rfl ?_
  by_cases hk : Filtered p k <;> by_cases hk' : Filtered p' k <;> simp [hk, hk']

theorem before_eq (h : Since canonicalJson s records p) (k : String) :
    s.before s.entries k = servedFrom canonicalJson records p k := by
  unfold before
  split
  · next served hserved => exact h.pending k served hserved
  · next hnone => exact h.served k hnone

theorem servedFrom_of_not_candidate (h : Since canonicalJson s records p) {p' : Publication}
    (hnoted : PinsNoted canonicalJson s p p') {k : String} (hk : k ∉ s.candidates p'.filtered) :
    servedFrom canonicalJson (recordOf s.entries) p' k = servedFrom canonicalJson records p k := by
  rw [mem_candidates h, not_or, not_not] at hk
  obtain ⟨hpending, hfiltered⟩ := hk
  have hpin : pinOf canonicalJson p' k = pinOf canonicalJson p k := by
    by_contra hne
    rcases hnoted k hne with hin | hout
    · exact hpending hin
    · exact hout hfiltered
  refine servedFrom_congr hpin hfiltered (h.recorded k ?_)
  cases hlookup : s.pending.lookup k with
  | none => rfl
  | some served => exact absurd ⟨served, hlookup⟩ hpending

theorem publishServed_moved (h : Since canonicalJson s records p) {p' : Publication}
    (hnoted : PinsNoted canonicalJson s p p') :
    ((s.candidates p'.filtered).foldl (s.settle canonicalJson p') (false, s.entries)).1 = true ↔
      servedFrom canonicalJson (recordOf s.entries) p' ≠ servedFrom canonicalJson records p := by
  rw [foldl_settle_fst s p' (servedFrom canonicalJson records p) _ _ fun k _ => .inl
    (before_eq h k), Function.ne_iff]
  constructor
  · rintro (hfalse | ⟨k, -, hne⟩)
    · cases hfalse
    · exact ⟨k, hne⟩
  · rintro ⟨k, hne⟩
    refine .inr ⟨k, ?_, hne⟩
    by_contra hk
    exact hne (servedFrom_of_not_candidate h hnoted hk)

theorem since_publishServed (h : Since canonicalJson s records p) {p' : Publication}
    (hown : OwnKeys s p') (hnoted : PinsNoted canonicalJson s p p') :
    Since canonicalJson (s.publishServed canonicalJson p').1 (recordOf s.entries) p' := by
  obtain ⟨hrecords, hserved⟩ := @foldl_settle canonicalJson s p' (s.candidates p'.filtered) (false,
    s.entries)
  constructor
  · intro k served hk
    cases hk
  · intro k _
    refine (hserved k).trans ?_
    split
    · rfl
    · next hk =>
      by_cases hcandidate : k ∈ s.candidates p'.filtered
      · -- the key is not observed, so it is not pinned and serves nothing
        have hrow : s.entries.get? k = none := by simpa [recordOf, hcandidate] using hk
        have hpin : p'.stale.lookup k = none := by
          cases hlookup : p'.stale.lookup k with
          | none => rfl
          | some pin =>
            obtain ⟨row, hget⟩ := (hown k pin hlookup).2
            rw [hrow] at hget
            cases hget
        simp [servedOf, servedFrom, recordOf, hrow, hpin]
      · rw [servedFrom_of_not_candidate h hnoted hcandidate]
        refine h.served k ?_
        cases hlookup : s.pending.lookup k with
        | none => rfl
        | some served => exact absurd ((mem_candidates h).mpr (.inl ⟨served, hlookup⟩)) hcandidate
  · intro k _
    exact congrFun hrecords k
  · intro k
    exact mem_filtered

end Since

/-! ### Runs -/

inductive Write where
  | insert (entry : RawEntry)
  | remove (key : String)

def write (canonicalJson : Bytes → Option Bytes) (s : ObservedState) : Write → ObservedState
  | .insert entry => s.insert canonicalJson entry
  | .remove key => (s.remove key).1

/-- A write changes the record of a key: it is put in with another record, or taken out. -/
def Changes (canonicalJson : Bytes → Option Bytes) (s : ObservedState) : Write → String → Prop
  | .insert entry, k =>
    entry.key = k ∧ recordOf s.entries k ≠ some (hashRecord canonicalJson entry.key entry.value)
  | .remove key, k => key = k ∧ ∃ row, s.entries.get? k = some row

def writes (canonicalJson : Bytes → Option Bytes) (s : ObservedState) (ws : List Write) :
    ObservedState :=
  ws.foldl (write canonicalJson) s

/-- Some of the writes changes the record of a key. -/
def Changed (canonicalJson : Bytes → Option Bytes) (s : ObservedState) : List Write → String → Prop
  | [], _ => False
  | w :: ws, k => s.Changes canonicalJson w k ∨ (s.write canonicalJson w).Changed canonicalJson ws k

/-- The writes since a publication, and the publication that follows them. -/
structure Interval where
  writes : List Write
  published : Publication

/-- The state after the last publication, and what it published. -/
def after (canonicalJson : Bytes → Option Bytes) (done : List Interval) :
    ObservedState × Publication :=
  done.foldl (fun last i =>
    (((last.1.writes canonicalJson i.writes).publishServed canonicalJson i.published).1,
      i.published)) (empty, .empty)

/-- What is served, key by key. -/
def served (canonicalJson : Bytes → Option Bytes) (s : ObservedState) (p : Publication)
    (key : String) : Option Record :=
  servedRecord canonicalJson key s.entries p

/-- A publication follows the rules: pins are of observed keys, under their own keys, and they
change only for keys that are excused. -/
def Follows (canonicalJson : Bytes → Option Bytes) (last : ObservedState × Publication)
    (i : Interval) (excused : String → Prop) : Prop :=
  OwnKeys (last.1.writes canonicalJson i.writes) i.published ∧
    ∀ k, pinOf canonicalJson i.published k ≠ pinOf canonicalJson last.2 k → excused k

/-- Excused are the keys whose record changed since the last publication, and those that begin or
cease to be rejected or pinned. -/
def Noted (canonicalJson : Bytes → Option Bytes) (last : ObservedState × Publication) (i : Interval)
    (k : String) : Prop :=
  last.1.Changed canonicalJson i.writes k ∨ ¬ (Filtered i.published k ↔ Filtered last.2 k)

/-- The version advances with the publication if and only if what is served is not what the last one
served. -/
def Exact (canonicalJson : Bytes → Option Bytes) (last : ObservedState × Publication)
    (i : Interval) : Prop :=
  let s := last.1.writes canonicalJson i.writes
  (s.publishServed canonicalJson i.published).2 = last.1.servedVersion + 1 ∧
      s.served canonicalJson i.published ≠ last.1.served canonicalJson last.2 ∨
    (s.publishServed canonicalJson i.published).2 = last.1.servedVersion ∧
      s.served canonicalJson i.published = last.1.served canonicalJson last.2

section Runs

variable {s : ObservedState} {records : String → Option Record} {p : Publication}

theorem since_write (h : Since canonicalJson s records p) (w : Write) :
    Since canonicalJson (s.write canonicalJson w) records p := by
  cases w with
  | insert entry => exact since_insert h entry
  | remove key => exact since_remove h key

theorem since_writes (h : Since canonicalJson s records p) (ws : List Write) :
    Since canonicalJson (s.writes canonicalJson ws) records p := by
  induction ws generalizing s with
  | nil => exact h
  | cons w ws ih => exact ih (since_write h w)

theorem servedVersion_write (s : ObservedState) (w : Write) :
    (s.write canonicalJson w).servedVersion = s.servedVersion := by
  cases w with
  | insert entry =>
    simp only [write, insert]
    split
    · split
      · rfl
      · simp
    · simp
  | remove key =>
    simp only [write, remove]
    split
    · simp
    · rfl

theorem servedVersion_writes (s : ObservedState) (ws : List Write) :
    (s.writes canonicalJson ws).servedVersion = s.servedVersion := by
  induction ws generalizing s with
  | nil => rfl
  | cons w ws ih => exact (ih _).trans (servedVersion_write s w)

/-- A key that is pending stays so, and one whose record a write changes becomes pending. -/
theorem pending_write (s : ObservedState) (w : Write) (k : String)
    (h : (∃ served, s.pending.lookup k = some served) ∨ s.Changes canonicalJson w k) :
    ∃ served, (s.write canonicalJson w).pending.lookup k = some served := by
  have hremembered : ∀ key served, ((∃ v, s.pending.lookup k = some v) ∨ key = k) →
      ∃ v, (s.rememberServed key served).pending.lookup k = some v := by
    intro key served h
    rw [lookup_rememberServed]
    split
    · exact ⟨_, rfl⟩
    · next hne => exact h.resolve_right fun heq => hne heq.symm
  cases w with
  | insert entry =>
    simp only [write, insert]
    split
    · next old hold =>
      split
      · next hsame =>
        refine h.resolve_right fun hchanges => hchanges.2 ?_
        rw [← hchanges.1, recordOf, hold]
        exact congrArg some hsame
      · exact hremembered _ _ (h.imp_right And.left)
    · exact hremembered _ _ (h.imp_right And.left)
  | remove key =>
    simp only [write, remove]
    split
    · exact hremembered _ _ (h.imp_right And.left)
    · next hnone =>
      refine h.resolve_right fun hchanges => ?_
      obtain ⟨rfl, row, hrow⟩ := hchanges
      rw [hnone] at hrow
      cases hrow

theorem pending_writes (s : ObservedState) (ws : List Write) (k : String)
    (h : (∃ served, s.pending.lookup k = some served) ∨ s.Changed canonicalJson ws k) :
    ∃ served, (s.writes canonicalJson ws).pending.lookup k = some served := by
  induction ws generalizing s with
  | nil => exact h.resolve_right id
  | cons w ws ih =>
    refine ih (s.write canonicalJson w) ?_
    rcases h with hpending | hchanges | hchanged
    · exact .inl (pending_write s w k (.inl hpending))
    · exact .inl (pending_write s w k (.inr hchanges))
    · exact .inr hchanged

theorem pinsNoted_writes {last : ObservedState × Publication} {i : Interval}
    (h : Follows canonicalJson last i (Noted canonicalJson last i)) :
    PinsNoted canonicalJson (last.1.writes canonicalJson i.writes) last.2 i.published := by
  intro k hne
  rcases h.2 k hne with hchanged | hfiltered
  · exact .inl (pending_writes last.1 i.writes k (.inr hchanged))
  · exact .inr hfiltered

theorem after_concat (done : List Interval) (i : Interval) : after canonicalJson (done ++ [i]) =
    ((((after canonicalJson done).1.writes canonicalJson i.writes).publishServed canonicalJson
      i.published).1, i.published) :=
  List.foldl_concat ..

theorem recordOf_publishServed (s : ObservedState) (p : Publication) :
    recordOf (s.publishServed canonicalJson p).1.entries = recordOf s.entries :=
  (foldl_settle s p (s.candidates p.filtered) (false, s.entries)).1

/-- Through a run that follows the rules the state knows what the last publication served. -/
theorem since_after {done : List Interval}
    (h : ∀ before i rest, done = before ++ i :: rest →
      Follows canonicalJson (after canonicalJson before) i
        (Noted canonicalJson (after canonicalJson before) i)) :
    Since canonicalJson (after canonicalJson done).1 (recordOf (after canonicalJson done).1.entries)
      (after canonicalJson done).2 := by
  induction done using List.reverseRecOn with
  | nil => exact since_empty
  | append_singleton done i ih =>
    have hsince := ih fun before j rest hdone => h before j (rest ++ [i]) (by simp [hdone])
    have hfollows := h done i [] rfl
    rw [after_concat, recordOf_publishServed]
    exact since_publishServed (since_writes hsince i.writes) hfollows.1 (pinsNoted_writes hfollows)

end Runs

end ObservedState

end Etcd
end Aisix
