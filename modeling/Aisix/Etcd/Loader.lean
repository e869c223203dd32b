import Aisix.Etcd.Key
import Aisix.Etcd.Snapshot

/-!
# Aisix.Etcd.Loader

Raw etcd entries to snapshot rows. What a document of a known kind is worth (accepted with a value
and the fields that were ignored, or refused) is a parameter; the key, the JSON and the kind are
checked here, in the order of the source.

`load_eq` says where an accepted document goes: in the table that the key's name selects.
-/

namespace Aisix
namespace Etcd

/-- Key, value and revision as etcd returns them. -/
structure RawEntry where
  key : String
  value : List UInt8
  revision : Int
  deriving DecidableEq

inductive RejectionKind where
  | badKey
  | nonJson
  | schemaFailed
  | parseFailed
  | unknownKind
  deriving DecidableEq

/-- Why an entry was skipped; the source renders it as a text. -/
inductive RejectionError where
  | key (err : KeyError)
  | json (err : String)
  | notUnderGlobal (kind : String)
  | unknown (kind : String)
  | document (err : String)
  deriving DecidableEq

structure RejectedEntry where
  key : String
  kind : RejectionKind
  error : RejectionError
  deriving DecidableEq

/-- The unknown fields of a row that loaded anyway. -/
structure PartialCompatRow where
  key : String
  kind : String
  fields : List String
  deriving DecidableEq

/-- The verdict on a document: schema or typed parse refuse it, or it has a value. -/
inductive Verdict (V : Type) where
  | schemaFailed (err : String)
  | parseFailed (err : String)
  | accepted (value : V) (ignored : List String)

/-- The per-document decisions of a build. -/
structure Loader (J V : Type) where
  parseJson : List UInt8 → Except String J
  document : (kind key : String) → J → Verdict V

/-- What the supervisor is started with. `hashOrder` is the order in which a hash map yields its
values. -/
structure Env (J V : Type) where
  prefixes : PrefixSet
  loader : Loader J V
  hashOrder : List RawEntry → List RawEntry
  hashOrder_perm : ∀ l, (hashOrder l).Perm l

/-- The table a kind segment selects, by the scope of its prefix. -/
def loaderTable (parsed : ScopedKey) : Option Table :=
  match parsed.kind with
  | "pricing" =>
    match parsed.scope with
    | .environment => some .pricing
    | .global => some .globalPricing
  -- a table selector, not a kind
  | "global_pricing" => none
  | kind => Table.ofName? kind

/-- A loaded row with its table and, when fields were ignored, the report of it. -/
structure Loaded (V : Type) where
  table : Table
  entry : ResourceEntry V
  partialRow : Option PartialCompatRow

variable {J V : Type}

/-- One entry of `build_snapshot`. -/
def load (env : Env J V) (raw : RawEntry) : Except RejectedEntry (Loaded V) :=
  match env.prefixes.resolve raw.key with
  | .error err => .error ⟨raw.key, .badKey, .key err⟩
  | .ok parsed =>
    match env.loader.parseJson raw.value with
    | .error err => .error ⟨raw.key, .nonJson, .json err⟩
    | .ok value =>
      -- the shared catalog carries prices and nothing else
      if parsed.scope = .global ∧ parsed.kind ≠ "pricing" then
        .error ⟨raw.key, .unknownKind, .notUnderGlobal parsed.kind⟩
      else
        match loaderTable parsed with
        | none => .error ⟨raw.key, .unknownKind, .unknown parsed.kind⟩
        | some table =>
          match env.loader.document parsed.kind raw.key value with
          | .schemaFailed err => .error ⟨raw.key, .schemaFailed, .document err⟩
          | .parseFailed err => .error ⟨raw.key, .parseFailed, .document err⟩
          | .accepted v ignored =>
            .ok
              { table
                entry := ⟨parsed.id, v, raw.revision⟩
                partialRow :=
                  if ignored = [] then none else some ⟨raw.key, parsed.kind, ignored⟩ }

structure BuildStats where
  accepted : Nat
  rejections : List RejectedEntry
  partialRows : List PartialCompatRow

def BuildStats.new : BuildStats := ⟨0, [], []⟩

def buildStep (env : Env J V) (acc : Snapshot V × BuildStats) (raw : RawEntry) :
    Snapshot V × BuildStats :=
  let (snapshot, stats) := acc
  match load env raw with
  | .error r => (snapshot, { stats with rejections := stats.rejections ++ [r] })
  | .ok l =>
    (snapshot.insert l.table l.entry,
      { stats with
        accepted := stats.accepted + 1
        partialRows := stats.partialRows ++ l.partialRow.toList })

def buildSnapshot (env : Env J V) (entries : List RawEntry) : Snapshot V × BuildStats :=
  entries.foldl (buildStep env) (.empty, .new)

/-- The table name and id that a key addresses. -/
def Env.address (env : Env J V) (key : String) : Option (String × String) :=
  match env.prefixes.resolve key with
  | .ok parsed => some (parsed.tableKind, parsed.id)
  | .error _ => none

section Load

variable {env : Env J V} {raw : RawEntry} {l : Loaded V} {r : RejectedEntry}

theorem loaderTable_name {parsed : ScopedKey} {t : Table} (h : loaderTable parsed = some t)
    (hscope : ¬ (parsed.scope = .global ∧ parsed.kind ≠ "pricing")) :
    parsed.tableKind = t.name := by
  obtain ⟨scope, kind, id⟩ := parsed
  unfold loaderTable at h
  unfold ScopedKey.tableKind
  by_cases hk : kind = "pricing"
  · subst hk
    cases scope <;> cases h <;> rfl
  · have henv : scope = .environment := by
      cases scope with
      | environment => rfl
      | global => exact absurd ⟨rfl, hk⟩ hscope
    subst henv
    split at h
    · contradiction
    · cases h
    · exact Table.ofName?_eq_some.1 h

theorem load_address (h : load env raw = .ok l) :
    env.address raw.key = some (l.table.name, l.entry.id) := by
  unfold load at h
  unfold Env.address
  split at h
  · cases h
  next parsed hresolve =>
    rw [hresolve]
    dsimp only
    split at h
    · cases h
    next =>
      split at h
      · cases h
      next hscope =>
        split at h
        · cases h
        next table htable =>
          rw [loaderTable_name htable hscope]
          split at h <;> cases h
          rfl

theorem load_error_key (h : load env raw = .error r) : r.key = raw.key := by
  unfold load at h
  repeat' split at h
  all_goals (cases h <;> rfl)

theorem load_partialRow {row : PartialCompatRow} (h : load env raw = .ok l)
    (hrow : l.partialRow = some row) : row.key = raw.key := by
  unfold load at h
  repeat' split at h
  all_goals (cases h <;> cases hrow <;> rfl)

end Load

end Etcd
end Aisix
