import Mathlib.Data.List.Sort

/-!
# Aisix.Etcd.Key

Etcd keys of the shape `{prefix}/{kind}/{id}`, resolved against the set of watched prefixes.

* `PrefixSet.resolve` — the scope, kind and id a key is attributed to, or why it is refused.
* `ScopedKey.tableKind` — the name of the snapshot table the row belongs in.
-/

namespace Aisix
namespace Etcd

structure ResourceKey where
  kind : String
  id : String
  deriving DecidableEq

inductive KeyError where
  | prefixMismatch (key keyPrefix : String)
  | missingSuffix (key : String)
  | emptySegment (key : String)
  deriving DecidableEq

/-- `trim_end_matches('/')`. -/
def trimEndSlashes (s : String) : String :=
  String.ofList (s.toList.reverse.dropWhile (· = '/')).reverse

/-- `split_once('/')`. -/
def splitOnce : List Char → Option (List Char × List Char)
  | [] => none
  | c :: cs =>
    if c = '/' then some ([], cs)
    else (splitOnce cs).map fun (before, rest) => (c :: before, rest)

/-- Split an etcd key into kind and id. -/
def parse (keyPrefix key : String) : Except KeyError ResourceKey :=
  let trimmed := (trimEndSlashes keyPrefix).toList
  if trimmed.isPrefixOf key.toList then
    let rest := key.toList.drop trimmed.length
    -- the prefix ends at a delimiter, so `/aisixmodels/x` is not under `/aisix`
    if rest ≠ [] ∧ rest.head? ≠ some '/' then .error (.prefixMismatch key keyPrefix)
    else
      match splitOnce (rest.drop 1) with
      | none => .error (.missingSuffix key)
      | some (kind, id) =>
        if kind = [] ∨ id = [] then .error (.emptySegment key)
        else .ok ⟨String.ofList kind, String.ofList id⟩
  else .error (.prefixMismatch key keyPrefix)

inductive PrefixScope where
  | environment
  | global
  deriving DecidableEq

structure WatchedPrefix where
  keyPrefix : String
  scope : PrefixScope

/-- Longest first, so that a key goes to the most specific prefix that contains it. -/
structure PrefixSet where
  prefixes : List WatchedPrefix

def PrefixSet.new (prefixes : List WatchedPrefix) : PrefixSet :=
  ⟨prefixes.insertionSort fun p q =>
    (trimEndSlashes q.keyPrefix).utf8ByteSize ≤ (trimEndSlashes p.keyPrefix).utf8ByteSize⟩

/-- A parsed key with the scope of the prefix it came from. -/
structure ScopedKey where
  scope : PrefixScope
  kind : String
  id : String
  deriving DecidableEq

def resolveAmong (key : String) : Option KeyError → List WatchedPrefix → Except KeyError ScopedKey
  | firstErr, [] => .error (firstErr.getD (.prefixMismatch key ""))
  | firstErr, watched :: rest =>
    match parse watched.keyPrefix key with
    | .ok parsed => .ok ⟨watched.scope, parsed.kind, parsed.id⟩
    | .error (.prefixMismatch k p) =>
      resolveAmong key (firstErr <|> some (.prefixMismatch k p)) rest
    -- a malformed suffix under this prefix is a bad key: no other prefix contains it either
    | .error err => .error err

def PrefixSet.resolve (prefixes : PrefixSet) (key : String) : Except KeyError ScopedKey :=
  resolveAmong key none prefixes.prefixes

theorem splitOnce_eq_some {cs before rest : List Char} (h : splitOnce cs = some (before, rest)) :
    cs = before ++ '/' :: rest ∧ '/' ∉ before := by
  induction cs generalizing before with
  | nil => cases h
  | cons c cs ih =>
    rw [splitOnce] at h
    split at h
    next hc =>
      obtain ⟨rfl, rfl⟩ := Prod.mk.inj (Option.some.inj h)
      exact ⟨by rw [hc]; rfl, by simp⟩
    next hc =>
      obtain ⟨⟨b, r⟩, hsplit, heq⟩ := Option.map_eq_some_iff.1 h
      obtain ⟨rfl, rfl⟩ := Prod.mk.inj heq
      obtain ⟨hcs, hmem⟩ := ih hsplit
      refine ⟨by rw [hcs]; rfl, ?_⟩
      rw [List.mem_cons, not_or]
      exact ⟨Ne.symm hc, hmem⟩

theorem parse_eq_ok {keyPrefix key : String} {r : ResourceKey} (h : parse keyPrefix key = .ok r) :
    key.toList = (trimEndSlashes keyPrefix).toList ++ '/' ::
      (r.kind.toList ++ '/' :: r.id.toList) := by
  simp only [parse] at h
  split at h
  next hprefix =>
    obtain ⟨rest, hrest⟩ := List.isPrefixOf_iff_prefix.1 hprefix
    rw [← hrest, List.drop_left] at h
    split at h
    · cases h
    next hhead =>
      split at h
      · cases h
      next kind id hsplit =>
        split at h
        · cases h
        next =>
          obtain rfl := Except.ok.inj h
          cases rest with
          | nil => cases hsplit
          | cons c cs =>
            have hc : c = '/' := by simpa using hhead
            have hsplit : splitOnce cs = some (kind, id) := hsplit
            obtain ⟨hcs, -⟩ := splitOnce_eq_some hsplit
            rw [← hrest, hc, hcs, String.toList_ofList, String.toList_ofList]
  next => cases h

theorem parse_inj {keyPrefix key key' : String} {r : ResourceKey} (h : parse keyPrefix key = .ok r)
    (h' : parse keyPrefix key' = .ok r) : key = key' :=
  String.toList_injective ((parse_eq_ok h).trans (parse_eq_ok h').symm)

theorem resolveAmong_eq_ok {key : String} {watched : List WatchedPrefix}
    {firstErr : Option KeyError} {k : ScopedKey} (h : resolveAmong key firstErr watched = .ok k) :
    ∃ w ∈ watched, w.scope = k.scope ∧ parse w.keyPrefix key = .ok ⟨k.kind, k.id⟩ := by
  induction watched generalizing firstErr with
  | nil => cases h
  | cons w ws ih =>
    rw [resolveAmong] at h
    split at h
    next parsed hparse =>
      obtain rfl := Except.ok.inj h
      exact ⟨w, List.mem_cons_self, rfl, hparse⟩
    next =>
      obtain ⟨w', hw', hk⟩ := ih h
      exact ⟨w', List.mem_cons_of_mem _ hw', hk⟩
    next => cases h

theorem PrefixSet.resolve_inj {environment global key key' : String} {k : ScopedKey}
    (h : (PrefixSet.new [⟨environment, .environment⟩, ⟨global, .global⟩]).resolve key = .ok k)
    (h' : (PrefixSet.new [⟨environment, .environment⟩, ⟨global, .global⟩]).resolve key' = .ok k) :
    key = key' := by
  have hparse :
      ∀ {key}, (PrefixSet.new [⟨environment, .environment⟩, ⟨global, .global⟩]).resolve key =
      .ok k → parse (match k.scope with | .environment => environment | .global => global) key =
        .ok ⟨k.kind, k.id⟩ := by
    intro key h
    obtain ⟨w, hw, hscope, hparse⟩ := resolveAmong_eq_ok h
    rw [PrefixSet.new, List.mem_insertionSort] at hw
    rcases List.mem_cons.1 hw with rfl | hw
    · rw [← hscope]; exact hparse
    · obtain rfl := List.mem_singleton.1 hw
      rw [← hscope]; exact hparse
  exact parse_inj (hparse h) (hparse h')

/-- A `pricing` document under the global prefix belongs in `global_pricing`. -/
def ScopedKey.tableKind (k : ScopedKey) : String :=
  match k.scope, k.kind with
  | .global, "pricing" => "global_pricing"
  | _, kind => kind

end Etcd
end Aisix
