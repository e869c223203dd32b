import Aisix.Delimited
import Aisix.Json
import Aisix.KeyMap

/-!
# Aisix.FileSource.Identity

The first pass over a resources file: every entry gets an identity, made of what the operator wrote,
and a second entry of one identity is refused. `distinct_iff` says for which files that tells the
entries apart.
-/

namespace Aisix
namespace FileSource

open Json

/-- How a kind names its entries in the file. -/
inductive IdentityField where
  | displayName
  | name
  | nameOrDisplayName
  | fixed (value : String)
  | attachmentTriple
  deriving DecidableEq, Repr

namespace IdentityField

/-- A member that is a non-empty string. -/
def member (doc : Value) (key : String) : Option String :=
  ((doc.get key).bind Value.asStr?).filter fun s => !s.isEmpty

def extract (doc : Value) : IdentityField → Option String
  | displayName => member doc "display_name"
  | name => member doc "name"
  | nameOrDisplayName => (member doc "name").or (member doc "display_name")
  | fixed value => some value
  | attachmentTriple =>
    (member doc "guardrail_id").bind fun guardrail =>
      (member doc "scope_type").map fun scopeType =>
        guardrail ++ "/" ++ scopeType ++ "/" ++ (member doc "scope_id").getD "-"

end IdentityField

/-- The resource collections, in the order in which they are read. -/
def KINDS : List (String × IdentityField) :=
  [("provider_keys", .displayName), ("models", .displayName), ("api_keys", .displayName),
    ("guardrails", .name), ("guardrail_attachments", .attachmentTriple),
    ("mcp_servers", .nameOrDisplayName), ("a2a_agents", .nameOrDisplayName),
    ("cache_policies", .name), ("observability_exporters", .name), ("rate_limit_policies", .name),
    ("oidc_providers", .name), ("claim_mappings", .name),
    ("passthrough_routes", .nameOrDisplayName), ("mcp_auth_settings", .fixed "mcp_auth_settings")]

/-- `newV5` is the UUID of a name in the namespace of the file resources. -/
def deriveId (newV5 : String → String) (kind identity : String) : String :=
  newV5 (kind ++ "/" ++ identity)

/-- An entry of a sequence: a mapping comes with its document, or with the field that could not be
read. -/
inductive Entry where
  | other
  | mapping (converted : Except (String × String) Value)

/-- What stands in the file under the name of a kind. -/
inductive Collection where
  | absent
  | sequence (entries : List Entry)
  | other

abbrev File := String → Collection

inductive Problem where
  | notSequence (kind : String)
  | notMapping (kind : String) (i : Nat)
  | unreadable (kind : String) (i : Nat) (path message : String)
  | noIdentity (kind : String) (i : Nat) (field : IdentityField)
  | duplicate (kind : String) (i : Nat) (field : IdentityField) (identity : String) (first : Nat)
  deriving DecidableEq

structure Prepared where
  kind : String
  index : Nat
  identity : String
  doc : Value

structure Pass where
  problems : List Problem
  /-- For each kind, the id of each identity. -/
  identityMaps : KeyMap String (KeyMap String String)
  prepared : List Prepared

namespace Pass

def new : Pass := ⟨[], ∅, []⟩

def report (pass : Pass) (problem : Problem) : Pass :=
  { pass with problems := pass.problems ++ [problem] }

def prepare (pass : Pass) (newV5 : String → String) (kind : String) (i : Nat) (identity : String)
    (doc : Value) : Pass :=
  { pass with
    identityMaps := pass.identityMaps.insert kind
      (((pass.identityMaps.lookup kind).getD ∅).insert identity (deriveId newV5 kind identity))
    prepared := pass.prepared ++ [⟨kind, i, identity, doc⟩] }

/-- One entry; `seenAt` has the identities before it. -/
def addEntry (newV5 : String → String) (kind : String) (field : IdentityField) (i : Nat)
    (entry : Entry) (seenAt : KeyMap String Nat) (pass : Pass) : KeyMap String Nat × Pass :=
  match entry with
  | .other => (seenAt, pass.report (.notMapping kind i))
  | .mapping (.error (path, message)) => (seenAt, pass.report (.unreadable kind i path message))
  | .mapping (.ok doc) =>
    match field.extract doc with
    | none => (seenAt, pass.report (.noIdentity kind i field))
    | some identity =>
      match seenAt.lookup identity with
      | some first => (seenAt, pass.report (.duplicate kind i field identity first))
      | none => (seenAt.insert identity i, pass.prepare newV5 kind i identity doc)

def addEntries (newV5 : String → String) (kind : String) (field : IdentityField) :
    Nat → List Entry → KeyMap String Nat → Pass → Pass
  | _, [], _, pass => pass
  | i, entry :: entries, seenAt, pass =>
    let (seenAt, pass) := pass.addEntry newV5 kind field i entry seenAt
    addEntries newV5 kind field (i + 1) entries seenAt pass

def addKind (newV5 : String → String) (file : File) (pass : Pass) (e : String × IdentityField) :
    Pass :=
  match file e.1 with
  | .absent => pass
  | .other => pass.report (.notSequence e.1)
  | .sequence entries => addEntries newV5 e.1 e.2 0 entries ∅ pass

end Pass

/-- The first pass of `load_from_str`. -/
def pass1 (newV5 : String → String) (file : File) : Pass :=
  KINDS.foldl (Pass.addKind newV5 file) .new

/-! ### What identifies an entry -/

/-- A guardrail attached to something; without a scope, to everything of the scope type. -/
structure Triple where
  guardrail : String
  scopeType : String
  scope : Option String
  deriving DecidableEq

namespace Triple

/-- The scope as it is written: a dash stands in for none. -/
def scopeText (t : Triple) : String := t.scope.getD "-"

def written (t : Triple) : String := t.guardrail ++ "/" ++ t.scopeType ++ "/" ++ t.scopeText

end Triple

/-- What tells the entries of a kind apart. -/
inductive Identifying where
  | named (name : String)
  | singleton
  | triple (t : Triple)
  deriving DecidableEq

namespace IdentityField

def triple (doc : Value) : Option Triple :=
  (member doc "guardrail_id").bind fun guardrail =>
    (member doc "scope_type").map fun scopeType => ⟨guardrail, scopeType, member doc "scope_id"⟩

def identifying (doc : Value) : IdentityField → Option Identifying
  | displayName => (member doc "display_name").map .named
  | name => (member doc "name").map .named
  | nameOrDisplayName => ((member doc "name").or (member doc "display_name")).map .named
  | fixed _ => some .singleton
  | attachmentTriple => (triple doc).map .triple

theorem extract_attachmentTriple (doc : Value) :
    attachmentTriple.extract doc = (triple doc).map Triple.written := by
  unfold extract triple
  cases member doc "guardrail_id" with
  | none => rfl
  | some guardrail =>
    cases member doc "scope_type" with
    | none => rfl
    | some scopeType => rfl

theorem isSome_identifying (field : IdentityField) (doc : Value) :
    (field.identifying doc).isSome = (field.extract doc).isSome := by
  cases field with
  | displayName => exact Option.isSome_map
  | name => exact Option.isSome_map
  | nameOrDisplayName => exact Option.isSome_map
  | fixed value => rfl
  | attachmentTriple =>
    rw [extract_attachmentTriple]
    exact Option.isSome_map.trans Option.isSome_map.symm

theorem extract_eq_of_identifying_eq {field : IdentityField} {d d' : Value}
    (h : field.identifying d = field.identifying d') : field.extract d = field.extract d' := by
  have hnamed : Function.Injective Identifying.named := fun _ _ heq => Identifying.named.inj heq
  have htriple : Function.Injective Identifying.triple := fun _ _ heq => Identifying.triple.inj heq
  cases field with
  | displayName => exact Option.map_injective hnamed h
  | name => exact Option.map_injective hnamed h
  | nameOrDisplayName => exact Option.map_injective hnamed h
  | fixed value => rfl
  | attachmentTriple =>
    rw [extract_attachmentTriple, extract_attachmentTriple]
    exact congrArg (Option.map Triple.written) (Option.map_injective htriple h)

theorem identifying_eq_of_extract_eq {field : IdentityField} {d d' : Value}
    (hfield : field ≠ attachmentTriple)
    (h : field.extract d = field.extract d') : field.identifying d = field.identifying d' := by
  cases field with
  | displayName => exact congrArg (Option.map Identifying.named) h
  | name => exact congrArg (Option.map Identifying.named) h
  | nameOrDisplayName => exact congrArg (Option.map Identifying.named) h
  | fixed value => rfl
  | attachmentTriple => exact absurd rfl hfield

end IdentityField

/-! ### When two triples are written alike -/

/-- The second triple takes a part of what follows in the first into its guardrail or its scope
type, or its scope is the dash that the first is written with. -/
inductive Overlap : Triple → Triple → Prop where
  | dash (guardrail scopeType : String) :
      Overlap ⟨guardrail, scopeType, none⟩ ⟨guardrail, scopeType, some "-"⟩
  | scopeType (guardrail scopeType part : String) (scope scope' : Option String)
    (h : scope.getD "-" = part ++ "/" ++ scope'.getD "-") :
    Overlap ⟨guardrail, scopeType, scope⟩ ⟨guardrail, scopeType ++ "/" ++ part, scope'⟩
  | guardrail (guardrail part scopeType scopeType' : String) (scope scope' : Option String)
    (h : scopeType ++ "/" ++ scope.getD "-" = part ++ "/" ++ scopeType' ++ "/" ++ scope'.getD "-") :
    Overlap ⟨guardrail, scopeType, scope⟩ ⟨guardrail ++ "/" ++ part, scopeType', scope'⟩

theorem list_slash_eq_iff {c : Char} {g g' r r' : List Char} :
    g ++ c :: r = g' ++ c :: r' ↔ g = g' ∧ r = r' ∨ (∃ u, g' = g ++ c :: u ∧ r = u ++ c :: r') ∨
      ∃ u, g = g' ++ c :: u ∧ r' = u ++ c :: r := by
  constructor
  · intro h
    rcases List.append_eq_append_iff.mp h with ⟨u, rfl, hu⟩ | ⟨u, rfl, hu⟩
    · cases u with
      | nil => exact .inl ⟨(List.append_nil g).symm, (List.cons.inj hu).2⟩
      | cons b u =>
        obtain ⟨rfl, hr⟩ := List.cons.inj hu
        exact .inr (.inl ⟨u, rfl, hr⟩)
    · cases u with
      | nil => exact .inl ⟨List.append_nil g', (List.cons.inj hu).2.symm⟩
      | cons b u =>
        obtain ⟨rfl, hr⟩ := List.cons.inj hu
        exact .inr (.inr ⟨u, rfl, hr⟩)
  · rintro (⟨rfl, rfl⟩ | ⟨u, rfl, rfl⟩ | ⟨u, rfl, rfl⟩)
    · rfl
    · rw [List.append_assoc, List.cons_append]
    · rw [List.append_assoc, List.cons_append]

theorem toList_slash (g r : String) : (g ++ "/" ++ r).toList = g.toList ++ '/' :: r.toList := by
  rw [String.toList_append, String.toList_append, List.append_assoc]
  rfl

/-- Two words divided at a slash are one when they are divided alike, or one is divided behind the
other. -/
theorem slash_eq_iff {g g' r r' : String} :
    g ++ "/" ++ r = g' ++ "/" ++ r' ↔ g = g' ∧ r = r' ∨
      (∃ u, g' = g ++ "/" ++ u ∧ r = u ++ "/" ++ r') ∨ ∃ u, g = g' ++ "/" ++ u ∧
      r' = u ++ "/" ++ r := by
  have hlist : ∀ {a b c : String}, a = b ++ "/" ++ c ↔ a.toList = b.toList ++ '/' :: c.toList := by
    intro a b c
    rw [← toList_slash, String.toList_inj]
  have hexists : ∀ {p : List Char → Prop}, (∃ u : String, p u.toList) ↔ ∃ u, p u := by
    intro p
    constructor
    · rintro ⟨u, hu⟩
      exact ⟨u.toList, hu⟩
    · rintro ⟨u, hu⟩
      exact ⟨String.ofList u, by rwa [String.toList_ofList]⟩
  rw [hlist, toList_slash, list_slash_eq_iff, String.toList_inj, String.toList_inj]
  simp only [hlist]
  rw [← hexists (p := fun u => g'.toList = g.toList ++ '/' :: u ∧ r.toList = u ++ '/' :: r'.toList),
    ← hexists (p := fun u => g.toList = g'.toList ++ '/' :: u ∧ r'.toList = u ++ '/' :: r.toList)]

theorem Triple.written_eq (t : Triple) :
    t.written = t.guardrail ++ "/" ++ (t.scopeType ++ "/" ++ t.scopeText) := by
  unfold written
  simp only [String.append_assoc]

theorem Overlap.written_eq {t t' : Triple} (h : Overlap t t') : t.written = t'.written := by
  rw [t.written_eq, t'.written_eq]
  cases h with
  | dash guardrail scopeType => rfl
  | scopeType guardrail scopeType part scope scope' h =>
    refine congrArg (fun rest => guardrail ++ "/" ++ rest) ?_
    exact slash_eq_iff.mpr (.inr (.inl ⟨part, rfl, h⟩))
  | guardrail guardrail part scopeType scopeType' scope scope' h =>
    refine slash_eq_iff.mpr (.inr (.inl ⟨part, rfl, h.trans ?_⟩))
    simp only [String.append_assoc, Triple.scopeText]

theorem ne_append_slash (a b : String) : a ≠ a ++ "/" ++ b := by
  intro heq
  have hlength := congrArg String.length heq
  have hslash : "/".length = 1 := rfl
  rw [String.length_append, String.length_append] at hlength
  omega

theorem Overlap.ne {t t' : Triple} (h : Overlap t t') : t ≠ t' := by
  intro heq
  cases h with
  | dash guardrail scopeType => cases heq
  | scopeType guardrail scopeType part scope scope' h =>
    exact ne_append_slash _ _ (Triple.mk.inj heq).2.1
  | guardrail guardrail part scopeType scopeType' scope scope' h =>
    exact ne_append_slash _ _ (Triple.mk.inj heq).1

theorem scope_of_scopeText_eq {guardrail scopeType : String} {scope scope' : Option String}
    (h : scope.getD "-" = scope'.getD "-") :
    (⟨guardrail, scopeType, scope⟩ : Triple) = ⟨guardrail, scopeType, scope'⟩ ∨
      Overlap ⟨guardrail, scopeType, scope⟩ ⟨guardrail, scopeType, scope'⟩ ∨
      Overlap ⟨guardrail, scopeType, scope'⟩ ⟨guardrail, scopeType, scope⟩ := by
  cases scope with
  | none =>
    cases scope' with
    | none => exact .inl rfl
    | some x =>
      rw [← show "-" = x from h]
      exact .inr (.inl (.dash guardrail scopeType))
  | some x =>
    cases scope' with
    | none =>
      rw [show x = "-" from h]
      exact .inr (.inr (.dash guardrail scopeType))
    | some y =>
      rw [show x = y from h]
      exact .inl rfl

theorem written_eq_iff {t t' : Triple} :
    t.written = t'.written ↔ t = t' ∨ Overlap t t' ∨ Overlap t' t := by
  constructor
  · intro h
    rw [t.written_eq, t'.written_eq] at h
    obtain ⟨guardrail, scopeType, scope⟩ := t
    obtain ⟨guardrail', scopeType', scope'⟩ := t'
    rcases slash_eq_iff.mp h with ⟨heq, hrest⟩ | ⟨part, heq, hrest⟩ | ⟨part, heq, hrest⟩
    · -- one guardrail: the rest is divided at the end of the scope type
      dsimp only at heq
      subst heq
      rcases slash_eq_iff.mp hrest with ⟨heq, hscope⟩ | ⟨part, heq, hscope⟩ | ⟨part, heq, hscope⟩
      · dsimp only at heq
        subst heq
        exact scope_of_scopeText_eq hscope
      · dsimp only at heq
        subst heq
        exact .inr (.inl (.scopeType _ _ part _ _ hscope))
      · dsimp only at heq
        subst heq
        exact .inr (.inr (.scopeType _ _ part _ _ hscope))
    · dsimp only at heq
      subst heq
      refine .inr (.inl (.guardrail _ part _ _ _ _ (hrest.trans ?_)))
      simp only [String.append_assoc, Triple.scopeText]
    · dsimp only at heq
      subst heq
      refine .inr (.inr (.guardrail _ part _ _ _ _ (hrest.trans ?_)))
      simp only [String.append_assoc, Triple.scopeText]
  · rintro (rfl | h | h)
    · rfl
    · exact h.written_eq
    · exact h.written_eq.symm

/-! ### Which entries are refused -/

def Entry.doc? : Entry → Option Value
  | .mapping (.ok doc) => some doc
  | _ => none

def Collection.entries : Collection → List Entry
  | .sequence entries => entries
  | _ => []

def Collection.docs (c : Collection) : List Value := c.entries.filterMap Entry.doc?

/-- The document of the `i`-th entry. -/
def Collection.docAt (c : Collection) (i : Nat) : Option Value := (c.entries[i]?).bind Entry.doc?

theorem Collection.mem_docs_of_docAt {c : Collection} {i : Nat} {doc : Value}
    (h : c.docAt i = some doc) : doc ∈ c.docs := by
  obtain ⟨entry, hentry, hdoc⟩ := Option.bind_eq_some_iff.mp h
  exact List.mem_filterMap.mpr ⟨entry, List.mem_of_getElem? hentry, hdoc⟩

/-- The `i`-th entry of a kind is reported as a duplicate. -/
def Pass.Reports (pass : Pass) (kind : String) (i : Nat) : Prop :=
  ∃ field identity first, .duplicate kind i field identity first ∈ pass.problems

theorem Pass.reports_report {pass : Pass} {problem : Problem} {kind : String} {i : Nat} :
    (pass.report problem).Reports kind i ↔
      pass.Reports kind i ∨
        ∃ field identity first, problem = .duplicate kind i field identity first := by
  unfold Reports report
  dsimp only
  constructor
  · rintro ⟨field, identity, first, hmem⟩
    rcases List.mem_append.mp hmem with hmem | hmem
    · exact .inl ⟨field, identity, first, hmem⟩
    · exact .inr ⟨field, identity, first, (List.mem_singleton.mp hmem).symm⟩
  · rintro (⟨field, identity, first, hmem⟩ | ⟨field, identity, first, rfl⟩)
    · exact ⟨field, identity, first, List.mem_append_left _ hmem⟩
    · exact ⟨field, identity, first, List.mem_append_right _ (List.mem_singleton_self _)⟩

theorem Pass.reports_prepare {pass : Pass} {newV5 : String → String} {kind identity : String}
    {i : Nat} {doc : Value} {k : String} {n : Nat} :
    (pass.prepare newV5 kind i identity doc).Reports k n ↔ pass.Reports k n := Iff.rfl

def Entry.identity? (field : IdentityField) (entry : Entry) : Option String :=
  entry.doc?.bind fun doc => field.extract doc

section Entries

variable {newV5 : String → String} {kind : String} {field : IdentityField} {i : Nat} {entry : Entry}
  {seenAt : KeyMap String Nat} {pass : Pass}

theorem Pass.isSome_lookup_addEntry {x : String} :
    (((pass.addEntry newV5 kind field i entry seenAt).1.lookup x).isSome = true ↔
      (seenAt.lookup x).isSome = true ∨ entry.identity? field = some x) := by
  cases entry with
  | other => exact ⟨.inl, fun h => h.resolve_right nofun⟩
  | mapping converted =>
    cases converted with
    | error e => exact ⟨.inl, fun h => h.resolve_right nofun⟩
    | ok doc =>
      have hidentity : (Entry.mapping (.ok doc)).identity? field = field.extract doc := rfl
      rw [hidentity, addEntry]
      cases hextract : field.extract doc with
      | none => exact ⟨.inl, fun h => h.resolve_right nofun⟩
      | some identity =>
        dsimp only
        cases hfirst : seenAt.lookup identity with
        | some first =>
          refine ⟨.inl, fun h => h.elim id fun heq => ?_⟩
          rw [← Option.some.inj heq, hfirst]
          rfl
        | none =>
          dsimp only
          by_cases hx : x = identity
          · rw [hx, AList.lookup_insert]
            exact ⟨fun _ => .inr rfl, fun _ => rfl⟩
          · rw [AList.lookup_insert_ne hx]
            exact ⟨.inl, fun h => h.resolve_right fun heq => hx (Option.some.inj heq).symm⟩

theorem Pass.reports_addEntry {k : String} {n : Nat} :
    (pass.addEntry newV5 kind field i entry seenAt).2.Reports k n ↔
      pass.Reports k n ∨
        k = kind ∧ n = i ∧ ∃ identity, entry.identity? field = some identity ∧
          (seenAt.lookup identity).isSome = true := by
  cases entry with
  | other =>
    refine reports_report.trans ⟨fun h => .inl (h.resolve_right ?_),
      fun h => .inl (h.resolve_right ?_)⟩
    · rintro ⟨_, _, _, heq⟩
      cases heq
    · rintro ⟨-, -, _, heq, -⟩
      cases heq
  | mapping converted =>
    cases converted with
    | error e =>
      refine reports_report.trans ⟨fun h => .inl (h.resolve_right ?_),
        fun h => .inl (h.resolve_right ?_)⟩
      · rintro ⟨_, _, _, heq⟩
        cases heq
      · rintro ⟨-, -, _, heq, -⟩
        cases heq
    | ok doc =>
      have hidentity : (Entry.mapping (.ok doc)).identity? field = field.extract doc := rfl
      rw [hidentity, addEntry]
      cases hextract : field.extract doc with
      | none =>
        refine reports_report.trans ⟨fun h => .inl (h.resolve_right ?_),
          fun h => .inl (h.resolve_right ?_)⟩
        · rintro ⟨_, _, _, heq⟩
          cases heq
        · rintro ⟨-, -, _, heq, -⟩
          cases heq
      | some identity =>
        dsimp only
        cases hfirst : seenAt.lookup identity with
        | some first =>
          refine reports_report.trans ⟨fun h => h.imp_right ?_, fun h => h.imp_right ?_⟩
          · rintro ⟨_, _, _, heq⟩
            cases heq
            exact ⟨rfl, rfl, identity, rfl, by rw [hfirst]; rfl⟩
          · rintro ⟨rfl, rfl, -⟩
            exact ⟨field, identity, first, rfl⟩
        | none =>
          refine reports_prepare.trans ⟨.inl, fun h => h.resolve_right ?_⟩
          rintro ⟨-, -, _, heq, hseen⟩
          rw [← Option.some.inj heq, hfirst] at hseen
          cases hseen

end Entries

def identityAt (field : IdentityField) (entries : List Entry) (j : Nat) : Option String :=
  (entries[j]?).bind fun entry => entry.identity? field

/-- An entry of the list is reported when its identity was seen before the list or stands earlier in
it. -/
theorem Pass.reports_addEntries {newV5 : String → String} {kind : String} {field : IdentityField}
    {entries : List Entry} {i : Nat} {seenAt : KeyMap String Nat} {pass : Pass} {k : String}
    {n : Nat} :
    (addEntries newV5 kind field i entries seenAt pass).Reports k n ↔
      pass.Reports k n ∨
        k = kind ∧ ∃ j identity, n = i + j ∧ identityAt field entries j = some identity ∧
          ((seenAt.lookup identity).isSome = true ∨
          ∃ j' < j, identityAt field entries j' = some identity) := by
  induction entries generalizing i seenAt pass with
  | nil =>
    refine ⟨.inl, fun h => h.resolve_right ?_⟩
    rintro ⟨-, j, identity, -, hat, -⟩
    cases hat
  | cons entry entries ih =>
    have hzero : identityAt field (entry :: entries) 0 = entry.identity? field := rfl
    have hsucc : ∀ j, identityAt field (entry :: entries) (j + 1) = identityAt field entries j :=
      fun _ => rfl
    rw [addEntries, ih, reports_addEntry, or_assoc]
    refine or_congr_right ?_
    constructor
    · rintro (⟨rfl, rfl, identity, hat, hseen⟩ | ⟨rfl, j, identity, rfl, hat, hseen⟩)
      · exact ⟨rfl, 0, identity, rfl, hat, .inl hseen⟩
      · refine ⟨rfl, j + 1, identity, by omega, hat, ?_⟩
        rw [isSome_lookup_addEntry, or_assoc] at hseen
        refine hseen.imp_right ?_
        rintro (hhead | ⟨j', hj, hat'⟩)
        · exact ⟨0, Nat.zero_lt_succ j, hhead⟩
        · exact ⟨j' + 1, Nat.succ_lt_succ hj, hat'⟩
    · rintro ⟨rfl, j, identity, rfl, hat, hseen⟩
      cases j with
      | zero =>
        refine .inl ⟨rfl, rfl, identity, hat, hseen.resolve_right ?_⟩
        rintro ⟨j', hj, -⟩
        exact absurd hj (Nat.not_lt_zero j')
      | succ j =>
        refine .inr ⟨rfl, j, identity, by omega, hat, ?_⟩
        rw [isSome_lookup_addEntry, or_assoc]
        refine hseen.imp_right ?_
        rintro ⟨j', hj, hat'⟩
        cases j' with
        | zero => exact .inl hat'
        | succ j' => exact .inr ⟨j', Nat.lt_of_succ_lt_succ hj, hat'⟩

theorem Pass.reports_addKind {newV5 : String → String} {file : File} {pass : Pass}
    {e : String × IdentityField} {k : String} {n : Nat} :
    (pass.addKind newV5 file e).Reports k n ↔
      pass.Reports k n ∨
        k = e.1 ∧ ∃ identity, identityAt e.2 (file e.1).entries n = some identity ∧
          ∃ m < n, identityAt e.2 (file e.1).entries m = some identity := by
  rw [addKind]
  cases file e.1 with
  | absent =>
    refine ⟨.inl, fun h => h.resolve_right ?_⟩
    rintro ⟨-, identity, hat, -⟩
    cases hat
  | other =>
    refine reports_report.trans ⟨fun h => .inl (h.resolve_right ?_),
      fun h => .inl (h.resolve_right ?_)⟩
    · rintro ⟨_, _, _, heq⟩
      cases heq
    · rintro ⟨-, identity, hat, -⟩
      cases hat
  | sequence entries =>
    refine reports_addEntries.trans (or_congr_right (and_congr_right fun _ => ?_))
    constructor
    · rintro ⟨j, identity, rfl, hat, hseen | hseen⟩
      · cases hseen
      · rw [Nat.zero_add]
        exact ⟨identity, hat, hseen⟩
    · rintro ⟨identity, hat, hseen⟩
      exact ⟨n, identity, (Nat.zero_add n).symm, hat, .inr hseen⟩

theorem Pass.reports_foldl {newV5 : String → String} {file : File}
    {kinds : List (String × IdentityField)} {pass : Pass} {k : String} {n : Nat} :
    (kinds.foldl (addKind newV5 file) pass).Reports k n ↔
      pass.Reports k n ∨
        ∃ e ∈ kinds, k = e.1 ∧ ∃ identity, identityAt e.2 (file e.1).entries n = some identity ∧
          ∃ m < n, identityAt e.2 (file e.1).entries m = some identity := by
  induction kinds generalizing pass with
  | nil =>
    refine ⟨.inl, fun h => h.resolve_right ?_⟩
    rintro ⟨e, he, -⟩
    cases he
  | cons e kinds ih =>
    rw [List.foldl_cons, ih, reports_addKind, or_assoc, List.exists_mem_cons_iff]

theorem nodup_kinds : (KINDS.map (·.1)).Nodup := by decide

theorem reports_pass1 {newV5 : String → String} {file : File} {e : String × IdentityField}
    (he : e ∈ KINDS) {n : Nat} :
    (pass1 newV5 file).Reports e.1 n ↔
      ∃ identity, identityAt e.2 (file e.1).entries n = some identity ∧
        ∃ m < n, identityAt e.2 (file e.1).entries m = some identity := by
  rw [pass1, Pass.reports_foldl]
  constructor
  · rintro (⟨_, _, _, hmem⟩ | ⟨e', he', heq, h⟩)
    · cases hmem
    · rw [List.inj_on_of_nodup_map nodup_kinds he he' heq]
      exact h
  · intro h
    exact .inr ⟨e, he, rfl, h⟩

/-! ### What the identities tell apart -/

/-- The identities of a file tell its entries apart, and so do their ids. -/
structure Distinct (file : File) : Prop where
  identities : ∀ e ∈ KINDS, ∀ d ∈ (file e.1).docs, ∀ d' ∈ (file e.1).docs, ∀ identity,
    e.2.extract d = some identity → e.2.extract d' = some identity →
      e.2.identifying d = e.2.identifying d'
  duplicates : ∀ newV5, ∀ e ∈ KINDS, ∀ n d what, (file e.1).docAt n = some d →
    e.2.identifying d = some what → ((pass1 newV5 file).Reports e.1 n ↔
      ∃ m < n, ∃ d', (file e.1).docAt m = some d' ∧ e.2.identifying d' = some what)
  ids : ∀ newV5, Function.Injective newV5 → ∀ e ∈ KINDS, ∀ e' ∈ KINDS, ∀ identity identity',
    deriveId newV5 e.1 identity = deriveId newV5 e'.1 identity' → e.1 = e'.1 ∧ identity = identity'

theorem slash_notMem_kinds : ∀ e ∈ KINDS, '/' ∉ e.1.toList := by decide

theorem deriveId_inj {newV5 : String → String} (hinj : Function.Injective newV5)
    {e e' : String × IdentityField} (he : e ∈ KINDS) (he' : e' ∈ KINDS)
    {identity identity' : String}
    (h : deriveId newV5 e.1 identity = deriveId newV5 e'.1 identity') :
    e.1 = e'.1 ∧ identity = identity' := by
  have hname := congrArg String.toList (hinj h)
  rw [toList_slash, toList_slash] at hname
  obtain ⟨hkind, hidentity⟩ :=
    Delimited.segment_cons_inj (slash_notMem_kinds e he) (slash_notMem_kinds e' he') hname
  exact ⟨String.toList_inj.mp hkind, String.toList_inj.mp hidentity⟩

theorem identityAt_eq_some_iff {field : IdentityField} {c : Collection} {n : Nat}
    {identity : String} :
    identityAt field c.entries n = some identity ↔ ∃ d, c.docAt n = some d ∧
      field.extract d = some identity := by
  unfold identityAt Entry.identity? Collection.docAt
  rw [← Option.bind_assoc, Option.bind_eq_some_iff]

/-- Where one identity is one entry's, the duplicates are the entries that say the same. -/
theorem reports_iff_of_identities {file : File} {newV5 : String → String}
    {e : String × IdentityField} (he : e ∈ KINDS)
    (hidentities : ∀ d ∈ (file e.1).docs, ∀ d' ∈ (file e.1).docs, ∀ identity,
      e.2.extract d = some identity → e.2.extract d' = some identity →
        e.2.identifying d = e.2.identifying d')
    {n : Nat} {d : Value} {what : Identifying} (hd : (file e.1).docAt n = some d)
    (hwhat : e.2.identifying d = some what) :
    (pass1 newV5 file).Reports e.1 n ↔
      ∃ m < n, ∃ d', (file e.1).docAt m = some d' ∧ e.2.identifying d' = some what := by
  rw [reports_pass1 he]
  simp only [identityAt_eq_some_iff]
  constructor
  · rintro ⟨identity, ⟨d₁, hd₁, hextract⟩, m, hm, d', hd', hextract'⟩
    rw [hd] at hd₁
    cases hd₁
    refine ⟨m, hm, d', hd', ?_⟩
    rw [← hwhat]
    exact hidentities d' (Collection.mem_docs_of_docAt hd') d
      (Collection.mem_docs_of_docAt hd) identity hextract' hextract
  · rintro ⟨m, hm, d', hd', hwhat'⟩
    have hsome : (e.2.extract d).isSome = true := by
      rw [← IdentityField.isSome_identifying, hwhat]
      rfl
    obtain ⟨identity, hextract⟩ := Option.isSome_iff_exists.mp hsome
    refine ⟨identity, ⟨d, hd, hextract⟩, m, hm, d', hd', ?_⟩
    rw [← hextract]
    exact IdentityField.extract_eq_of_identifying_eq (hwhat'.trans hwhat.symm)

/-- The attachments of a file. -/
def attachments (file : File) : List Triple :=
  (file "guardrail_attachments").docs.filterMap IdentityField.triple

theorem kind_of_attachmentTriple :
    ∀ e ∈ KINDS, e.2 = .attachmentTriple →
      e = ("guardrail_attachments", IdentityField.attachmentTriple) := by
  decide

theorem distinct_of_apart {file : File}
    (h : ∀ t ∈ attachments file, ∀ t' ∈ attachments file, ¬ Overlap t t') : Distinct file := by
  have hidentities : ∀ e ∈ KINDS, ∀ d ∈ (file e.1).docs, ∀ d' ∈ (file e.1).docs, ∀ identity,
      e.2.extract d = some identity → e.2.extract d' = some identity →
        e.2.identifying d = e.2.identifying d' := by
    intro e he d hd d' hd' identity hextract hextract'
    by_cases hfield : e.2 = .attachmentTriple
    · obtain rfl := kind_of_attachmentTriple e he hfield
      rw [IdentityField.extract_attachmentTriple, Option.map_eq_some_iff] at hextract hextract'
      obtain ⟨t, htriple, hwritten⟩ := hextract
      obtain ⟨t', htriple', hwritten'⟩ := hextract'
      have ht : t ∈ attachments file := List.mem_filterMap.mpr ⟨d, hd, htriple⟩
      have ht' : t' ∈ attachments file := List.mem_filterMap.mpr ⟨d', hd', htriple'⟩
      rcases written_eq_iff.mp (hwritten.trans hwritten'.symm) with rfl | hover | hover
      · exact congrArg (Option.map Identifying.triple) (htriple.trans htriple'.symm)
      · exact absurd hover (h t ht t' ht')
      · exact absurd hover (h t' ht' t ht)
    · exact IdentityField.identifying_eq_of_extract_eq hfield (hextract.trans hextract'.symm)
  exact {
    identities := hidentities
    duplicates :=
      fun newV5 e he n d what hd hwhat => reports_iff_of_identities he (hidentities e he) hd hwhat
    ids := fun newV5 hinj e he e' he' identity identity' heq => deriveId_inj hinj he he' heq }

/-- The guardrail's name and the scope type have no slash; the scope is not named by the dash. -/
structure Triple.Plain (t : Triple) : Prop where
  guardrail : '/' ∉ t.guardrail.toList
  scopeType : '/' ∉ t.scopeType.toList
  scope : t.scope ≠ some "-"

theorem slash_mem (a b : String) : '/' ∈ (a ++ "/" ++ b).toList := by
  rw [toList_slash]
  exact List.mem_append_right _ List.mem_cons_self

theorem Triple.Plain.not_overlap {t t' : Triple} (h : t'.Plain) : ¬ Overlap t t' := by
  intro hover
  cases hover with
  | dash guardrail scopeType => exact h.scope rfl
  | scopeType guardrail scopeType part scope scope' heq => exact h.scopeType (slash_mem _ _)
  | guardrail guardrail part scopeType scopeType' scope scope' heq =>
    exact h.guardrail (slash_mem _ _)

theorem distinct_of_plain {file : File} (h : ∀ t ∈ attachments file, t.Plain) : Distinct file :=
  distinct_of_apart fun _ _ t' ht' => (h t' ht').not_overlap

/-- The identities tell the entries apart unless two attachments overlap as they are written. -/
theorem distinct_iff (file : File) :
    Distinct file ↔ ∀ t ∈ attachments file, ∀ t' ∈ attachments file, ¬ Overlap t t' := by
  have hmem : ("guardrail_attachments", IdentityField.attachmentTriple) ∈ KINDS := by decide
  constructor
  · intro h t ht t' ht' hover
    obtain ⟨d, hd, htriple⟩ := List.mem_filterMap.mp ht
    obtain ⟨d', hd', htriple'⟩ := List.mem_filterMap.mp ht'
    have hextract : IdentityField.attachmentTriple.extract d = some t.written := by
      rw [IdentityField.extract_attachmentTriple, htriple]
      rfl
    have hextract' : IdentityField.attachmentTriple.extract d' = some t.written := by
      rw [IdentityField.extract_attachmentTriple, htriple', hover.written_eq]
      rfl
    have hsame := h.identities _ hmem d hd d' hd' t.written hextract hextract'
    have htriples : (some t).map Identifying.triple = (some t').map Identifying.triple := by
      rw [← htriple, ← htriple']
      exact hsame
    exact hover.ne (Identifying.triple.inj (Option.some.inj htriples))
  · exact distinct_of_apart

def teamAttachment (guardrail team : String) : Value :=
  .object [("guardrail_id", .string guardrail), ("scope_type", .string "team"),
    ("scope_id", .string team), ("priority", .number (.posInt 1))]

/-- Two guardrails, one of which is named like the other with a scope behind it. -/
def slashedFile : File := fun kind =>
  if kind = "guardrail_attachments" then
    .sequence [.mapping (.ok (teamAttachment "pii/team/eu" "sales")),
      .mapping (.ok (teamAttachment "pii" "eu/team/sales"))]
  else .absent

theorem slashed_duplicate : ¬ Distinct slashedFile ∧
    (pass1 id slashedFile).problems =
      [.duplicate "guardrail_attachments" 1 .attachmentTriple "pii/team/eu/team/sales" 0] := by
  constructor
  · intro h
    have hmem : ("guardrail_attachments", IdentityField.attachmentTriple) ∈ KINDS := by decide
    have hsame := h.identities _ hmem (teamAttachment "pii/team/eu" "sales") (.head _)
      (teamAttachment "pii" "eu/team/sales")
        (.tail _ (.head _)) "pii/team/eu/team/sales" (by decide) (by decide)
    exact absurd hsame (by decide)
  · decide

end FileSource
end Aisix
