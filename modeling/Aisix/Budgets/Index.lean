import Aisix.Etcd.Snapshot
import Aisix.KeyMap
import Aisix.ResourceTable
import Aisix.SortedMap
import Mathlib.Data.List.Sort
import Mathlib.Data.String.Basic

/-!
# Aisix.Budgets.Index

The spend caps the control plane writes, the key a request is made with, and the UTC calendar
periods; then the budget documents, indexed by what each one is matched against, and those that
apply to a key. The index finds what a scan of the table finds (`mem_applicable`), in an order that
is fixed among budgets of one scope (`applicable_pairwise`).
-/

namespace Aisix
namespace Budgets

open Etcd KeyMap

inductive BudgetScope where
  | org
  | environment
  | apiKey
  | member
  | team
  | teamMember
  | tag
  | providerKey
  deriving DecidableEq, Repr

def BudgetScope.asStr : BudgetScope → String
  | .org => "org"
  | .environment => "environment"
  | .apiKey => "api_key"
  | .member => "member"
  | .team => "team"
  | .teamMember => "team_member"
  | .tag => "tag"
  | .providerKey => "provider_key"

/-- The control plane's precedence among scopes when several deny at once. -/
def scopeRank : BudgetScope → Nat
  | .apiKey => 7
  | .member | .teamMember => 6
  | .team => 5
  | .tag => 4
  | .providerKey => 3
  | .environment => 2
  | .org => 1

inductive BudgetPeriod where
  | day
  | week
  | month
  deriving DecidableEq, Repr

def BudgetPeriod.asStr : BudgetPeriod → String
  | .day => "day"
  | .week => "week"
  | .month => "month"

structure BudgetTag where
  key : String
  value : String
  deriving DecidableEq, Repr

/-- What a rejected request is told, as the control plane wrote it. -/
structure DocReason where
  message : Option String
  scope : Option String
  scopeRef : Option String
  limitUsd : Option String
  spentUsd : Option String
  remainingUsd : Option String
  deriving DecidableEq, Repr

structure BudgetExhausted where
  periodStart : Option String
  reason : DocReason
  deriving DecidableEq, Repr

structure BudgetMemberExhausted where
  periodStart : String
  reason : DocReason
  deriving DecidableEq, Repr

structure Budget where
  scope : BudgetScope
  scopeRef : Option String
  tag : Option BudgetTag
  period : BudgetPeriod
  exhausted : Option BudgetExhausted
  exhaustedMembers : SortedMap String BudgetMemberExhausted

abbrev Entry := ResourceEntry Budget

/-- The key of a request: its row's id and owners, and the tags in effect. -/
structure AuthenticatedKey where
  id : String
  teamId : Option String
  userId : Option String
  tags : SortedMap String String

/-! ### Periods -/

/-- A point in time: nanoseconds since the Unix epoch, in UTC. -/
abbrev Instant := Int

def NANOS_PER_DAY : Int := 86400 * 10 ^ 9

/-- The day of the month, counted from one, of a day since the epoch. -/
def dayOfMonth (day : Int) : Int :=
  -- years begin in March and come in eras of 400
  let z := day + 719468
  let dayOfEra := z - z / 146097 * 146097
  let yearOfEra := (dayOfEra - dayOfEra / 1460 + dayOfEra / 36524 - dayOfEra / 146096) / 365
  let dayOfYear := dayOfEra - (365 * yearOfEra + yearOfEra / 4 - yearOfEra / 100)
  let month := (5 * dayOfYear + 2) / 153
  dayOfYear - (153 * month + 2) / 5 + 1

def firstDay (day : Int) : BudgetPeriod → Int
  | .day => day
  -- the epoch was a Thursday
  | .week => day - (day + 3) % 7
  | .month => day - (dayOfMonth day - 1)

/-- Start of the UTC calendar period containing `now`. -/
def periodStart (now : Instant) (period : BudgetPeriod) : Instant :=
  firstDay (now / NANOS_PER_DAY) period * NANOS_PER_DAY

def nextPeriodStart (start : Instant) : BudgetPeriod → Instant
  | .day => start + NANOS_PER_DAY
  | .week => start + 7 * NANOS_PER_DAY
  -- from the first of a month, the 32nd day is in the next one
  | .month => periodStart (start + 31 * NANOS_PER_DAY) .month

-- the Monday of a Thursday, and the start of the month after December
example : periodStart (20755 * NANOS_PER_DAY + 5) .week = 20752 * NANOS_PER_DAY := by decide
example : nextPeriodStart (20788 * NANOS_PER_DAY) .month = 20819 * NANOS_PER_DAY := by decide

/-! ## The index -/

/-- Budgets are referenced by id only. -/
def Budget.name (_ : Budget) : String := "budget"

abbrev Table := ResourceTable Budget Budget.name

structure BudgetIndex where
  everyone : List Entry
  apiKey : KeyMap String (List Entry)
  member : KeyMap String (List Entry)
  team : KeyMap String (List Entry)
  teamMember : KeyMap String (List Entry)
  /-- Under the tag key; the value is compared per request. -/
  tag : KeyMap String (List Entry)
  providerKey : KeyMap String (List Entry)

namespace BudgetIndex

def empty : BudgetIndex := ⟨[], ∅, ∅, ∅, ∅, ∅, ∅⟩

def pushRef (m : KeyMap String (List Entry)) (ref : Option String) (entry : Entry) :
    KeyMap String (List Entry) :=
  match ref with
  | some ref => push m ref entry
  | none => m

def file (index : BudgetIndex) (entry : Entry) : BudgetIndex :=
  let budget := entry.value
  match budget.scope with
  | .org | .environment => { index with everyone := index.everyone ++ [entry] }
  | .tag => { index with tag := pushRef index.tag (budget.tag.map (·.key)) entry }
  | .apiKey => { index with apiKey := pushRef index.apiKey budget.scopeRef entry }
  | .member => { index with member := pushRef index.member budget.scopeRef entry }
  | .team => { index with team := pushRef index.team budget.scopeRef entry }
  | .teamMember => { index with teamMember := pushRef index.teamMember budget.scopeRef entry }
  | .providerKey => { index with providerKey := pushRef index.providerKey budget.scopeRef entry }

/-- The rows in the order of their ids, so ties between equally specific budgets resolve the same
way each time. -/
def sorted (table : Table) : List Entry := table.rows.insertionSort fun a b => a.id ≤ b.id

def build (table : Table) : BudgetIndex := (sorted table).foldl file empty

def lookupRef (m : KeyMap String (List Entry)) : Option String → List Entry
  | some id => bucket m id
  | none => []

/-- The team of a key that also names a member. -/
def teamOfMember (auth : AuthenticatedKey) : Option String :=
  match auth.teamId, auth.userId with
  | some team, some _ => some team
  | _, _ => none

/-- The key-level budgets that apply to a key. -/
def applicable (index : BudgetIndex) (auth : AuthenticatedKey) : List Entry :=
  let tags :=
    auth.tags.entries.flatMap fun e => (bucket index.tag e.1).filter fun entry =>
      entry.value.tag.any (·.value = e.2)
  index.everyone ++ lookupRef index.apiKey (some auth.id) ++ lookupRef index.member auth.userId ++
    lookupRef index.team auth.teamId ++ lookupRef index.teamMember (teamOfMember auth) ++ tags

/-! ### What is filed where -/

def ofScope (scope : BudgetScope) (ref : String) (entry : Entry) : Bool :=
  entry.value.scope = scope ∧ entry.value.scopeRef = some ref

def tagged (key : String) (entry : Entry) : Bool :=
  entry.value.scope = .tag ∧ entry.value.tag.map (·.key) = some key

def forEveryone (entry : Entry) : Bool :=
  entry.value.scope = .org ∨ entry.value.scope = .environment

/-- The index holds what a scan of `es` finds, in the same order. -/
structure Holds (index : BudgetIndex) (es : List Entry) : Prop where
  everyone : index.everyone = es.filter forEveryone
  apiKey : ∀ ref, bucket index.apiKey ref = es.filter (ofScope .apiKey ref)
  member : ∀ ref, bucket index.member ref = es.filter (ofScope .member ref)
  team : ∀ ref, bucket index.team ref = es.filter (ofScope .team ref)
  teamMember : ∀ ref, bucket index.teamMember ref = es.filter (ofScope .teamMember ref)
  tag : ∀ key, bucket index.tag key = es.filter (tagged key)
  providerKey : ∀ ref, bucket index.providerKey ref = es.filter (ofScope .providerKey ref)

theorem bucket_pushRef (m : KeyMap String (List Entry)) (ref : Option String) (entry : Entry)
    (k : String) :
    bucket (pushRef m ref entry) k = bucket m k ++ if ref = some k then [entry] else [] := by
  cases ref with
  | none => simp [pushRef]
  | some ref => simp [pushRef, bucket_push]

theorem holds_file {index : BudgetIndex} {es : List Entry} (h : Holds index es) (entry : Entry) :
    Holds (index.file entry) (es ++ [entry]) := by
  -- an entry goes to the list of its own scope and to no other
  cases hscope : entry.value.scope <;> constructor <;>
    simp [file, hscope, h.everyone, h.apiKey, h.member, h.team, h.teamMember, h.tag,
      h.providerKey, bucket_pushRef, List.filter_cons, forEveryone, ofScope, tagged]

theorem holds_build (table : Table) : Holds (build table) (sorted table) := by
  have hfile : ∀ (es : List Entry) (index : BudgetIndex) (done : List Entry), Holds index done →
      Holds (es.foldl file index) (done ++ es) := by
    intro es
    induction es with
    | nil =>
      intro index done h
      rw [List.append_nil]
      exact h
    | cons entry es ih =>
      intro index done h
      rw [List.foldl_cons, List.append_cons]
      exact ih _ _ (holds_file h entry)
  have hempty : Holds empty [] := by constructor <;> intros <;> rfl
  exact hfile (sorted table) empty [] hempty

/-! ### The budgets that apply -/

/-- A budget applies to a key by its scope. -/
def Applies (auth : AuthenticatedKey) (budget : Budget) : Prop :=
  match budget.scope with
  | .org | .environment => True
  | .apiKey => budget.scopeRef = some auth.id
  | .member => ∃ user, auth.userId = some user ∧ budget.scopeRef = some user
  | .team => ∃ team, auth.teamId = some team ∧ budget.scopeRef = some team
  | .teamMember =>
    ∃ team, (auth.teamId = some team ∧ ∃ user, auth.userId = some user) ∧
      budget.scopeRef = some team
  | .tag => ∃ tag, budget.tag = some tag ∧ auth.tags.get? tag.key = some tag.value
  | .providerKey => False

/-- The key under which a tag budget is looked up; it decides between tag budgets before their ids
do. -/
def tieKey (entry : Entry) : String :=
  if entry.value.scope = .tag then (entry.value.tag.map (·.key)).getD "" else ""

/-- The order of budgets of one scope. -/
def TieBefore (a b : Entry) : Prop := tieKey a < tieKey b ∨ tieKey a = tieKey b ∧ a.id < b.id

variable {table : Table} {auth : AuthenticatedKey}

theorem mem_sorted {e : Entry} : e ∈ sorted table ↔ e ∈ table.rows :=
  (List.perm_insertionSort _ _).mem_iff

theorem sorted_pairwise (table : Table) : (sorted table).Pairwise fun a b => a.id < b.id := by
  have hle : (sorted table).Pairwise fun a b => a.id ≤ b.id := List.pairwise_insertionSort _ _
  have hne : (sorted table).Pairwise fun a b => a.id ≠ b.id := by
    have hnodup : ((sorted table).map (·.id)).Nodup :=
      ((List.perm_insertionSort _ _).map _).nodup_iff.mpr table.nodup
    exact List.pairwise_map.mp hnodup
  exact (hle.and hne).imp fun h => lt_of_le_of_ne h.1 h.2

theorem mem_lookupRef {m : KeyMap String (List Entry)} {ref : Option String} {e : Entry} :
    e ∈ lookupRef m ref ↔ ∃ id, ref = some id ∧ e ∈ bucket m id := by
  cases ref with
  | none => simp [lookupRef]
  | some id => simp [lookupRef]

theorem teamOfMember_eq_some {team : String} :
    teamOfMember auth = some team ↔ auth.teamId = some team ∧ ∃ user, auth.userId = some user := by
  cases hteam : auth.teamId <;> cases huser : auth.userId <;> simp [teamOfMember, hteam, huser]

theorem mem_tags {index : BudgetIndex} {e : Entry} (h : Holds index (sorted table)) :
    (∃ kv ∈ auth.tags.entries, e ∈ bucket index.tag kv.1 ∧
      e.value.tag.any (·.value = kv.2) = true) ↔
      e ∈ table.rows ∧ e.value.scope = .tag ∧ ∃ tag, e.value.tag = some tag ∧
        auth.tags.get? tag.key = some tag.value := by
  simp only [h.tag, List.mem_filter, mem_sorted, tagged, decide_eq_true_eq, Option.map_eq_some_iff,
    Option.any_eq_true]
  constructor
  · rintro ⟨⟨k, v⟩, hkv, ⟨hrow, hscope, tag, htag, rfl⟩, tag', htag', hvalue⟩
    obtain rfl : tag = tag' := Option.some.inj (htag.symm.trans htag')
    obtain rfl : tag.value = v := hvalue
    exact ⟨hrow, hscope, tag, htag, SortedMap.mem_entries_iff.mp hkv⟩
  · rintro ⟨hrow, hscope, tag, htag, hget⟩
    exact ⟨(tag.key, tag.value), SortedMap.mem_entries_iff.mpr hget,
      ⟨hrow, hscope, tag, htag, rfl⟩, tag, htag, rfl⟩

theorem exists_row_iff {p q : String → Prop} {r : Prop} :
    (∃ id, p id ∧ r ∧ q id) ↔ r ∧ ∃ id, p id ∧ q id := by
  constructor
  · rintro ⟨id, hp, hr, hq⟩
    exact ⟨hr, id, hp, hq⟩
  · rintro ⟨hr, id, hp, hq⟩
    exact ⟨id, hp, hr, hq⟩

theorem mem_applicable {e : Entry} :
    e ∈ (build table).applicable auth ↔ e ∈ table.rows ∧ Applies auth e.value := by
  have h := holds_build table
  simp only [applicable, List.mem_append, mem_lookupRef, List.mem_flatMap,
    List.mem_filter, mem_tags h, teamOfMember_eq_some, h.everyone, h.apiKey, h.member, h.team,
    h.teamMember, mem_sorted, forEveryone, ofScope, decide_eq_true_eq]
  unfold Applies
  cases hscope : e.value.scope with
  | org | environment | apiKey | tag | providerKey => simp
  | member | team | teamMember => simpa using exists_row_iff

/-! ### Their order -/

/-- Budgets of the listed scopes, those of one scope in the order of their ties. -/
structure Ordered (scopes : List BudgetScope) (l : List Entry) : Prop where
  mem : ∀ e ∈ l, e.value.scope ∈ scopes
  ties : l.Pairwise fun a b => a.value.scope = b.value.scope → TieBefore a b

theorem Ordered.append {S S' : List BudgetScope} {l l' : List Entry} (h : Ordered S l)
    (h' : Ordered S' l') (hdisjoint : ∀ s ∈ S, s ∉ S') : Ordered (S ++ S') (l ++ l') where
  mem := by
    intro e he
    rcases List.mem_append.mp he with he | he
    · exact List.mem_append_left S' (h.mem e he)
    · exact List.mem_append_right S (h'.mem e he)
  ties := by
    refine List.pairwise_append.mpr ⟨h.ties, h'.ties, fun a ha b hb hscope => ?_⟩
    exact absurd (h'.mem b hb) (hscope ▸ hdisjoint _ (h.mem a ha))

/-- Budgets found by a scan, of scopes that know no tags, are in the order of their ids. -/
theorem ordered_filter {S : List BudgetScope} {p : Entry → Bool}
    (hp : ∀ e, p e = true → e.value.scope ∈ S)
    (htag : .tag ∉ S) : Ordered S ((sorted table).filter p) where
  mem := fun e he => hp e (List.mem_filter.mp he).2
  ties := by
    have hties : ((sorted table).filter p).Pairwise fun a b => a.id < b.id :=
      (sorted_pairwise table).filter p
    refine hties.imp_of_mem fun {a b} ha hb hid _ => .inr ⟨?_, hid⟩
    have hplain : ∀ e ∈ (sorted table).filter p, tieKey e = "" := by
      intro e he
      rw [tieKey, if_neg]
      intro hscope
      exact htag (hscope ▸ hp e (List.mem_filter.mp he).2)
    rw [hplain a ha, hplain b hb]

theorem ordered_lookupRef {scope : BudgetScope} {m : KeyMap String (List Entry)}
    (h : ∀ ref, bucket m ref = (sorted table).filter (ofScope scope ref)) (htag : scope ≠ .tag)
    (ref : Option String) :
    Ordered [scope] (lookupRef m ref) := by
  cases ref with
  | none => exact ⟨by simp [lookupRef], .nil⟩
  | some ref =>
    rw [lookupRef, h]
    refine ordered_filter (fun e he => ?_) (by simpa using htag.symm)
    simp only [ofScope, decide_eq_true_eq] at he
    exact List.mem_singleton.mpr he.1

theorem tieKey_of_tagged {key : String} {e : Entry} (h : tagged key e = true) : tieKey e = key := by
  simp only [tagged, decide_eq_true_eq] at h
  rw [tieKey, if_pos h.1, h.2]
  rfl

theorem ordered_tags {index : BudgetIndex} (h : Holds index (sorted table))
    (tags : SortedMap String String) : Ordered [.tag] (tags.entries.flatMap fun e =>
      (bucket index.tag e.1).filter fun entry => entry.value.tag.any (·.value = e.2)) := by
  have hfound : ∀ kv : String × String,
      ∀ e ∈ (bucket index.tag kv.1).filter
      (fun entry => entry.value.tag.any (·.value = kv.2)), tagged kv.1 e = true := by
    intro kv e he
    have hmem := (List.mem_filter.mp he).1
    rw [h.tag] at hmem
    exact (List.mem_filter.mp hmem).2
  constructor
  · intro e he
    obtain ⟨kv, -, he⟩ := List.mem_flatMap.mp he
    have htagged := hfound kv e he
    simp only [tagged, decide_eq_true_eq] at htagged
    exact List.mem_singleton.mpr htagged.1
  · refine List.pairwise_flatMap.mpr ⟨fun kv _ => ?_, tags.sorted.imp fun hlt a ha b hb _ => ?_⟩
    · have hids : (bucket index.tag kv.1).Pairwise fun a b => a.id < b.id := by
        rw [h.tag]
        exact (sorted_pairwise table).filter _
      refine (hids.filter _).imp_of_mem fun {a b} ha hb hid _ => .inr ⟨?_, hid⟩
      rw [tieKey_of_tagged (hfound kv a ha), tieKey_of_tagged (hfound kv b hb)]
    · rw [TieBefore, tieKey_of_tagged (hfound _ a ha), tieKey_of_tagged (hfound _ b hb)]
      exact .inl hlt

theorem applicable_pairwise (table : Table) (auth : AuthenticatedKey) :
    ((build table).applicable auth).Pairwise fun a b => a.value.scope = b.value.scope →
    TieBefore a b := by
  have h := holds_build table
  have heveryone : Ordered [.org, .environment] (build table).everyone := by
    rw [h.everyone]
    refine ordered_filter (fun e he => ?_) (by decide)
    simpa [forEveryone] using he
  have hkey := ordered_lookupRef h.apiKey (by decide) (some auth.id)
  have hmember := ordered_lookupRef h.member (by decide) auth.userId
  have hteam := ordered_lookupRef h.team (by decide) auth.teamId
  have hteamMember := ordered_lookupRef h.teamMember (by decide) (teamOfMember auth)
  have htags := ordered_tags h auth.tags
  exact (((((heveryone.append hkey (by decide)).append hmember (by decide)).append hteam
    (by decide)).append hteamMember (by decide)).append htags (by decide)).ties

end BudgetIndex
end Budgets
end Aisix
