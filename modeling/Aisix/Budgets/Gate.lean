import Aisix.Budgets.Index
import Mathlib.Data.List.MinMax
import Mathlib.Data.Prod.Lex

/-!
# Aisix.Budgets.Gate

The budget decision for one key: the running maximum over the budgets that apply, and what it comes
to (`key_verdict_reports`).
-/

namespace Aisix
namespace Budgets

open Etcd BudgetIndex

/-- What the gate asks of other libraries: RFC 3339 timestamps read and written, and amounts
restated. -/
structure Formats where
  parseRfc3339 : String → Option Instant
  formatUtc : Instant → String
  /-- An amount with two decimals, if it is a number. -/
  dollars : String → Option String

/-- What a rejected request is answered with. -/
structure BudgetReason where
  message : String
  scope : Option String
  scopeKind : Option BudgetScope
  /-- What a caller of a platform reads in place of the message. -/
  callerMessage : Option String
  scopeRef : Option String
  limitUsd : Option String
  spentUsd : Option String
  remainingUsd : Option String
  period : Option String
  periodResetsAt : Option String
  retryAfterSeconds : Option Nat
  deriving DecidableEq

inductive Verdict where
  | allow
  | exceeded (reason : BudgetReason)
  /-- Strict mode with usage delivery failing past the grace period, and a budget applies. -/
  | unverified
  deriving DecidableEq

structure BudgetGate where
  index : BudgetIndex
  now : Instant
  unverified : Bool
  formats : Formats

/-- The best of the exhausted budgets so far. -/
structure Denied where
  rank : Nat
  scope : BudgetScope
  entry : Entry
  reason : DocReason

namespace BudgetGate

variable (gate : BudgetGate)

def inForce (budget : Budget) (start : Option String) : Bool :=
  start.all fun s => gate.formats.parseRfc3339 s = some (periodStart gate.now budget.period)

/-- The member's own mark on a `team_member` budget. -/
def memberReason (budget : Budget) (userId : Option String) : Option DocReason :=
  if budget.scope = .teamMember then
    match userId.bind budget.exhaustedMembers.get? with
    | some member =>
      if gate.inForce budget (some member.periodStart) then some member.reason else none
    | none => none
  else none

/-- The exhausted mark that blocks a budget now, if any. -/
def inForceReason (budget : Budget) (userId : Option String) : Option DocReason :=
  match budget.exhausted with
  | some exhausted =>
    if gate.inForce budget exhausted.periodStart then some exhausted.reason
    else gate.memberReason budget userId
  | none => gate.memberReason budget userId

def reason (budget : Budget) (doc : DocReason) : BudgetReason :=
  let resetsAt := nextPeriodStart (periodStart gate.now budget.period) budget.period
  let amount := fun v : Option String => v.bind gate.formats.dollars
  let scope := doc.scope.getD budget.scope.asStr
  { message := (doc.message.filter (· ≠ "")).getD (scope.replace "_" " " ++ " budget exceeded")
    scopeRef := doc.scopeRef.or budget.scopeRef
    scope := some scope
    scopeKind := some budget.scope
    callerMessage := none
    limitUsd := amount doc.limitUsd
    spentUsd := amount doc.spentUsd
    remainingUsd := amount doc.remainingUsd
    period := some budget.period.asStr
    periodResetsAt := some (gate.formats.formatUtc resetsAt)
    retryAfterSeconds := some ((resetsAt - gate.now).tdiv (10 ^ 9)).toNat }

/-- A higher rank wins; on a tie the scope that sorts first by name. -/
def better (d : Denied) : Option Denied → Bool
  | none => true
  | some best => best.rank < d.rank ∨ d.rank = best.rank ∧ d.scope.asStr < best.scope.asStr

def keep (userId : Option String) (best : Option Denied) (entry : Entry) : Option Denied :=
  match gate.inForceReason entry.value userId with
  | none => best
  | some reason =>
    let d : Denied := ⟨scopeRank entry.value.scope, entry.value.scope, entry, reason⟩
    if better d best then some d else best

def keyVerdict (auth : AuthenticatedKey) : Verdict :=
  let budgets := gate.index.applicable auth
  let applies := !budgets.isEmpty
  match budgets.foldl (gate.keep auth.userId) none with
  | some d => .exceeded (gate.reason d.entry.value d.reason)
  | none => if applies && gate.unverified then .unverified else .allow

/-- The `provider_key` budgets of an upstream credential. -/
def providerKeyVerdict (providerKeyId : String) : Verdict :=
  match gate.index.providerKey.lookup providerKeyId with
  | none => .allow
  | some budgets =>
    match budgets.findSome? fun entry => (gate.inForceReason entry.value none).map
      (gate.reason entry.value) with
    | some reason => .exceeded reason
    | none => if gate.unverified then .unverified else .allow

/-! ### What the verdict says -/

/-- The gate for a request served from a snapshot. -/
def ofTable (table : Table) (now : Instant) (unverified : Bool) (formats : Formats) : BudgetGate :=
  ⟨build table, now, unverified, formats⟩

/-- A mark without a period start holds in every period, another one in the period it names. -/
def Current (budget : Budget) (start : Option String) : Prop :=
  ∀ s, start = some s → gate.formats.parseRfc3339 s = some (periodStart gate.now budget.period)

def OwnMark (budget : Budget) (doc : DocReason) : Prop :=
  ∃ exhausted, budget.exhausted = some exhausted ∧ gate.Current budget exhausted.periodStart ∧
    exhausted.reason = doc

def MemberMark (auth : AuthenticatedKey) (budget : Budget) (doc : DocReason) : Prop :=
  budget.scope = .teamMember ∧ ∃ user member, auth.userId = some user ∧
    budget.exhaustedMembers.get? user = some member ∧
    gate.Current budget (some member.periodStart) ∧ member.reason = doc

/-- A budget carries an exhausted mark in force, its own before the member's. -/
def Marked (auth : AuthenticatedKey) (budget : Budget) (doc : DocReason) : Prop :=
  gate.OwnMark budget doc ∨ (∀ doc', ¬ gate.OwnMark budget doc') ∧ gate.MemberMark auth budget doc

/-- The order in which exhausted budgets are reported: the higher rank, then the scope's name, then
`ties`. -/
def Precedes (ties : Entry → Entry → Prop) (a b : Entry) : Prop :=
  scopeRank b.value.scope < scopeRank a.value.scope ∨
    scopeRank a.value.scope = scopeRank b.value.scope ∧
    (a.value.scope.asStr < b.value.scope.asStr ∨ a.value.scope.asStr = b.value.scope.asStr ∧
      ties a b)

/-- What a verdict says of the documents. -/
def Reports (ties : Entry → Entry → Prop) (table : Table) (auth : AuthenticatedKey) : Verdict → Prop
  | .exceeded r => ∃ e ∈ table.rows, Applies auth e.value ∧ ∃ doc, gate.Marked auth e.value doc ∧
      r = gate.reason e.value doc ∧
      ∀ e' ∈ table.rows, Applies auth e'.value → ∀ doc', gate.Marked auth e'.value doc' → e' = e ∨
        Precedes ties e e'
  | .unverified => gate.unverified = true ∧ (∃ e ∈ table.rows, Applies auth e.value) ∧
      ∀ e ∈ table.rows, Applies auth e.value → ∀ doc, ¬ gate.Marked auth e.value doc
  | .allow => (gate.unverified = true → ∀ e ∈ table.rows, ¬ Applies auth e.value) ∧
      ∀ e ∈ table.rows, Applies auth e.value → ∀ doc, ¬ gate.Marked auth e.value doc

section Marks

variable {gate} {auth : AuthenticatedKey} {budget : Budget} {doc : DocReason}

theorem inForce_iff {start : Option String} :
    gate.inForce budget start = true ↔ gate.Current budget start := by
  cases start <;> simp [inForce, Current]

theorem ownMark_iff {exhausted : BudgetExhausted} (h : budget.exhausted = some exhausted) :
    gate.OwnMark budget doc ↔ gate.inForce budget exhausted.periodStart = true ∧
      exhausted.reason = doc := by
  simp [OwnMark, h, inForce_iff]

theorem memberReason_eq_some :
    gate.memberReason budget auth.userId = some doc ↔ gate.MemberMark auth budget doc := by
  unfold memberReason MemberMark
  split
  · next hscope =>
    simp only [hscope, true_and, ← inForce_iff]
    split
    · next member hmember =>
      obtain ⟨user, huser, hget⟩ := Option.bind_eq_some_iff.mp hmember
      rw [Option.ite_none_right_eq_some, Option.some.injEq]
      constructor
      · rintro ⟨hcurrent, hdoc⟩
        exact ⟨user, member, huser, hget, hcurrent, hdoc⟩
      · rintro ⟨user', member', huser', hget', hcurrent, hdoc⟩
        obtain rfl := Option.some.inj (huser.symm.trans huser')
        obtain rfl := Option.some.inj (hget.symm.trans hget')
        exact ⟨hcurrent, hdoc⟩
    · next hnone =>
      constructor
      · intro h
        cases h
      · rintro ⟨user, member, huser, hget, -⟩
        rw [huser, Option.bind_some, hget] at hnone
        cases hnone
  · next hscope =>
    constructor
    · intro h
      cases h
    · exact fun h => absurd h.1 hscope

theorem inForceReason_eq_some :
    gate.inForceReason budget auth.userId = some doc ↔ gate.Marked auth budget doc := by
  unfold inForceReason Marked
  cases hmark : budget.exhausted with
  | none =>
    have hown : ∀ doc', ¬ gate.OwnMark budget doc' := by
      rintro doc' ⟨exhausted, h, -⟩
      rw [hmark] at h
      cases h
    simp [hown, memberReason_eq_some]
  | some exhausted =>
    dsimp only
    simp only [ownMark_iff hmark]
    split
    · next hcurrent => simp [hcurrent]
    · next hcurrent => simp [hcurrent, memberReason_eq_some]

end Marks

/-! ### The running maximum -/

theorem argmin_pairwise {α β : Type*} [LinearOrder β] {f : α → β} {R : α → α → Prop} {l : List α}
    {m : α}
    (hl : l.Pairwise R) (hm : m ∈ l.argmin f) : ∀ a ∈ l, a = m ∨ f m < f a ∨ f m = f a ∧ R m a := by
  classical
  intro a ha
  by_cases heq : a = m
  · exact .inl heq
  · rcases lt_or_eq_of_le (List.le_of_mem_argmin ha hm) with hlt | hkey
    · exact .inr (.inl hlt)
    · have hidx : l.idxOf m < l.idxOf a := by
        refine lt_of_le_of_ne (List.index_of_argmin hm ha hkey.symm.le) fun h => heq ?_
        exact ((List.idxOf_inj (List.argmin_mem hm)).mp h).symm
      have hbefore := List.pairwise_iff_getElem.mp hl (l.idxOf m) (l.idxOf a)
        (List.idxOf_lt_length_iff.mpr (List.argmin_mem hm)) (List.idxOf_lt_length_iff.mpr ha) hidx
      rw [List.getElem_idxOf, List.getElem_idxOf] at hbefore
      exact .inr (.inr ⟨hkey, hbefore⟩)

/-- What the running maximum compares. -/
def keyOf (d : Denied) : ℕᵒᵈ ×ₗ String := toLex (OrderDual.toDual d.rank, d.scope.asStr)

theorem better_iff {d best : Denied} : better d (some best) = true ↔ keyOf d < keyOf best := by
  simp only [better, keyOf, Prod.Lex.toLex_lt_toLex, decide_eq_true_eq, OrderDual.toDual_lt_toDual,
    OrderDual.toDual_inj]

def candidate (userId : Option String) (entry : Entry) : Option Denied :=
  (gate.inForceReason entry.value userId).map fun reason =>
    ⟨scopeRank entry.value.scope, entry.value.scope, entry, reason⟩

theorem foldl_keep (userId : Option String) (budgets : List Entry) :
    budgets.foldl (gate.keep userId) none =
      (budgets.filterMap (gate.candidate userId)).argmin keyOf := by
  have hfold : ∀ best, budgets.foldl (gate.keep userId) best =
      (budgets.filterMap (gate.candidate userId)).foldl
        (List.argAux fun b c => keyOf b < keyOf c) best := by
    induction budgets with
    | nil => exact fun best => rfl
    | cons entry budgets ih =>
      intro best
      rw [List.foldl_cons, ih]
      cases hreason : gate.inForceReason entry.value userId with
      | none =>
        have hcandidate : gate.candidate userId entry = none := by
          rw [candidate, hreason, Option.map_none]
        rw [List.filterMap_cons_none hcandidate, keep, hreason]
      | some doc =>
        have hcandidate : gate.candidate userId entry =
            some ⟨scopeRank entry.value.scope, entry.value.scope, entry, doc⟩ := by
          rw [candidate, hreason, Option.map_some]
        rw [List.filterMap_cons_some hcandidate, List.foldl_cons, keep, hreason]
        congr 1
        cases best with
        | none => rfl
        | some best => simp only [better_iff, List.argAux]
  exact hfold none

theorem asStr_injective : Function.Injective BudgetScope.asStr := by
  intro a b h
  cases a <;> cases b <;> first | rfl | exact absurd h (by decide)

variable {gate} {auth : AuthenticatedKey}

theorem candidate_eq_some {e : Entry} {d : Denied} : gate.candidate auth.userId e = some d ↔
    gate.Marked auth e.value d.reason ∧ d.entry = e ∧ d.rank = scopeRank e.value.scope ∧
      d.scope = e.value.scope := by
  rw [candidate, Option.map_eq_some_iff]
  constructor
  · rintro ⟨doc, hdoc, rfl⟩
    exact ⟨inForceReason_eq_some.mp hdoc, rfl, rfl, rfl⟩
  · obtain ⟨rank, scope, entry, doc⟩ := d
    rintro ⟨hmarked, hentry, hrank, hscope⟩
    dsimp only at hmarked hentry hrank hscope
    subst hentry hrank hscope
    exact ⟨doc, inForceReason_eq_some.mpr hmarked, rfl⟩

theorem precedes_of_argmin {budgets : List Entry} {d : Denied}
    (hties : budgets.Pairwise fun a b => a.value.scope = b.value.scope → TieBefore a b)
    (hd : d ∈ (budgets.filterMap (gate.candidate auth.userId)).argmin keyOf) {e : Entry}
    (he : e ∈ budgets) {doc : DocReason} (hdoc : gate.Marked auth e.value doc) :
    e = d.entry ∨ Precedes TieBefore d.entry e := by
  obtain ⟨e₀, he₀, hcandidate₀⟩ := List.mem_filterMap.mp (List.argmin_mem hd)
  obtain ⟨-, rfl, hrank₀, hscope₀⟩ := candidate_eq_some.mp hcandidate₀
  have hcandidate :
      gate.candidate auth.userId e = some ⟨scopeRank e.value.scope, e.value.scope, e, doc⟩ :=
    candidate_eq_some.mpr ⟨hdoc, rfl, rfl, rfl⟩
  have hcandidates : (budgets.filterMap (gate.candidate auth.userId)).Pairwise fun a b =>
      a.scope = b.scope → TieBefore a.entry b.entry := by
    refine List.pairwise_filterMap.mpr (hties.imp fun {a b} hab a' ha' b' hb' hscope => ?_)
    obtain ⟨-, rfl, -, hsa⟩ := candidate_eq_some.mp ha'
    obtain ⟨-, rfl, -, hsb⟩ := candidate_eq_some.mp hb'
    exact hab (by rw [← hsa, ← hsb, hscope])
  have hmem := List.mem_filterMap.mpr ⟨e, he, hcandidate⟩
  rcases argmin_pairwise hcandidates hd _ hmem with heq | hlt | ⟨hkey, htie⟩
  · exact .inl (congrArg Denied.entry heq)
  · rw [keyOf, keyOf, Prod.Lex.toLex_lt_toLex, OrderDual.toDual_lt_toDual, OrderDual.toDual_inj,
      hrank₀, hscope₀] at hlt
    rcases hlt with hrank | ⟨hrank, hname⟩
    · exact .inr (.inl hrank)
    · exact .inr (.inr ⟨hrank, .inl hname⟩)
  · rw [keyOf, keyOf, toLex_inj, Prod.mk.injEq, OrderDual.toDual_inj, hrank₀, hscope₀] at hkey
    have hscope : d.scope = e.value.scope := by
      rw [hscope₀]
      exact asStr_injective hkey.2
    exact .inr (.inr ⟨hkey.1, .inr ⟨hkey.2, htie hscope⟩⟩)

/-- The verdict is what the documents say. -/
theorem keyVerdict_reports (table : Table) (auth : AuthenticatedKey) (now : Instant)
    (unverified : Bool) (formats : Formats) :
    (ofTable table now unverified formats).Reports TieBefore table auth
      ((ofTable table now unverified formats).keyVerdict auth) := by
  generalize hgate : ofTable table now unverified formats = gate
  have hindex : gate.index = build table := by
    rw [← hgate]
    rfl
  have hfold := gate.foldl_keep auth.userId (gate.index.applicable auth)
  unfold keyVerdict
  dsimp only
  rw [hindex] at hfold ⊢
  cases hbest : ((build table).applicable auth).foldl (gate.keep auth.userId) none with
  | some d =>
    have hd :
        d ∈ (((build table).applicable auth).filterMap (gate.candidate auth.userId)).argmin
        keyOf := by
      rw [← hfold, hbest]
      rfl
    obtain ⟨e, he, hcandidate⟩ := List.mem_filterMap.mp (List.argmin_mem hd)
    obtain ⟨hmarked, rfl, -, -⟩ := candidate_eq_some.mp hcandidate
    obtain ⟨hrow, happlies⟩ := mem_applicable.mp he
    refine ⟨d.entry, hrow, happlies, d.reason, hmarked, rfl,
      fun e' hrow' happlies' doc' hmarked' => ?_⟩
    exact precedes_of_argmin (applicable_pairwise table auth) hd
      (mem_applicable.mpr ⟨hrow', happlies'⟩) hmarked'
  | none =>
    rw [hbest] at hfold
    have hnone := List.argmin_eq_none.mp hfold.symm
    have hunmarked : ∀ e ∈ table.rows, Applies auth e.value →
        ∀ doc, ¬ gate.Marked auth e.value doc := by
      intro e hrow happlies doc hmarked
      have hcandidate := List.filterMap_eq_nil_iff.mp hnone e (mem_applicable.mpr ⟨hrow, happlies⟩)
      rw [candidate, Option.map_eq_none_iff] at hcandidate
      rw [inForceReason_eq_some.mpr hmarked] at hcandidate
      cases hcandidate
    dsimp only
    split
    · next hstrict =>
      rw [Bool.and_eq_true, Bool.not_eq_true', List.isEmpty_eq_false_iff_exists_mem] at hstrict
      obtain ⟨⟨e, he⟩, hunverified⟩ := hstrict
      exact ⟨hunverified, ⟨e, mem_applicable.mp he⟩, hunmarked⟩
    · next hallow =>
      refine ⟨fun hunverified e hrow happlies => hallow ?_, hunmarked⟩
      rw [Bool.and_eq_true, Bool.not_eq_true', List.isEmpty_eq_false_iff_exists_mem]
      exact ⟨⟨e, mem_applicable.mpr ⟨hrow, happlies⟩⟩, hunverified⟩

/-! ### Tags before ids -/

theorem message_reason {gate : BudgetGate} {budget : Budget} {doc : DocReason} {m : String}
    (h : doc.message = some m) (hm : m ≠ "") : (gate.reason budget doc).message = m := by
  simp only [BudgetGate.reason, h, Option.filter_some, ne_eq, hm, not_false_eq_true,
    decide_true, if_true, Option.getD_some]

/-- An exhausted budget of a tag. -/
def spent (id tag : String) : Entry where
  id := id
  value :=
    { scope := .tag
      scopeRef := none
      tag := some ⟨tag, "blue"⟩
      period := .month
      exhausted := some ⟨none, ⟨some id, none, none, none, none, none⟩⟩
      exhaustedMembers := .empty }
  revision := 0

/-- The ids of two budgets, and their tags in the other order. -/
def twoTags : Table := (ResourceTable.empty.insert (spent "a" "team")).insert (spent "b" "cost")

def blueKey : AuthenticatedKey :=
  ⟨"k", none, none, (SortedMap.empty.insert "team" "blue").insert "cost" "blue"⟩

def plainFormats : Formats := ⟨fun _ => none, fun _ => "", fun _ => none⟩

def spentReason (id : String) : DocReason := ⟨some id, none, none, none, none, none⟩

/-- The budget with the greater id is reported, as its tag comes first. -/
theorem keyVerdict_greater_id :
    ¬ (ofTable twoTags 0 false plainFormats).Reports (fun a b => a.id < b.id) twoTags blueKey
      ((ofTable twoTags 0 false plainFormats).keyVerdict blueKey) := by
  generalize hgate : ofTable twoTags 0 false plainFormats = gate
  have hmark : ∀ id tag, gate.Marked blueKey (spent id tag).value (spentReason id) := by
    intro id tag
    refine .inl ⟨_, rfl, fun s hs => ?_, rfl⟩
    cases hs
  have hmessage : ∀ id tag doc, gate.Marked blueKey (spent id tag).value doc →
      doc = spentReason id := by
    rintro id tag doc (⟨exhausted, hexhausted, -, hdoc⟩ | ⟨-, hmember, -⟩)
    · obtain rfl := Option.some.inj hexhausted
      exact hdoc.symm
    · cases hmember
  have hverdict :
      gate.keyVerdict blueKey =
      .exceeded (gate.reason (spent "b" "cost").value (spentReason "b")) := by
    rw [← hgate]
    decide +kernel
  intro h
  rw [hverdict] at h
  obtain ⟨e, hrow, -, doc, hmarked, hreason, hall⟩ := h
  have hrows : e = spent "b" "cost" ∨ e = spent "a" "team" := by
    have hmem : e ∈ [spent "b" "cost", spent "a" "team"] := hrow
    simpa using hmem
  rcases hrows with rfl | rfl
  · have happlies : Applies blueKey (spent "a" "team").value := ⟨⟨"team", "blue"⟩, rfl, by decide⟩
    have hrow' : spent "a" "team" ∈ twoTags.rows := List.mem_cons_of_mem _ (List.mem_cons_self ..)
    rcases hall _ hrow' happlies _ (hmark "a" "team") with heq | hrank | ⟨-, hname | ⟨-, hid⟩⟩
    · exact absurd (congrArg ResourceEntry.id heq) (by decide)
    · exact absurd hrank (by decide)
    · exact absurd hname (by decide)
    · exact absurd hid (by decide)
  · rw [hmessage "a" "team" doc hmarked] at hreason
    have hmessages := congrArg BudgetReason.message hreason
    rw [message_reason rfl (by decide), message_reason rfl (by decide)] at hmessages
    exact absurd hmessages (by decide)

end BudgetGate

end Budgets
end Aisix
