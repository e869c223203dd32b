import Mathlib.Logic.Function.Basic
import Mathlib.Data.Option.Basic
import Mathlib.Algebra.Order.Ring.Nat

/-!
# Aisix.Etcd.Snapshot

The served snapshot: per table, the row stored under each id. Tables are addressed by name, as the
presence probe and the removal of the supervisor address them.
-/

namespace Aisix
namespace Etcd

/-- The resource tables of a snapshot. -/
inductive Table where
  | models
  | apikeys
  | providerKeys
  | guardrails
  | guardrailAttachments
  | cachePolicies
  | observabilityExporters
  | rateLimitPolicies
  | mcpServers
  | mcpPolicies
  | a2aAgents
  | oidcProviders
  | claimMappings
  | passthroughRoutes
  | mcpAuthSettings
  | pricing
  | globalPricing
  | teams
  | users
  | budgets
  | budgetPolicy
  deriving DecidableEq

namespace Table

def name : Table → String
  | models => "models"
  | apikeys => "api_keys"
  | providerKeys => "provider_keys"
  | guardrails => "guardrails"
  | guardrailAttachments => "guardrail_attachments"
  | cachePolicies => "cache_policies"
  | observabilityExporters => "observability_exporters"
  | rateLimitPolicies => "rate_limit_policies"
  | mcpServers => "mcp_servers"
  | mcpPolicies => "mcp_policies"
  | a2aAgents => "a2a_agents"
  | oidcProviders => "oidc_providers"
  | claimMappings => "claim_mappings"
  | passthroughRoutes => "passthrough_routes"
  | mcpAuthSettings => "mcp_auth_settings"
  | pricing => "pricing"
  | globalPricing => "global_pricing"
  | teams => "teams"
  | users => "users"
  | budgets => "budgets"
  | budgetPolicy => "budget_policy"

/-- The table a name selects. -/
def ofName? (kind : String) : Option Table :=
  match kind with
  | "models" => some models
  | "api_keys" => some apikeys
  | "provider_keys" => some providerKeys
  | "guardrails" => some guardrails
  | "guardrail_attachments" => some guardrailAttachments
  | "cache_policies" => some cachePolicies
  | "observability_exporters" => some observabilityExporters
  | "rate_limit_policies" => some rateLimitPolicies
  | "mcp_servers" => some mcpServers
  | "mcp_policies" => some mcpPolicies
  | "a2a_agents" => some a2aAgents
  | "oidc_providers" => some oidcProviders
  | "claim_mappings" => some claimMappings
  | "passthrough_routes" => some passthroughRoutes
  | "mcp_auth_settings" => some mcpAuthSettings
  | "pricing" => some pricing
  | "global_pricing" => some globalPricing
  | "teams" => some teams
  | "users" => some users
  | "budgets" => some budgets
  | "budget_policy" => some budgetPolicy
  | _ => none

@[simp] theorem ofName?_name (t : Table) : ofName? t.name = some t := by cases t <;> rfl

theorem ofName?_eq_some {kind : String} {t : Table} : ofName? kind = some t ↔ kind = t.name := by
  constructor
  · intro h
    unfold ofName? at h
    split at h <;> cases h <;> rfl
  · rintro rfl
    exact ofName?_name t

end Table

/-- A stored row: its id, its typed value and the revision it was written at. -/
structure ResourceEntry (V : Type) where
  id : String
  value : V
  revision : Int
  deriving DecidableEq

/-- Per table, the row stored under each id. -/
structure Snapshot (V : Type) where
  row : Table → String → Option (ResourceEntry V)

namespace Snapshot

variable {V : Type}

def empty : Snapshot V := ⟨fun _ _ => none⟩

def insert (s : Snapshot V) (t : Table) (e : ResourceEntry V) : Snapshot V :=
  ⟨Function.update s.row t (Function.update (s.row t) e.id (some e))⟩

/-- `merge_snapshot`: every row of `src`, replacing rows of the same id. -/
def merge (dst src : Snapshot V) : Snapshot V := ⟨fun t id => (src.row t id).or (dst.row t id)⟩

/-- `remove_from_snapshot`. -/
def remove (s : Snapshot V) (kind id : String) : Snapshot V :=
  match Table.ofName? kind with
  | some t => ⟨Function.update s.row t (Function.update (s.row t) id none)⟩
  | none => s

/-- `snapshot_has`: an unknown kind reads as absent. -/
def has (s : Snapshot V) (kind id : String) : Bool :=
  match Table.ofName? kind with
  | some t => (s.row t id).isSome
  | none => false

@[ext] theorem ext {s s' : Snapshot V} (h : ∀ t id, s.row t id = s'.row t id) : s = s' := by
  cases s; cases s'
  congr 1
  funext t id
  exact h t id

theorem row_insert (s : Snapshot V) (t t' : Table) (e : ResourceEntry V) (id : String) :
    (s.insert t e).row t' id = if t' = t ∧ id = e.id then some e else s.row t' id := by
  unfold insert
  by_cases ht : t' = t
  · subst ht
    by_cases hid : id = e.id
    · subst hid; simp
    · simp [hid]
  · simp [ht]

theorem row_remove (s : Snapshot V) (kind id id' : String) (t : Table) :
    (s.remove kind id).row t id' = if kind = t.name ∧ id' = id then none else s.row t id' := by
  unfold remove
  cases hk : Table.ofName? kind with
  | none =>
    have hne : kind ≠ t.name := fun h => by rw [h, Table.ofName?_name] at hk; cases hk
    simp [hne]
  | some t' =>
    obtain rfl := Table.ofName?_eq_some.1 hk
    by_cases ht : t = t'
    · subst ht
      by_cases hid : id' = id
      · subst hid; simp
      · simp [hid]
    · have hne : t'.name ≠ t.name := fun h => ht (by
        have := Table.ofName?_name t
        rw [← h, Table.ofName?_name] at this
        exact (Option.some.inj this).symm)
      simp [Function.update_of_ne ht, hne]

theorem row_merge (dst src : Snapshot V) (t : Table) (id : String) :
    (dst.merge src).row t id = (src.row t id).or (dst.row t id) := rfl

theorem merge_assoc (s s' s'' : Snapshot V) : s.merge (s'.merge s'') = (s.merge s').merge s'' := by
  ext1 t id
  simp only [row_merge, Option.or_assoc]

@[simp] theorem merge_empty (s : Snapshot V) : s.merge empty = s := by
  ext1 t id
  rw [row_merge]; rfl

theorem merge_insert_empty (s : Snapshot V) (t : Table) (e : ResourceEntry V) :
    s.merge (empty.insert t e) = s.insert t e := by
  ext1 t' id
  rw [row_merge, row_insert, row_insert]
  split
  · rfl
  · rfl

theorem has_name (s : Snapshot V) (t : Table) (id : String) :
    s.has t.name id = (s.row t id).isSome := by
  simp [has]

theorem has_insert (s : Snapshot V) (t : Table) (e : ResourceEntry V) (kind id : String) :
    (s.insert t e).has kind id = (decide (kind = t.name ∧ id = e.id) || s.has kind id) := by
  unfold has
  cases hk : Table.ofName? kind with
  | none =>
    have hne : kind ≠ t.name := fun h => by rw [h, Table.ofName?_name] at hk; cases hk
    simp [hne]
  | some t' =>
    obtain rfl := Table.ofName?_eq_some.1 hk
    have hname : t'.name = t.name ↔ t' = t := by
      rw [← Table.ofName?_eq_some, Table.ofName?_name, Option.some.injEq]
    dsimp only
    rw [row_insert]
    split
    next h => simp [h]
    next h => simp [hname, h]

theorem has_remove (s : Snapshot V) (kind id kind' id' : String) :
    (s.remove kind id).has kind' id' =
      (!decide (kind' = kind ∧ id' = id) && s.has kind' id') := by
  unfold has
  cases hk : Table.ofName? kind' with
  | none => simp
  | some t =>
    obtain rfl := Table.ofName?_eq_some.1 hk
    dsimp only
    rw [row_remove]
    by_cases h : kind = t.name ∧ id' = id
    · rw [if_pos h]; simp [h]
    · rw [if_neg h]
      have h' : ¬ (t.name = kind ∧ id' = id) := fun h' => h ⟨h'.1.symm, h'.2⟩
      simp [h']

end Snapshot
end Etcd
end Aisix
