import Aisix.Mcp.Wildcard
import Aisix.ResourceTable

/-!
# Aisix.Mcp.Acl

Which tools a caller may list and call (`ToolAcl`), and the index from server names to ids that its
id-form entries are resolved through (`McpServerIndex`).
-/

namespace Aisix
namespace Mcp

open Etcd

/-- A registered server, as listing, calling and access control see it; `ipAllowed` is its
`allowed_cidrs` check. -/
structure McpServer where
  name : String
  rule : ServerName name
  enabled : Bool
  ipAllowed : String → Bool

abbrev Servers := ResourceTable McpServer McpServer.name

abbrev ServerRow := ResourceEntry McpServer

structure McpServerIndex where
  byName : String → Option String

namespace McpServerIndex

def default : McpServerIndex := ⟨fun _ => none⟩

/-- One entry of the loop in `build`. -/
def record (servers : Servers) (byName : String → Option String) (e : ServerRow) :
    String → Option String :=
  match servers.getByName e.value.name with
  | some owner => Function.update byName e.value.name (some owner.id)
  | none => byName

def build (servers : Servers) : McpServerIndex :=
  ⟨servers.rows.foldl (record servers) fun _ => none⟩

/-- The id of the server a name addresses, and the bare tool. -/
def address (ix : McpServerIndex) (name : String) : Option (String × String) :=
  (splitName name).bind fun parts => (ix.byName parts.1).map (·, parts.2)

theorem foldl_record (servers : Servers) (n : String) (rows : List ServerRow)
    (byName : String → Option String) :
    (rows.foldl (record servers) byName) n =
      if ∃ e ∈ rows, e.value.name = n ∧ (servers.getByName n).isSome then
        (servers.getByName n).map ResourceEntry.id
      else byName n := by
  induction rows generalizing byName with
  | nil => simp
  | cons e rows ih =>
    rw [List.foldl_cons, ih]
    by_cases hrest : ∃ e ∈ rows, e.value.name = n ∧ (servers.getByName n).isSome
    · obtain ⟨e', he', h⟩ := hrest
      rw [if_pos ⟨e', he', h⟩, if_pos ⟨e', List.mem_cons_of_mem e he', h⟩]
    · rw [if_neg hrest]
      unfold record
      by_cases hn : e.value.name = n
      · subst hn
        cases hown : servers.getByName e.value.name with
        | none =>
          rw [if_neg]
          rintro ⟨e', -, -, hsome⟩
          cases hsome
        | some owner =>
          rw [if_pos ⟨e, List.mem_cons_self, rfl, rfl⟩]
          simp
      · have hskip : ∀ owner : ServerRow,
            Function.update byName e.value.name (some owner.id) n = byName n :=
          fun owner => Function.update_of_ne (Ne.symm hn) _ _
        rw [if_neg]
        · cases servers.getByName e.value.name with
          | none => rfl
          | some owner => exact hskip owner
        · rintro ⟨e', he', h⟩
          rcases List.mem_cons.1 he' with rfl | he'
          · exact hn h.1
          · exact hrest ⟨e', he', h⟩

theorem build_byName (servers : Servers) (n : String) :
    (build servers).byName n = servers.byName n := by
  change (servers.rows.foldl (record servers) fun _ => none) n = _
  rw [foldl_record]
  cases h : servers.byName n with
  | none =>
    have hnone : servers.getByName n = none := by rw [ResourceTable.getByName, h]; rfl
    rw [hnone, if_neg]
    rintro ⟨e, -, -, hsome⟩
    cases hsome
  | some id =>
    obtain ⟨e, he, rfl, hname⟩ := servers.owned n id h
    have hget : servers.getByName n = some e := ResourceTable.getByName_eq_some.2 ⟨he, h⟩
    rw [hget, if_pos ⟨e, he, hname, rfl⟩]
    rfl

end McpServerIndex

section Acl

structure McpToolRef where
  serverId : String
  tool : String

def refMatches (entry : McpToolRef) (addressed : Option (String × String)) : Bool :=
  match addressed with
  | none => false
  | some (serverId, tool) => entry.serverId == serverId && wildcardMatches entry.tool tool

inductive AllowLayer where
  | all
  | patterns (patterns : List String)
  | refs (refs : List McpToolRef)

namespace AllowLayer

def fromPatterns (patterns : List String) : AllowLayer :=
  if patterns.any (· == "*") then all else .patterns patterns

def fromSides (patterns : List String) (ids : Option (List McpToolRef)) : AllowLayer :=
  match ids with
  | some rs => .refs rs
  | none => fromPatterns patterns

def admits (layer : AllowLayer) (name : String) (addressed : Option (String × String)) : Bool :=
  match layer with
  | .all => true
  | .patterns ps => ps.any (wildcardMatches · name)
  | .refs rs => rs.any (refMatches · addressed)

end AllowLayer

inductive DenyRule where
  | pattern (pattern : String)
  | ref (ref : McpToolRef)

namespace DenyRule

def fromSides (patterns : List String) (ids : Option (List McpToolRef)) : List DenyRule :=
  match ids with
  | some refs => refs.map .ref
  | none => patterns.map .pattern

def matchesName (rule : DenyRule) (name : String) (addressed : Option (String × String)) : Bool :=
  match rule with
  | .pattern p => wildcardMatches p name
  | .ref r => refMatches r addressed

end DenyRule

inductive McpPolicyScope where
  | env
  | team
  deriving DecidableEq

structure McpPolicy where
  scope : McpPolicyScope
  scopeRef : Option String
  allow : List String
  allowIds : Option (List McpToolRef)
  deny : List String
  denyIds : Option (List McpToolRef)
  enabled : Bool

structure McpAccess where
  allow : List String
  allowIds : Option (List McpToolRef)
  deny : List String
  denyIds : Option (List McpToolRef)

/-- What access control reads of a key. -/
structure ApiKey where
  teamId : Option String
  mcpAccess : Option McpAccess

inductive McpServerAllowlist where
  | names (names : List String)
  | ids (ids : List String)

structure ToolAcl where
  allow : List AllowLayer
  deny : List DenyRule
  servers : McpServerIndex

namespace ToolAcl

/-- An enabled policy of the environment, or of the key's team. -/
def applies (key : ApiKey) (policy : McpPolicy) : Bool :=
  policy.enabled &&
    (policy.scope == .env || (key.teamId.isSome && key.teamId == policy.scopeRef))

/-- The governing policy of a scope: the one with the lowest id. -/
def governing (scope : McpPolicyScope) (policies : List (ResourceEntry McpPolicy)) :
    Option (ResourceEntry McpPolicy) :=
  (policies.filter fun e => e.value.scope == scope).foldl (fun slot e =>
    match slot with
    | some current => if current.id ≤ e.id then slot else some e
    | none => some e) none

def resolve (policies : List (ResourceEntry McpPolicy)) (servers : McpServerIndex) (key : ApiKey) :
    ToolAcl :=
  let rows := policies.filter fun e => applies key e.value
  let policyAllow := [governing .env rows, governing .team rows].filterMap fun slot =>
    slot.map fun e => AllowLayer.fromSides e.value.allow e.value.allowIds
  let accessAllow := key.mcpAccess.toList.map fun a => AllowLayer.fromSides a.allow a.allowIds
  let allow := policyAllow ++ accessAllow
  { allow := if allow.isEmpty then [.patterns []] else allow
    deny := rows.flatMap (fun e => DenyRule.fromSides e.value.deny e.value.denyIds) ++
      key.mcpAccess.toList.flatMap fun a => DenyRule.fromSides a.deny a.denyIds
    servers }

/-- One more layer: the tools of the listed servers. -/
def narrowedToAllowlist (acl : ToolAcl) (allowlist : McpServerAllowlist) : ToolAcl :=
  { acl with allow := acl.allow ++ [match allowlist with
    | .names names =>
      .patterns ((names.filter fun s => !s.toList.contains '*').map (namespaced · "*"))
    | .ids ids => .refs (ids.map (McpToolRef.mk · "*"))] }

def permits (acl : ToolAcl) (name : String) : Bool :=
  let addressed := acl.servers.address name
  acl.allow.all (·.admits name addressed) && !acl.deny.any (·.matchesName name addressed)

/-- The caller's ACL: `resolve`, and the ceiling of an anonymous caller over it. -/
def ofCaller (policies : List (ResourceEntry McpPolicy)) (servers : Servers) (key : ApiKey)
    (ceiling : Option McpServerAllowlist) : ToolAcl :=
  let acl := resolve policies (McpServerIndex.build servers) key
  match ceiling with
  | some allowlist => acl.narrowedToAllowlist allowlist
  | none => acl

theorem servers_ofCaller (policies : List (ResourceEntry McpPolicy)) (servers : Servers)
    (key : ApiKey) (ceiling : Option McpServerAllowlist) :
    (ofCaller policies servers key ceiling).servers = McpServerIndex.build servers := by
  cases ceiling <;> rfl

end ToolAcl

end Acl

end Mcp
end Aisix
