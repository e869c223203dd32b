import Aisix.Least
import Aisix.Mcp.Acl
import Mathlib.Data.String.Basic

/-!
# Aisix.Mcp.Layers

What the layers of a tool ACL amount to, in whatever order the policies are listed
(`permits_resolve_iff`); that denials, an access block over a grant and an allowlist only narrow it;
and the check made before the tools of a server are known (`may_reach_server`), which turns away no
server with a tool that would be permitted.
-/

namespace Aisix
namespace Mcp

open ByteOffsets Etcd Glob

/-- Whether a `*` pattern can match a string that begins with `pre`. -/
def patternMayMatchPrefix (pattern pre : String) : Bool :=
  match splitOnce ['*'] pattern.toList with
  | none => pre.toList.isPrefixOf pattern.toList
  | some (head, _) =>
    if len pre.toList ≤ len head then pre.toList.isPrefixOf head else head.isPrefixOf pre.toList

/-- A denial of every name that begins with `pre`. -/
def DenyRule.coversServer (rule : DenyRule) (pre id : String) : Bool :=
  match rule with
  | .pattern p =>
    match stripSuffix ['*'] p.toList with
    | some head => !head.contains '*' && head.isPrefixOf pre.toList
    | none => false
  | .ref r => r.serverId == id && r.tool == "*"

/-- A layer with an entry that could match a tool of the server. -/
def AllowLayer.mayReach (layer : AllowLayer) (pre id : String) : Bool :=
  match layer with
  | .all => true
  | .patterns ps => ps.any (patternMayMatchPrefix · pre)
  | .refs rs => rs.any (·.serverId == id)

/-- The name a policy is indexed under. -/
def McpPolicy.name (policy : McpPolicy) : String := policy.scopeRef.getD "env"

abbrev Policies := ResourceTable McpPolicy McpPolicy.name

namespace ToolAcl

/-- Whether any tool of a registered server can be permitted, from the rules alone. -/
def mayReachServer (acl : ToolAcl) (name id : String) : Bool :=
  let pre := name ++ TOOL_NAMESPACE_SEPARATOR
  acl.allow.all (·.mayReach pre id) && !acl.deny.any (·.coversServer pre id)

/-- The allow sides that `resolve` finds. -/
def layers (policies : List (ResourceEntry McpPolicy)) (key : ApiKey) : List AllowLayer :=
  let rows := policies.filter fun e => applies key e.value
  ([governing .env rows, governing .team rows].filterMap fun slot =>
    slot.map fun e => AllowLayer.fromSides e.value.allow e.value.allowIds) ++
    key.mcpAccess.toList.map fun a => AllowLayer.fromSides a.allow a.allowIds

/-- `has_grant`: some layer is present. -/
def hasGrant (policies : List (ResourceEntry McpPolicy)) (key : ApiKey) : Bool :=
  !(layers policies key).isEmpty

end ToolAcl

/-! ### What the layers amount to -/

section Sides

variable (name : String) (addressed : Option (String × String))

/-- A side names the tool: by the server's id and the bare tool where it is written in ids, else by
a pattern. -/
def Names (patterns : List String) (ids : Option (List McpToolRef)) : Prop :=
  match ids with
  | some refs =>
    ∃ r ∈ refs, ∃ tool, addressed = some (r.serverId, tool) ∧ wildcardMatches r.tool tool = true
  | none => ∃ p ∈ patterns, wildcardMatches p name = true

theorem wildcardMatches_star : wildcardMatches "*" name = true := by
  have hfill : (fillStars "*" [name]).toList = [] ++ (name.toList ++ []) :=
    fillStars_single rfl List.not_mem_nil List.not_mem_nil name
  rw [List.append_nil, List.nil_append] at hfill
  exact (wildcardMatches_iff "*" name).2 ⟨[name], rfl, (String.toList_injective hfill).symm⟩

theorem refMatches_iff (r : McpToolRef) :
    refMatches r addressed = true ↔ ∃ tool, addressed = some (r.serverId, tool) ∧
      wildcardMatches r.tool tool = true := by
  unfold refMatches
  cases addressed with
  | none => simp
  | some parts =>
    obtain ⟨id, tool⟩ := parts
    simp only [Bool.and_eq_true, beq_iff_eq, Option.some.injEq, Prod.mk.injEq]
    constructor
    · rintro ⟨rfl, h⟩
      exact ⟨tool, ⟨rfl, rfl⟩, h⟩
    · rintro ⟨_, ⟨rfl, rfl⟩, h⟩
      exact ⟨rfl, h⟩

theorem admits_fromSides (patterns : List String) (ids : Option (List McpToolRef)) :
    (AllowLayer.fromSides patterns ids).admits name addressed = true ↔
    Names name addressed patterns ids := by
  cases ids with
  | some refs =>
    rw [AllowLayer.fromSides, AllowLayer.admits, List.any_eq_true]
    simp only [refMatches_iff, Names]
  | none =>
    rw [AllowLayer.fromSides, AllowLayer.fromPatterns]
    split
    · next hstar =>
      obtain ⟨p, hp, heq⟩ := List.any_eq_true.1 hstar
      rw [beq_iff_eq] at heq
      exact iff_of_true rfl ⟨p, hp, heq ▸ wildcardMatches_star name⟩
    · rw [AllowLayer.admits, List.any_eq_true]
      rfl

theorem any_matchesName_fromSides (patterns : List String) (ids : Option (List McpToolRef)) :
    (∃ rule ∈ DenyRule.fromSides patterns ids, rule.matchesName name addressed = true) ↔
      Names name addressed patterns ids := by
  cases ids with
  | some refs => simp [DenyRule.fromSides, DenyRule.matchesName, refMatches_iff, Names]
  | none => simp [DenyRule.fromSides, DenyRule.matchesName, Names]

end Sides

namespace ToolAcl

section Resolve

variable (policies : List (ResourceEntry McpPolicy)) (key : ApiKey)

/-- The policy that governs a scope: of those that apply, the one with the lowest id. -/
structure Governs (scope : McpPolicyScope) (e : ResourceEntry McpPolicy) : Prop where
  mem : e ∈ policies
  applies : applies key e.value = true
  scope_eq : e.value.scope = scope
  lowest : ∀ e' ∈ policies, ToolAcl.applies key e'.value = true →
    e'.value.scope = scope → e.id ≤ e'.id

/-- The allow sides of the layers that are present. -/
inductive Allows : List String → Option (List McpToolRef) → Prop where
  | policy {scope : McpPolicyScope} {e : ResourceEntry McpPolicy} :
      Governs policies key scope e → Allows e.value.allow e.value.allowIds
  | access {a : McpAccess} : key.mcpAccess = some a → Allows a.allow a.allowIds

/-- The deny sides: those of every policy that applies, and of the key. -/
inductive Denies : List String → Option (List McpToolRef) → Prop where
  | policy {e : ResourceEntry McpPolicy} : e ∈ policies → applies key e.value = true →
      Denies e.value.deny e.value.denyIds
  | access {a : McpAccess} : key.mcpAccess = some a → Denies a.deny a.denyIds

variable {policies} {key}

theorem governing_eq (scope : McpPolicyScope) (rows : List (ResourceEntry McpPolicy)) :
    governing scope rows = (rows.filter fun e => e.value.scope == scope).argmin (·.id) := by
  rw [governing, List.argmin]
  congr 1
  funext slot e
  cases slot with
  | none => rfl
  | some current =>
    rw [List.argAux]
    dsimp only
    by_cases hle : current.id ≤ e.id
    · rw [if_pos hle, if_neg (not_lt.2 hle)]
    · rw [if_neg hle, if_pos (not_le.1 hle)]

theorem inj_id (hnodup : (policies.map ResourceEntry.id).Nodup)
    (p : ResourceEntry McpPolicy → Bool) :
    ∀ a ∈ policies.filter p, ∀ b ∈ policies.filter p, a.id = b.id → a = b := fun _ ha _ hb heq =>
  List.inj_on_of_nodup_map hnodup (List.mem_of_mem_filter ha) (List.mem_of_mem_filter hb) heq

theorem governing_eq_some_iff (hnodup : (policies.map ResourceEntry.id).Nodup)
    {scope : McpPolicyScope} {e : ResourceEntry McpPolicy} :
    governing scope (policies.filter fun e => applies key e.value) = some e ↔
      Governs policies key scope e := by
  rw [governing_eq, List.filter_filter, Least.argmin_eq_some_iff (inj_id hnodup _)]
  simp only [List.mem_filter, Bool.and_eq_true, beq_iff_eq]
  constructor
  · rintro ⟨⟨hmem, hscope, happlies⟩, hlowest⟩
    exact ⟨hmem, happlies, hscope, fun e' hmem' happlies' hscope' => hlowest e'
      ⟨hmem', hscope', happlies'⟩⟩
  · intro h
    exact ⟨⟨h.mem, h.scope_eq, h.applies⟩, fun e' he' => h.lowest e' he'.1 he'.2.2 he'.2.1⟩

theorem mem_layers_iff (hnodup : (policies.map ResourceEntry.id).Nodup) {layer : AllowLayer} :
    layer ∈ layers policies key ↔ ∃ patterns ids, Allows policies key patterns ids ∧
      layer = .fromSides patterns ids := by
  rw [layers, List.mem_append, List.mem_filterMap, List.mem_map]
  constructor
  · rintro (⟨slot, hslot, hlayer⟩ | ⟨a, ha, rfl⟩)
    · obtain ⟨e, he, rfl⟩ := Option.map_eq_some_iff.1 hlayer
      have hgoverns : ∃ scope, Governs policies key scope e := by
        rcases List.mem_cons.1 hslot with hslot | hslot
        · exact ⟨.env, (governing_eq_some_iff hnodup).1 (hslot ▸ he)⟩
        · exact ⟨.team, (governing_eq_some_iff hnodup).1 (List.mem_singleton.1 hslot ▸ he)⟩
      obtain ⟨scope, hgoverns⟩ := hgoverns
      exact ⟨_, _, .policy hgoverns, rfl⟩
    · exact ⟨_, _, .access (Option.mem_toList.1 ha), rfl⟩
  · rintro ⟨patterns, ids, hallows, rfl⟩
    cases hallows with
    | @policy scope e hgoverns =>
      refine .inl ⟨some e, ?_, rfl⟩
      rw [← (governing_eq_some_iff hnodup).2 hgoverns]
      cases scope with
      | env => exact List.mem_cons_self
      | team => exact List.mem_cons_of_mem _ (List.mem_singleton_self _)
    | @access a ha => exact .inr ⟨a, Option.mem_toList.2 ha, rfl⟩

theorem allow_resolve (ix : McpServerIndex) :
    (resolve policies ix key).allow =
    if (layers policies key).isEmpty then [.patterns []] else layers policies key := rfl

theorem mem_deny_resolve_iff (ix : McpServerIndex) {rule : DenyRule} :
    rule ∈ (resolve policies ix key).deny ↔
      ∃ patterns ids, Denies policies key patterns ids ∧
        rule ∈ DenyRule.fromSides patterns ids := by
  change rule ∈ (policies.filter fun e => applies key e.value).flatMap
    (fun e => DenyRule.fromSides e.value.deny e.value.denyIds) ++ key.mcpAccess.toList.flatMap
      (fun a => DenyRule.fromSides a.deny a.denyIds) ↔ _
  rw [List.mem_append, List.mem_flatMap, List.mem_flatMap]
  constructor
  · rintro (⟨e, he, hrule⟩ | ⟨a, ha, hrule⟩)
    · obtain ⟨hmem, happlies⟩ := List.mem_filter.1 he
      exact ⟨_, _, .policy hmem happlies, hrule⟩
    · exact ⟨_, _, .access (Option.mem_toList.1 ha), hrule⟩
  · rintro ⟨patterns, ids, hdenies, hrule⟩
    cases hdenies with
    | policy hmem happlies => exact .inl ⟨_, List.mem_filter.2 ⟨hmem, happlies⟩, hrule⟩
    | access ha => exact .inr ⟨_, Option.mem_toList.2 ha, hrule⟩

/-- A tool is permitted if some layer is present, every one that is names it, and no denial does. -/
theorem permits_resolve_iff (hnodup : (policies.map ResourceEntry.id).Nodup) (ix : McpServerIndex)
    (name : String) :
    (resolve policies ix key).permits name = true ↔
      (∃ patterns ids, Allows policies key patterns ids) ∧
        (∀ patterns ids, Allows policies key patterns ids →
          Names name (ix.address name) patterns ids) ∧
        ∀ patterns ids, Denies policies key patterns ids →
          ¬ Names name (ix.address name) patterns ids := by
  have hdeny : (!(resolve policies ix key).deny.any (·.matchesName name (ix.address name))) = true ↔
      ∀ patterns ids, Denies policies key patterns ids →
        ¬ Names name (ix.address name) patterns ids := by
    rw [Bool.not_eq_true', List.any_eq_false]
    constructor
    · intro h patterns ids hdenies hnames
      obtain ⟨rule, hrule, hmatches⟩ := (any_matchesName_fromSides ..).2 hnames
      exact h rule ((mem_deny_resolve_iff ix).2 ⟨_, _, hdenies, hrule⟩) hmatches
    · intro h rule hrule hmatches
      obtain ⟨patterns, ids, hdenies, hside⟩ := (mem_deny_resolve_iff ix).1 hrule
      exact h patterns ids hdenies ((any_matchesName_fromSides ..).1 ⟨rule, hside, hmatches⟩)
  have hallow : ((resolve policies ix key).allow.all (·.admits name (ix.address name))) = true ↔
      (∃ patterns ids, Allows policies key patterns ids) ∧
        ∀ patterns ids, Allows policies key patterns ids →
          Names name (ix.address name) patterns ids := by
    rw [allow_resolve]
    split
    · next hempty =>
      refine iff_of_false (fun h => Bool.false_ne_true h) ?_
      rintro ⟨⟨patterns, ids, hallows⟩, -⟩
      have hmem := (mem_layers_iff hnodup).2 ⟨_, _, hallows, rfl⟩
      rw [List.isEmpty_iff.1 hempty] at hmem
      cases hmem
    · next hsome =>
      rw [List.all_eq_true]
      constructor
      · intro h
        obtain ⟨layer, hlayer⟩ := List.exists_mem_of_ne_nil _ (mt List.isEmpty_iff.2 hsome)
        obtain ⟨patterns, ids, hallows, -⟩ := (mem_layers_iff hnodup).1 hlayer
        exact ⟨⟨patterns, ids, hallows⟩, fun patterns ids hallows =>
          (admits_fromSides ..).1 (h _ ((mem_layers_iff hnodup).2 ⟨_, _, hallows, rfl⟩))⟩
      · rintro ⟨-, h⟩ layer hlayer
        obtain ⟨patterns, ids, hallows, rfl⟩ := (mem_layers_iff hnodup).1 hlayer
        exact (admits_fromSides ..).2 (h patterns ids hallows)
  change ((resolve policies ix key).allow.all (·.admits name (ix.address name)) &&
    !(resolve policies ix key).deny.any (·.matchesName name (ix.address name))) = true ↔ _
  rw [Bool.and_eq_true, hallow, hdeny, and_assoc]

/-! ### Any order of the policies -/

theorem layers_perm (hnodup : (policies.map ResourceEntry.id).Nodup)
    {order : List (ResourceEntry McpPolicy)}
    (h : policies.Perm order) : layers order key = layers policies key := by
  have hgoverning : ∀ scope, governing scope (order.filter fun e => applies key e.value) =
      governing scope (policies.filter fun e => applies key e.value) := by
    intro scope
    rw [governing_eq, governing_eq, List.filter_filter, List.filter_filter]
    exact Least.argmin_perm (inj_id hnodup _) (h.filter _)
  unfold layers
  dsimp only
  rw [hgoverning, hgoverning]

theorem resolve_perm (hnodup : (policies.map ResourceEntry.id).Nodup)
    {order : List (ResourceEntry McpPolicy)} (h : policies.Perm order) (ix : McpServerIndex) :
    (resolve order ix key).allow = (resolve policies ix key).allow ∧
      (resolve policies ix key).deny.Perm (resolve order ix key).deny ∧
      hasGrant order key = hasGrant policies key := by
  refine ⟨by
    rw [allow_resolve, allow_resolve, layers_perm hnodup h], ?_, by
      rw [hasGrant, hasGrant, layers_perm hnodup h]⟩
  exact ((h.filter _).flatMap_right _).append_right _

theorem any_perm {α : Type} {l l' : List α} (h : l.Perm l') (p : α → Bool) :
    l.any p = l'.any p := by
  rw [Bool.eq_iff_iff, List.any_eq_true, List.any_eq_true]
  simp only [h.mem_iff]

theorem decisions_perm (hnodup : (policies.map ResourceEntry.id).Nodup)
    {order : List (ResourceEntry McpPolicy)} (h : policies.Perm order) (ix : McpServerIndex) :
    (∀ name, (resolve order ix key).permits name = (resolve policies ix key).permits name) ∧
      (∀ name id, (resolve order ix key).mayReachServer name id =
        (resolve policies ix key).mayReachServer name id) ∧
      hasGrant order key = hasGrant policies key := by
  obtain ⟨hallow, hdeny, hgrant⟩ := @resolve_perm _ key hnodup _ h ix
  refine ⟨fun name => ?_, fun name id => ?_, hgrant⟩
  · change (_ && !(resolve order ix key).deny.any (·.matchesName name (ix.address name))) = (_ &&
      !(resolve policies ix key).deny.any (·.matchesName name (ix.address name)))
    rw [hallow, any_perm hdeny]
    rfl
  · unfold mayReachServer
    dsimp only
    rw [hallow, any_perm hdeny]

end Resolve

/-! ### Narrowing -/

section Narrowing

variable {policies : List (ResourceEntry McpPolicy)} {key : ApiKey}

/-- The side with one more entry in the spelling it is written in. -/
def addDenial (deny : List String) (ids : Option (List McpToolRef)) :
    DenyRule → List String × Option (List McpToolRef)
  | .pattern p => (deny ++ [p], ids)
  | .ref r => (deny, ids.map (· ++ [r]))

def denyInPolicy (rule : DenyRule) (policy : McpPolicy) : McpPolicy :=
  { policy with
    deny := (addDenial policy.deny policy.denyIds rule).1
    denyIds := (addDenial policy.deny policy.denyIds rule).2 }

/-- One more entry on the deny side of the policy of that id. -/
def denyInRow (id : String) (rule : DenyRule) (e : ResourceEntry McpPolicy) :
    ResourceEntry McpPolicy :=
  if e.id = id then { e with value := denyInPolicy rule e.value } else e

/-- One more entry on the deny side of the key's own block. -/
def denyInKey (rule : DenyRule) (key : ApiKey) : ApiKey :=
  { key with mcpAccess := key.mcpAccess.map fun a =>
    { a with deny := (addDenial a.deny a.denyIds rule).1, denyIds := (addDenial a.deny
      a.denyIds rule).2 } }

theorem names_addDenial {name : String} {addressed : Option (String × String)} {deny : List String}
    {ids : Option (List McpToolRef)} (rule : DenyRule) (h : Names name addressed deny ids) :
    Names name addressed (addDenial deny ids rule).1 (addDenial deny ids rule).2 := by
  cases ids with
  | some refs =>
    obtain ⟨r, hr, hnames⟩ := h
    cases rule with
    | pattern p => exact ⟨r, hr, hnames⟩
    | ref r' => exact ⟨r, List.mem_append_left _ hr, hnames⟩
  | none =>
    obtain ⟨p, hp, hnames⟩ := h
    cases rule with
    | pattern p' => exact ⟨p, List.mem_append_left _ hp, hnames⟩
    | ref r' => exact ⟨p, hp, hnames⟩

theorem permits_of_narrower {policies' : List (ResourceEntry McpPolicy)} {key' : ApiKey}
    (hnodup : (policies.map ResourceEntry.id).Nodup)
    (hnodup' : (policies'.map ResourceEntry.id).Nodup) (ix : McpServerIndex)
    (hgrant : (∃ patterns ids, Allows policies' key' patterns ids) →
      ∃ patterns ids, Allows policies key patterns ids)
    (hallows : ∀ patterns ids, Allows policies key patterns ids →
      Allows policies' key' patterns ids)
    (hdenies : ∀ patterns ids name addressed, Denies policies key patterns ids →
    Names name addressed patterns ids →
      ∃ patterns' ids', Denies policies' key' patterns' ids' ∧ Names name addressed patterns' ids')
    {name : String} (h : (resolve policies' ix key').permits name = true) :
    (resolve policies ix key).permits name = true := by
  obtain ⟨hsome, hall, hnone⟩ := (permits_resolve_iff hnodup' ix name).1 h
  refine (permits_resolve_iff hnodup ix name).2
    ⟨hgrant hsome, fun patterns ids ha => hall _ _ (hallows _ _ ha), ?_⟩
  intro patterns ids hd hnames
  obtain ⟨patterns', ids', hd', hnames'⟩ := hdenies _ _ _ _ hd hnames
  exact hnone _ _ hd' hnames'

theorem denyInRow_id (id : String) (rule : DenyRule) (e : ResourceEntry McpPolicy) :
    (denyInRow id rule e).id = e.id := by
  unfold denyInRow
  split <;> rfl

theorem denyInRow_value (id : String) (rule : DenyRule) (e : ResourceEntry McpPolicy) :
    (denyInRow id rule e).value = e.value ∨
    (denyInRow id rule e).value = denyInPolicy rule e.value := by
  unfold denyInRow
  split
  · exact .inr rfl
  · exact .inl rfl

theorem governs_denyInRow_iff {id : String} {rule : DenyRule} {scope : McpPolicyScope}
    {e : ResourceEntry McpPolicy} (he : e ∈ policies) :
    Governs (policies.map (denyInRow id rule)) key scope (denyInRow id rule e) ↔
      Governs policies key scope e := by
  have hscope : ∀ e, (denyInRow id rule e).value.scope = e.value.scope := fun e => by
    rcases denyInRow_value id rule e with h | h
    · rw [h]
    · rw [h]; rfl
  have happlies : ∀ e, applies key (denyInRow id rule e).value = applies key e.value := fun e => by
    rcases denyInRow_value id rule e with h | h
    · rw [h]
    · rw [h]; rfl
  constructor
  · intro h
    refine ⟨he, (happlies e).symm.trans h.applies, (hscope e).symm.trans h.scope_eq,
      fun e' he' ha hs => ?_⟩
    have hle := h.lowest _ (List.mem_map_of_mem he') ((happlies e').trans ha) ((hscope e').trans hs)
    rwa [denyInRow_id, denyInRow_id] at hle
  · intro h
    refine ⟨List.mem_map_of_mem he, (happlies e).trans h.applies, (hscope e).trans h.scope_eq,
      fun x hx ha hs => ?_⟩
    obtain ⟨e', he', rfl⟩ := List.mem_map.1 hx
    rw [denyInRow_id, denyInRow_id]
    exact h.lowest e' he' ((happlies e').symm.trans ha) ((hscope e').symm.trans hs)

theorem nodup_denyInRow (hnodup : (policies.map ResourceEntry.id).Nodup) (id : String)
    (rule : DenyRule) :
    ((policies.map (denyInRow id rule)).map ResourceEntry.id).Nodup := by
  rw [List.map_map]
  exact (List.map_congr_left fun e _ => denyInRow_id id rule e) ▸ hnodup

theorem permits_of_denyInRow (hnodup : (policies.map ResourceEntry.id).Nodup) (ix : McpServerIndex)
    (id : String) (rule : DenyRule) {name : String}
    (h : (resolve (policies.map (denyInRow id rule)) ix key).permits name = true) :
    (resolve policies ix key).permits name = true := by
  have hallow : ∀ e, (denyInRow id rule e).value.allow = e.value.allow ∧
      (denyInRow id rule e).value.allowIds = e.value.allowIds := fun e => by
    rcases denyInRow_value id rule e with h | h <;> rw [h] <;> exact ⟨rfl, rfl⟩
  have hallows : ∀ patterns ids, Allows policies key patterns ids →
      Allows (policies.map (denyInRow id rule)) key patterns ids := by
    intro patterns ids ha
    cases ha with
    | @policy scope e hg =>
      rw [← (hallow e).1, ← (hallow e).2]
      exact .policy ((governs_denyInRow_iff hg.mem).2 hg)
    | access ha => exact .access ha
  refine permits_of_narrower hnodup (nodup_denyInRow hnodup id rule) ix ?_ hallows ?_ h
  · -- the row that governs a scope is the row that governed it before
    rintro ⟨patterns, ids, ha⟩
    cases ha with
    | @policy scope e' hg =>
      obtain ⟨e, he, rfl⟩ := List.mem_map.1 hg.mem
      exact ⟨_, _, .policy ((governs_denyInRow_iff he).1 hg)⟩
    | access ha => exact ⟨_, _, .access ha⟩
  · intro patterns ids name addressed hd hnames
    cases hd with
    | @policy e he happlies =>
      have hmem : denyInRow id rule e ∈ policies.map (denyInRow id rule) := List.mem_map_of_mem he
      rcases denyInRow_value id rule e with hvalue | hvalue
      · exact ⟨_, _, .policy hmem (hvalue ▸ happlies), hvalue ▸ hnames⟩
      · refine ⟨_, _, .policy hmem (hvalue ▸ happlies), ?_⟩
        rw [hvalue]
        exact names_addDenial rule hnames
    | access ha => exact ⟨_, _, .access ha, hnames⟩

theorem permits_of_denyInKey (hnodup : (policies.map ResourceEntry.id).Nodup) (ix : McpServerIndex)
    (rule : DenyRule) {name : String}
    (h : (resolve policies ix (denyInKey rule key)).permits name = true) :
    (resolve policies ix key).permits name = true := by
  have hgoverns : ∀ {scope e}, Governs policies (denyInKey rule key) scope e ↔
      Governs policies key scope e := fun {scope e} =>
    ⟨fun hg => ⟨hg.mem, hg.applies, hg.scope_eq, hg.lowest⟩,
      fun hg => ⟨hg.mem, hg.applies, hg.scope_eq, hg.lowest⟩⟩
  refine permits_of_narrower hnodup hnodup ix ?_ ?_ ?_ h
  · rintro ⟨patterns, ids, ha⟩
    cases ha with
    | policy hg => exact ⟨_, _, .policy (hgoverns.1 hg)⟩
    | access ha =>
      obtain ⟨a, ha, -⟩ := Option.map_eq_some_iff.1 ha
      exact ⟨_, _, .access ha⟩
  · intro patterns ids ha
    cases ha with
    | policy hg => exact .policy (hgoverns.2 hg)
    | @access a ha =>
      have hblock : (denyInKey rule key).mcpAccess = some { a with
          deny :=
            (addDenial a.deny a.denyIds rule).1, denyIds := (addDenial a.deny a.denyIds rule).2 } :=
        Option.map_eq_some_iff.2 ⟨a, ha, rfl⟩
      have hallows : Allows policies (denyInKey rule key) _ _ := .access hblock
      exact hallows
  · intro patterns ids name addressed hd hnames
    cases hd with
    | policy he happlies => exact ⟨_, _, .policy he happlies, hnames⟩
    | @access a ha =>
      exact ⟨_, _, .access (Option.map_eq_some_iff.2 ⟨a, ha, rfl⟩), names_addDenial rule hnames⟩

theorem permits_of_access (hnodup : (policies.map ResourceEntry.id).Nodup) (ix : McpServerIndex)
    (a : McpAccess) (hnone : key.mcpAccess = none) (hgrant : hasGrant policies key = true)
    {name : String}
    (h : (resolve policies ix { key with mcpAccess := some a }).permits name = true) :
    (resolve policies ix key).permits name = true := by
  have hgoverns : ∀ {scope e}, Governs policies key scope e →
      Governs policies { key with mcpAccess := some a } scope e :=
    fun hg => ⟨hg.mem, hg.applies, hg.scope_eq, hg.lowest⟩
  refine permits_of_narrower hnodup hnodup ix (fun _ => ?_) ?_ ?_ h
  · rw [hasGrant, Bool.not_eq_true'] at hgrant
    obtain ⟨layer, hlayer⟩ := List.exists_mem_of_ne_nil (layers policies key) fun heq => by
      rw [heq] at hgrant
      cases hgrant
    obtain ⟨patterns, ids, ha, -⟩ := (mem_layers_iff hnodup).1 hlayer
    exact ⟨patterns, ids, ha⟩
  · intro patterns ids ha
    cases ha with
    | policy hg => exact .policy (hgoverns hg)
    | access ha =>
      rw [hnone] at ha
      cases ha
  · intro patterns ids name addressed hd hnames
    cases hd with
    | policy he happlies => exact ⟨_, _, .policy he happlies, hnames⟩
    | access ha =>
      rw [hnone] at ha
      cases ha

theorem permits_of_narrowedToAllowlist {acl : ToolAcl} {allowlist : McpServerAllowlist}
    {name : String}
    (h : (acl.narrowedToAllowlist allowlist).permits name = true) : acl.permits name = true := by
  unfold permits narrowedToAllowlist at h
  dsimp only at h
  rw [List.all_append, Bool.and_eq_true, Bool.and_eq_true] at h
  exact Bool.and_eq_true_iff.2 ⟨h.1.1, h.2⟩

end Narrowing

/-! ### What the rules alone can tell -/

section Reach

theorem toList_prefix (name t : String) :
    (namespaced name t).toList = (name ++ TOOL_NAMESPACE_SEPARATOR).toList ++ t.toList := by
  rw [namespaced, String.toList_append]

/-- The literal before the first star and the prefix are compared as far as both go. -/
theorem patternMayMatchPrefix_of_matches {pattern pre t : String}
    (h : Matches '*' pattern.toList (pre.toList ++ t.toList)) :
    patternMayMatchPrefix pattern pre = true := by
  unfold patternMayMatchPrefix
  cases hsplit : splitOnce ['*'] pattern.toList with
  | none =>
    rw [List.isPrefixOf_iff_prefix, ← (matches_literal_iff (notMem_of_splitOnce hsplit)).1 h]
    exact List.prefix_append _ _
  | some parts =>
    obtain ⟨front, tail⟩ := parts
    obtain ⟨hpattern, hfront⟩ := splitOnce_letter_iff.1 hsplit
    rw [hpattern] at h
    obtain ⟨a, b, hword, ha, -⟩ := matches_append_iff.1 h
    have hhead : front <+: pre.toList ++ t.toList :=
      ⟨b, by rw [hword, (matches_literal_iff hfront).1 ha]⟩
    dsimp only
    split
    · next hlen =>
      rw [List.isPrefixOf_iff_prefix]
      rcases List.prefix_or_prefix_of_prefix hhead (List.prefix_append _ _) with ⟨u, hu⟩ | hpre
      · rw [← hu, len_append] at hlen
        have hlength := length_le_len u
        have hnil : u = [] := List.length_eq_zero_iff.1 (by omega)
        rw [← hu, hnil, List.append_nil]
      · exact hpre
    · next hlen =>
      rw [List.isPrefixOf_iff_prefix]
      rcases List.prefix_or_prefix_of_prefix hhead (List.prefix_append _ _) with hpre | ⟨u, hu⟩
      · exact hpre
      · rw [← hu, len_append] at hlen
        omega

theorem exists_matches_of_patternMayMatchPrefix {pattern pre : String}
    (h : patternMayMatchPrefix pattern pre = true) : ∃ t : String,
    Matches '*' pattern.toList (pre.toList ++ t.toList) := by
  unfold patternMayMatchPrefix at h
  cases hsplit : splitOnce ['*'] pattern.toList with
  | none =>
    rw [hsplit] at h
    obtain ⟨t, ht⟩ := List.isPrefixOf_iff_prefix.1 h
    refine ⟨String.ofList t, (matches_literal_iff (notMem_of_splitOnce hsplit)).2 ?_⟩
    rw [String.toList_ofList, ht]
  | some parts =>
    obtain ⟨front, tail⟩ := parts
    obtain ⟨hpattern, hfront⟩ := splitOnce_letter_iff.1 hsplit
    have hfill : ∀ g, Matches '*' pattern.toList (front ++ (g ++ fill '*' tail [])) := fun g =>
      hpattern ▸ matches_append_iff.2 ⟨front, _, rfl, (matches_literal_iff hfront).2 rfl,
        .gap g (matches_fill tail [])⟩
    rw [hsplit] at h
    dsimp only at h
    split at h
    · obtain ⟨u, hu⟩ := List.isPrefixOf_iff_prefix.1 h
      refine ⟨String.ofList (u ++ fill '*' tail []), ?_⟩
      rw [String.toList_ofList, ← List.append_assoc, hu]
      exact hfill []
    · obtain ⟨u, hu⟩ := List.isPrefixOf_iff_prefix.1 h
      refine ⟨String.ofList (fill '*' tail []), ?_⟩
      rw [String.toList_ofList, ← hu, List.append_assoc]
      exact hfill u

theorem matchesName_of_coversServer {rule : DenyRule} {name id : String}
    (h : rule.coversServer (name ++ TOOL_NAMESPACE_SEPARATOR) id = true) (t : String) :
    rule.matchesName (namespaced name t) (some (id, t)) = true := by
  cases rule with
  | pattern p =>
    rw [DenyRule.coversServer] at h
    split at h
    · next head hhead =>
      obtain ⟨hstar, hprefix⟩ := Bool.and_eq_true_iff.1 h
      obtain ⟨u, hu⟩ := List.isPrefixOf_iff_prefix.1 hprefix
      have hmem : '*' ∉ head := by simpa using hstar
      rw [DenyRule.matchesName, wildcardMatches_iff_matches, stripSuffix_eq_some.1 hhead,
        toList_prefix, ← hu]
      exact (matches_single_iff hmem List.not_mem_nil).2
        ⟨u ++ t.toList, by rw [List.append_nil, List.append_assoc]⟩
    · cases h
  | ref r =>
    obtain ⟨hid, htool⟩ := Bool.and_eq_true_iff.1 h
    rw [DenyRule.matchesName, refMatches_iff]
    exact ⟨t, by rw [beq_iff_eq.1 hid], by rw [beq_iff_eq.1 htool]; exact wildcardMatches_star t⟩

theorem mayReach_of_admits {layer : AllowLayer} {name id t : String}
    (h : layer.admits (namespaced name t) (some (id, t)) = true) :
    layer.mayReach (name ++ TOOL_NAMESPACE_SEPARATOR) id = true := by
  cases layer with
  | all => rfl
  | patterns ps =>
    obtain ⟨p, hp, hmatches⟩ := List.any_eq_true.1 h
    rw [wildcardMatches_iff_matches, toList_prefix] at hmatches
    exact List.any_eq_true.2 ⟨p, hp, patternMayMatchPrefix_of_matches hmatches⟩
  | refs rs =>
    obtain ⟨r, hr, hmatches⟩ := List.any_eq_true.1 h
    obtain ⟨tool, haddressed, -⟩ := (refMatches_iff _ r).1 hmatches
    exact List.any_eq_true.2
      ⟨r, hr, by rw [beq_iff_eq, (Prod.mk.inj (Option.some.inj haddressed)).1]⟩

/-- The name of a tool of a registered server leads to the row that owns the name. -/
theorem address_namespaced {servers : Servers} {e : ServerRow}
    (h : servers.getByName e.value.name = some e) (t : String) :
    (McpServerIndex.build servers).address (namespaced e.value.name t) = some (e.id, t) := by
  rw [McpServerIndex.address, splitName_namespaced e.value.rule, Option.bind_some,
    McpServerIndex.build_byName, (ResourceTable.getByName_eq_some.1 h).2]
  rfl

theorem mayReachServer_of_permits {servers : Servers} {acl : ToolAcl}
    (hix : acl.servers = McpServerIndex.build servers) {e : ServerRow}
    (he : servers.getByName e.value.name = some e) {t : String}
    (h : acl.permits (namespaced e.value.name t) = true) :
    acl.mayReachServer e.value.name e.id = true := by
  unfold permits at h
  rw [hix, address_namespaced he] at h
  obtain ⟨hallow, hdeny⟩ := Bool.and_eq_true_iff.1 h
  refine Bool.and_eq_true_iff.2 ⟨?_, ?_⟩
  · rw [List.all_eq_true] at hallow ⊢
    exact fun layer hlayer => mayReach_of_admits (hallow layer hlayer)
  · rw [Bool.not_eq_true', List.any_eq_false] at hdeny ⊢
    exact fun rule hrule hcovers => hdeny rule hrule (matchesName_of_coversServer hcovers t)

theorem exists_tool_of_counted {servers : Servers} {e : ServerRow}
    (he : servers.getByName e.value.name = some e) :
    (∀ p, patternMayMatchPrefix p (e.value.name ++ TOOL_NAMESPACE_SEPARATOR) = true →
      ∃ t, wildcardMatches p (namespaced e.value.name t) = true) ∧
      ∀ r : McpToolRef, r.serverId = e.id →
        ∃ t, refMatches r ((McpServerIndex.build servers).address (namespaced e.value.name t)) =
          true := by
  constructor
  · intro p hp
    obtain ⟨t, ht⟩ := exists_matches_of_patternMayMatchPrefix hp
    exact ⟨t, by rw [wildcardMatches_iff_matches, toList_prefix]; exact ht⟩
  · intro r hr
    refine ⟨String.ofList (fill '*' r.tool.toList []), ?_⟩
    rw [address_namespaced he, refMatches_iff]
    refine ⟨_, by rw [hr], ?_⟩
    rw [wildcardMatches_iff_matches, String.toList_ofList]
    exact matches_fill _ _

end Reach

/-- The layers only narrow, in any order of the policies, and the check of a whole server agrees
with them. -/
theorem resolve_spec (policies : Policies) (servers : Servers) (key : ApiKey) :
    (∀ order, policies.rows.Perm order →
      (∀ name, (resolve order (.build servers) key).permits name =
        (resolve policies.rows (.build servers) key).permits name) ∧
      (∀ name id, (resolve order (.build servers) key).mayReachServer name id =
        (resolve policies.rows (.build servers) key).mayReachServer name id) ∧
      hasGrant order key = hasGrant policies.rows key) ∧
    (∀ name, (resolve policies.rows (.build servers) key).permits name = true ↔
      (∃ patterns ids, Allows policies.rows key patterns ids) ∧
        (∀ patterns ids, Allows policies.rows key patterns ids →
          Names name ((McpServerIndex.build servers).address name) patterns ids) ∧
        ∀ patterns ids, Denies policies.rows key patterns ids →
          ¬ Names name ((McpServerIndex.build servers).address name) patterns ids) ∧
    (∀ name,
      (∀ id rule,
        (resolve (policies.rows.map (denyInRow id rule)) (.build servers) key).permits name = true →
            (resolve policies.rows (.build servers) key).permits name = true) ∧
      (∀ rule, (resolve policies.rows (.build servers) (denyInKey rule key)).permits name = true →
          (resolve policies.rows (.build servers) key).permits name = true) ∧
      (∀ access, key.mcpAccess = none → hasGrant policies.rows key = true →
        (resolve policies.rows (.build servers) { key with mcpAccess := some access }).permits
        name = true →
          (resolve policies.rows (.build servers) key).permits name = true) ∧
      ∀ (acl : ToolAcl) (allowlist : McpServerAllowlist),
        (acl.narrowedToAllowlist allowlist).permits name = true → acl.permits name = true) ∧
    ∀ (ceiling : Option McpServerAllowlist) (e : ServerRow),
      servers.getByName e.value.name = some e →
      ((ofCaller policies.rows servers key ceiling).mayReachServer e.value.name e.id = false →
        ∀ t, (ofCaller policies.rows servers key ceiling).permits (namespaced e.value.name t) =
          false) ∧
      (∀ p, patternMayMatchPrefix p (e.value.name ++ TOOL_NAMESPACE_SEPARATOR) = true →
        ∃ t, wildcardMatches p (namespaced e.value.name t) = true) ∧
      ∀ r : McpToolRef, r.serverId = e.id →
        ∃ t, refMatches r ((McpServerIndex.build servers).address (namespaced e.value.name t)) =
          true := by
  refine ⟨fun order h => decisions_perm policies.nodup h _,
    fun name => permits_resolve_iff policies.nodup _ name, fun name => ⟨?_, ?_, ?_, ?_⟩,
    fun ceiling e he => ⟨fun h t => ?_, exists_tool_of_counted he⟩⟩
  · exact fun id rule => permits_of_denyInRow policies.nodup _ id rule
  · exact fun rule => permits_of_denyInKey policies.nodup _ rule
  · exact fun access hnone hgrant => permits_of_access policies.nodup _ access hnone hgrant
  · exact fun acl allowlist => permits_of_narrowedToAllowlist
  · rw [Bool.eq_false_iff] at h ⊢
    exact fun hpermits => h (mayReachServer_of_permits (servers_ofCaller ..) he hpermits)

end ToolAcl

end Mcp
end Aisix
