import Aisix.Mcp.Acl

/-!
# Aisix.Mcp.Gateway

The MCP gateway over a snapshot's servers, aggregated or scoped to one of them: what `tools/list`
advertises, and where `tools/call` goes.

Listing and calling agree on every gateway (`Built`). The aggregated gateway keeps the first row of
a name in the table's order, while access control asks the row the name index owns; `same_tool_iff`
says that nothing else can keep the two from speaking of the same tool.
-/

namespace Aisix
namespace Mcp

open Etcd

structure ScopedServer where
  name : String
  /-- Every other registered server's name, enabled or not. -/
  foreign : List String

namespace ScopedServer

def isForeign (scope : ScopedServer) (name : String) : Bool :=
  scope.foreign.any fun f => (stripServerPrefix f name).isSome

def roundTrips (scope : ScopedServer) (bare : String) : Bool :=
  (stripServerPrefix scope.name bare).isNone && !scope.isForeign bare

/-- The name a tool is listed under on the server's own endpoint. -/
def shown (scope : ScopedServer) (name : String) : String :=
  match stripServerPrefix scope.name name with
  | some bare => if scope.roundTrips bare then bare else name
  | none => name

end ScopedServer

structure McpGateway where
  upstreams : List (String × ServerRow)
  toolAcl : ToolAcl
  scope : Option ScopedServer

/-- Why a call is refused before it reaches an upstream. -/
inductive CallError where
  | notAvailable (name : String)
  | missingPrefix (name : String)
  deriving DecidableEq

def CallError.message : CallError → String
  | notAvailable name => "tool '" ++ name ++ "' is not available"
  | missingPrefix name => "tool name '" ++ name ++ "' is missing a 'server__tool' prefix"

namespace McpGateway

/-- The first registration of a name wins. -/
def keepFirst : List String → List (String × ServerRow) → List (String × ServerRow)
  | _, [] => []
  | seen, u :: us => if u.1 ∈ seen then keepFirst seen us else u :: keepFirst (u.1 :: seen) us

def new (upstreams : List (String × ServerRow)) (acl : ToolAcl) : McpGateway :=
  ⟨keepFirst [] upstreams, acl, none⟩

def fromSnapshotForRequest (servers : Servers) (acl : ToolAcl) (sourceIp : String) : McpGateway :=
  new ((servers.rows.filter fun e => e.value.enabled && e.value.ipAllowed sourceIp).map
    fun e => (e.value.name, e)) acl

def fromSnapshotScopedForRequest (servers : Servers) (server : String) (acl : ToolAcl)
    (sourceIp : String) : Option McpGateway :=
  match servers.getByName server with
  | none => none
  | some entry =>
    if !entry.value.ipAllowed sourceIp then none
    else if !entry.value.enabled then none
    else
      let name := entry.value.name
      let foreign := (servers.rows.filter fun e => e.value.name ≠ name).map fun e => e.value.name
      some { new [(name, entry)] acl with scope := some ⟨name, foreign⟩ }

def find (gw : McpGateway) (server : String) : Option ServerRow :=
  (gw.upstreams.find? fun u => u.1 == server).map Prod.snd

/-- The name a server's tool is advertised under. -/
def advertisedName (gw : McpGateway) (server tool : String) : String :=
  match gw.scope with
  | some scope => scope.shown (namespaced server tool)
  | none => namespaced server tool

/-- `listed` has what each upstream reports, `none` where listing it fails. -/
def listTools (gw : McpGateway) (listed : ServerRow → Option (List String)) : List String :=
  let tools := gw.upstreams.flatMap fun u => ((listed u.2).getD []).map (namespaced u.1)
  let tools := tools.filter gw.toolAcl.permits
  match gw.scope with
  | some scope => tools.map scope.shown
  | none => tools

/-- The server, the tool and the namespaced form a called name stands for. -/
def resolveName (gw : McpGateway) (name : String) : Except CallError (String × String × String) :=
  match gw.scope with
  | some scope =>
    match stripServerPrefix scope.name name with
    | some bare => .ok (scope.name, bare, namespaced scope.name bare)
    | none =>
      if scope.isForeign name then .error (.notAvailable name)
      else .ok (scope.name, name, namespaced scope.name name)
  | none =>
    match splitName name with
    | some (server, tool) => .ok (server, tool, name)
    | none => .error (.missingPrefix name)

/-- The row a call is forwarded to, and the tool name it is sent there. -/
def callTool (gw : McpGateway) (name : String) : Except CallError (ServerRow × String) :=
  match gw.resolveName name with
  | .error e => .error e
  | .ok (server, tool, full) =>
    if gw.toolAcl.permits full then
      match gw.find server with
      | some row => .ok (row, tool)
      | none => .error (.notAvailable name)
    else .error (.notAvailable name)

section KeepFirst

theorem mem_keepFirst {u : String × ServerRow} {us : List (String × ServerRow)}
    {seen : List String} : u ∈ keepFirst seen us ↔
      u.1 ∉ seen ∧ ∃ before after, us = before ++ u :: after ∧ ∀ v ∈ before, v.1 ≠ u.1 := by
  induction us generalizing seen with
  | nil => simp [keepFirst]
  | cons w us ih =>
    have hsplit : (∃ before after, w :: us = before ++ u :: after ∧ ∀ v ∈ before, v.1 ≠ u.1) ↔
        w = u ∨
          (w.1 ≠ u.1 ∧ ∃ before after, us = before ++ u :: after ∧ ∀ v ∈ before, v.1 ≠ u.1) := by
      constructor
      · rintro ⟨before, after, heq, hne⟩
        cases before with
        | nil => exact .inl (List.cons.inj heq).1
        | cons v before =>
          obtain ⟨rfl, htail⟩ := List.cons.inj heq
          exact .inr ⟨hne _ List.mem_cons_self, before, after, htail,
            fun x hx => hne x (List.mem_cons_of_mem _ hx)⟩
      · rintro (rfl | ⟨hne, before, after, rfl, hbefore⟩)
        · exact ⟨[], us, rfl, by simp⟩
        · refine ⟨w :: before, after, rfl, fun v hv => ?_⟩
          rcases List.mem_cons.1 hv with rfl | hv
          · exact hne
          · exact hbefore v hv
    rw [hsplit, keepFirst]
    by_cases hw : w.1 ∈ seen
    · rw [if_pos hw, ih]
      constructor
      · rintro ⟨hu, h⟩
        exact ⟨hu, .inr ⟨fun heq => hu (heq ▸ hw), h⟩⟩
      · rintro ⟨hu, rfl | ⟨-, h⟩⟩
        · exact absurd hw hu
        · exact ⟨hu, h⟩
    · rw [if_neg hw, List.mem_cons, ih, List.mem_cons]
      constructor
      · rintro (rfl | ⟨hu, h⟩)
        · exact ⟨hw, .inl rfl⟩
        · exact ⟨fun hmem => hu (.inr hmem), .inr ⟨fun heq => hu (.inl heq.symm), h⟩⟩
      · rintro ⟨hu, rfl | ⟨hne, h⟩⟩
        · exact .inl rfl
        · refine .inr ⟨?_, h⟩
          rintro (heq | hmem)
          · exact hne heq.symm
          · exact hu hmem

theorem nodup_keepFirst (us : List (String × ServerRow)) (seen : List String) :
    ((keepFirst seen us).map Prod.fst).Nodup := by
  induction us generalizing seen with
  | nil => exact List.nodup_nil
  | cons w us ih =>
    rw [keepFirst]
    split
    · exact ih seen
    · rw [List.map_cons, List.nodup_cons]
      refine ⟨fun hmem => ?_, ih _⟩
      obtain ⟨u, hu, heq⟩ := List.mem_map.1 hmem
      exact (mem_keepFirst.1 hu).1 (heq ▸ List.mem_cons_self)

end KeepFirst

/-- How the two constructors build a gateway. -/
structure Built (gw : McpGateway) : Prop where
  names : ∀ u ∈ gw.upstreams, ServerName u.1
  nodup : (gw.upstreams.map Prod.fst).Nodup
  alone : ∀ scope, gw.scope = some scope → ∃ row, gw.upstreams = [(scope.name, row)]

section Calls

variable {gw : McpGateway}

theorem find_eq_some (hb : gw.Built) {server : String} {row : ServerRow} :
    gw.find server = some row ↔ (server, row) ∈ gw.upstreams := by
  rw [find, Option.map_eq_some_iff]
  constructor
  · rintro ⟨⟨server', row'⟩, h, rfl⟩
    have hname : server' = server := by simpa using List.find?_some h
    exact hname ▸ List.mem_of_find?_eq_some h
  · intro h
    cases hfind : gw.upstreams.find? fun u => u.1 == server with
    | none =>
      have hne := List.find?_eq_none.1 hfind _ h
      simp at hne
    | some u =>
      have hname : u.1 = server := by simpa using List.find?_some hfind
      have heq : u = (server, row) :=
        List.inj_on_of_nodup_map hb.nodup (List.mem_of_find?_eq_some hfind) h hname
      exact ⟨u, rfl, by rw [heq]⟩

theorem resolveName_ok {name server tool full : String}
    (h : gw.resolveName name = .ok (server, tool, full)) :
    full = namespaced server tool ∧ ∀ scope, gw.scope = some scope → server = scope.name := by
  unfold resolveName at h
  cases hs : gw.scope with
  | none =>
    rw [hs] at h
    dsimp only at h
    split at h
    · rename_i parts hsplit
      cases h
      exact ⟨splitName_eq_some hsplit, by rintro scope ⟨⟩⟩
    · cases h
  | some scope =>
    rw [hs] at h
    dsimp only at h
    split at h
    · cases h
      exact ⟨rfl, by rintro _ ⟨⟩; rfl⟩
    · split at h
      · cases h
      · cases h
        exact ⟨rfl, by rintro _ ⟨⟩; rfl⟩

theorem callTool_ok (hb : gw.Built) {name tool : String} {row : ServerRow} :
    gw.callTool name = .ok (row, tool) ↔
      ∃ server full, gw.resolveName name = .ok (server, tool, full) ∧ gw.toolAcl.permits full ∧
      (server, row) ∈ gw.upstreams := by
  unfold callTool
  constructor
  · intro h
    split at h
    · cases h
    · rename_i server tool' full hresolve
      split at h
      · rename_i hpermits
        split at h
        · rename_i row' hfind
          cases h
          exact ⟨server, full, hresolve, hpermits, (find_eq_some hb).1 hfind⟩
        · cases h
      · cases h
  · rintro ⟨server, full, hresolve, hpermits, hmem⟩
    rw [hresolve]
    dsimp only
    rw [if_pos hpermits, (find_eq_some hb).2 hmem]

theorem resolveName_advertised (hb : gw.Built) {server tool : String} {row : ServerRow}
    (hu : (server, row) ∈ gw.upstreams) :
    gw.resolveName (gw.advertisedName server tool) =
      .ok (server, tool, namespaced server tool) := by
  unfold resolveName advertisedName
  cases hs : gw.scope with
  | none =>
    dsimp only
    rw [splitName_namespaced (hb.names _ hu)]
  | some scope =>
    obtain ⟨row', halone⟩ := hb.alone scope hs
    obtain ⟨rfl, -⟩ : server = scope.name ∧ row = row' := by
      rw [halone, List.mem_singleton] at hu
      exact Prod.mk.inj hu
    simp only [ScopedServer.shown, stripServerPrefix_namespaced]
    by_cases hround : scope.roundTrips tool
    · -- listed bare: no prefix that `call_tool` would read
      rw [if_pos hround]
      simp only [ScopedServer.roundTrips, Bool.and_eq_true, Option.isNone_iff_eq_none,
        Bool.not_eq_eq_eq_not, Bool.not_true] at hround
      rw [hround.1]
      simp [hround.2]
    · rw [if_neg hround, stripServerPrefix_namespaced]

theorem advertisedName_inj (hb : gw.Built) {server tool server' tool' : String}
    {row row' : ServerRow} (hu : (server, row) ∈ gw.upstreams)
    (hu' : (server', row') ∈ gw.upstreams)
    (h : gw.advertisedName server tool = gw.advertisedName server' tool') :
    server = server' ∧ tool = tool' := by
  have hresolve : gw.resolveName (gw.advertisedName server tool) = _ := resolveName_advertised hb hu
  rw [h, resolveName_advertised hb hu'] at hresolve
  simp only [Except.ok.injEq, Prod.mk.injEq] at hresolve
  exact ⟨hresolve.1.symm, hresolve.2.1.symm⟩

theorem mem_listTools {listed : ServerRow → Option (List String)} {name : String} :
    name ∈ gw.listTools listed ↔ ∃ u ∈ gw.upstreams, ∃ tool ∈ (listed u.2).getD [],
      gw.toolAcl.permits (namespaced u.1 tool) ∧ name = gw.advertisedName u.1 tool := by
  unfold listTools advertisedName
  cases gw.scope with
  | none =>
    simp only [List.mem_filter, List.mem_flatMap, List.mem_map]
    constructor
    · rintro ⟨⟨u, hu, tool, htool, rfl⟩, hpermits⟩
      exact ⟨u, hu, tool, htool, hpermits, rfl⟩
    · rintro ⟨u, hu, tool, htool, hpermits, rfl⟩
      exact ⟨⟨u, hu, tool, htool, rfl⟩, hpermits⟩
  | some scope =>
    simp only [List.mem_map, List.mem_filter, List.mem_flatMap]
    constructor
    · rintro ⟨-, ⟨⟨u, hu, tool, htool, rfl⟩, hpermits⟩, rfl⟩
      exact ⟨u, hu, tool, htool, hpermits, rfl⟩
    · rintro ⟨u, hu, tool, htool, hpermits, rfl⟩
      exact ⟨_, ⟨⟨u, hu, tool, htool, rfl⟩, hpermits⟩, rfl⟩

end Calls

section SameTool

/-- Listing, calling and access control speak of the same tool on a gateway. -/
structure SameTool (gw : McpGateway) (sourceIp : String) : Prop where
  /-- A tool is advertised exactly when its namespaced form is permitted, and nothing else is. -/
  advertised : ∀ listed, ∀ u ∈ gw.upstreams, ∀ tool ∈ (listed u.2).getD [],
    (gw.advertisedName u.1 tool ∈ gw.listTools listed ↔ gw.toolAcl.permits (namespaced u.1 tool))
  nothingElse : ∀ listed, ∀ name ∈ gw.listTools listed, ∃ u ∈ gw.upstreams,
    ∃ tool ∈ (listed u.2).getD [], name = gw.advertisedName u.1 tool
  /-- An advertised name goes back to the upstream that listed it. -/
  reaches : ∀ listed, ∀ u ∈ gw.upstreams, ∀ tool ∈ (listed u.2).getD [],
    gw.advertisedName u.1 tool ∈ gw.listTools listed →
      gw.callTool (gw.advertisedName u.1 tool) = .ok (u.2, tool)
  distinct : ∀ u ∈ gw.upstreams, ∀ u' ∈ gw.upstreams, ∀ tool tool',
    gw.advertisedName u.1 tool = gw.advertisedName u'.1 tool' → u = u' ∧ tool = tool'
  /-- A call goes to an enabled row that admits the address, the one access control asked for. -/
  forwards : ∀ name row tool, gw.callTool name = .ok (row, tool) →
    row.value.enabled = true ∧ row.value.ipAllowed sourceIp = true ∧
      (∃ server full, gw.resolveName name = .ok (server, tool, full) ∧
        gw.toolAcl.servers.address full = some (row.id, tool)) ∧
      ∀ scope, gw.scope = some scope → row.value.name = scope.name

variable {gw : McpGateway} {servers : Servers}

/-- The rows of a gateway are enabled, admit the address and are listed under their own names. -/
def Holds (gw : McpGateway) (servers : Servers) (sourceIp : String) : Prop :=
  ∀ u ∈ gw.upstreams, u.2 ∈ servers.rows ∧ u.1 = u.2.value.name ∧ u.2.value.enabled = true ∧
    u.2.value.ipAllowed sourceIp = true

/-- What remains to be asked of a gateway. -/
def OwnedRows (gw : McpGateway) (servers : Servers) : Prop :=
  ∀ u ∈ gw.upstreams, ∀ tool, gw.toolAcl.permits (namespaced u.1 tool) →
    servers.byName u.1 = some u.2.id

theorem address_namespaced (hservers : gw.toolAcl.servers = McpServerIndex.build servers)
    {server : String} (hname : ServerName server) (tool id : String) :
    gw.toolAcl.servers.address (namespaced server tool) = some (id, tool) ↔
      servers.byName server = some id := by
  rw [hservers, McpServerIndex.address, splitName_namespaced hname, Option.bind_some,
    McpServerIndex.build_byName]
  simp

theorem sameTool_iff_ownedRows (servers : Servers) (sourceIp : String) (hb : gw.Built)
    (hh : gw.Holds servers sourceIp)
    (hservers : gw.toolAcl.servers = McpServerIndex.build servers) :
    gw.SameTool sourceIp ↔ gw.OwnedRows servers := by
  constructor
  · intro hsame u hu tool hpermits
    have hcall : gw.callTool (gw.advertisedName u.1 tool) = .ok (u.2, tool) :=
      (callTool_ok hb).2 ⟨u.1, _, resolveName_advertised hb hu, hpermits, hu⟩
    obtain ⟨-, -, ⟨server, full, hresolve, haddress⟩, -⟩ := hsame.forwards _ _ _ hcall
    rw [resolveName_advertised hb hu] at hresolve
    cases hresolve
    exact (address_namespaced hservers (hb.names u hu) tool u.2.id).1 haddress
  · intro howned
    refine ⟨?_, ?_, ?_, ?_, ?_⟩
    · intro listed u hu tool htool
      rw [mem_listTools]
      constructor
      · rintro ⟨u', hu', tool', -, hpermits, heq⟩
        obtain ⟨hname, rfl⟩ := advertisedName_inj hb hu hu' heq
        exact hname ▸ hpermits
      · exact fun hpermits => ⟨u, hu, tool, htool, hpermits, rfl⟩
    · intro listed name hname
      obtain ⟨u, hu, tool, htool, -, heq⟩ := mem_listTools.1 hname
      exact ⟨u, hu, tool, htool, heq⟩
    · intro listed u hu tool _ hlisted
      obtain ⟨u', hu', tool', -, hpermits, heq⟩ := mem_listTools.1 hlisted
      obtain ⟨hname, rfl⟩ := advertisedName_inj hb hu hu' heq
      exact (callTool_ok hb).2 ⟨u.1, _, resolveName_advertised hb hu, hname ▸ hpermits, hu⟩
    · intro u hu u' hu' tool tool' heq
      obtain ⟨hname, rfl⟩ := advertisedName_inj hb hu hu' heq
      exact ⟨List.inj_on_of_nodup_map hb.nodup hu hu' hname, rfl⟩
    · intro name row tool hcall
      obtain ⟨server, full, hresolve, hpermits, hmem⟩ := (callTool_ok hb).1 hcall
      obtain ⟨rfl, hscope⟩ := resolveName_ok hresolve
      obtain ⟨-, hname, henabled, hip⟩ := hh _ hmem
      have hid := howned _ hmem tool hpermits
      refine ⟨henabled, hip, ⟨server, _, hresolve, ?_⟩,
        fun scope hs => hname.symm.trans (hscope scope hs)⟩
      exact (address_namespaced hservers (hb.names _ hmem) tool row.id).2 hid

end SameTool

section Snapshots

variable {servers : Servers} {acl : ToolAcl} {sourceIp : String}

/-- The aggregated gateway serves the first enabled row of a name that admits the address. -/
def Serves (servers : Servers) (sourceIp : String) (row : ServerRow) : Prop :=
  row.value.enabled = true ∧ row.value.ipAllowed sourceIp = true ∧
    ∃ before after, servers.rows = before ++ row :: after ∧
      ∀ r ∈ before, r.value.enabled = true → r.value.ipAllowed sourceIp = true →
        r.value.name ≠ row.value.name

theorem first_filter_map {α β : Type} {p : α → Bool} {f : α → β} {l : List α} {x : α}
    {P : β → Prop} :
    (∃ before after, (l.filter p).map f = before ++ f x :: after ∧ ∀ y ∈ before, P y) ↔
      ∃ y, f y = f x ∧ p y = true ∧ ∃ before after, l = before ++ y :: after ∧
        ∀ z ∈ before, p z = true → P (f z) := by
  constructor
  · rintro ⟨before, after, heq, hbefore⟩
    obtain ⟨l₁, l₂, hl, rfl, hl₂⟩ := List.map_eq_append_iff.1 heq
    obtain ⟨y, l₃, rfl, hy, rfl⟩ := List.map_eq_cons_iff.1 hl₂
    obtain ⟨k₁, k₂, rfl, rfl, hk₂⟩ := List.filter_eq_append_iff.1 hl
    obtain ⟨m₁, m₂, rfl, hm₁, hpy, rfl⟩ := List.filter_eq_cons_iff.1 hk₂
    refine ⟨y, hy, hpy, k₁ ++ m₁, m₂, by simp, fun z hz hpz => ?_⟩
    rcases List.mem_append.1 hz with hz | hz
    · exact hbefore _ (List.mem_map_of_mem (List.mem_filter.2 ⟨hz, hpz⟩))
    · exact absurd hpz (hm₁ z hz)
  · rintro ⟨y, hy, hpy, before, after, rfl, hbefore⟩
    refine ⟨(before.filter p).map f, (after.filter p).map f, by simp [hpy, hy], fun z hz => ?_⟩
    obtain ⟨w, hw, rfl⟩ := List.mem_map.1 hz
    exact hbefore w (List.mem_filter.1 hw).1 (List.mem_filter.1 hw).2

theorem mem_fromSnapshotForRequest {u : String × ServerRow} :
    u ∈ (fromSnapshotForRequest servers acl sourceIp).upstreams ↔
      u.1 = u.2.value.name ∧ Serves servers sourceIp u.2 := by
  rw [fromSnapshotForRequest, new, mem_keepFirst]
  constructor
  · rintro ⟨-, before, after, heq, hbefore⟩
    have hmem : u ∈ (servers.rows.filter fun e => e.value.enabled && e.value.ipAllowed sourceIp).map
        fun e => (e.value.name, e) := by rw [heq]; simp
    obtain ⟨row, -, rfl⟩ := List.mem_map.1 hmem
    obtain ⟨row', hrow, hkept, l₁, l₂, hl, hfirst⟩ :=
      first_filter_map (P := fun v : String × ServerRow => v.1 ≠ row.value.name) |>.1
        ⟨before, after, heq, hbefore⟩
    obtain rfl : row' = row := (Prod.mk.inj hrow).2
    rw [Bool.and_eq_true] at hkept
    exact ⟨rfl, hkept.1, hkept.2, l₁, l₂, hl, fun r hr henabled hip =>
      hfirst r hr (by rw [henabled, hip]; rfl)⟩
  · obtain ⟨name, row⟩ := u
    rintro ⟨hname, henabled, hip, before, after, heq, hbefore⟩
    dsimp only at hname henabled hip heq hbefore
    subst hname
    refine ⟨List.not_mem_nil,
      (first_filter_map (P := fun v : String × ServerRow => v.1 ≠ row.value.name)).2
      ⟨row, rfl, by simp [henabled, hip], before, after, heq, fun r hr hkept => ?_⟩⟩
    rw [Bool.and_eq_true] at hkept
    exact hbefore r hr hkept.1 hkept.2

theorem built_aggregated : (fromSnapshotForRequest servers acl sourceIp).Built where
  names u hu := (mem_fromSnapshotForRequest.1 hu).1 ▸ u.2.value.rule
  nodup := nodup_keepFirst _ _
  alone := by rintro scope ⟨⟩

theorem holds_aggregated :
    (fromSnapshotForRequest servers acl sourceIp).Holds servers sourceIp := by
  intro u hu
  obtain ⟨hname, henabled, hip, before, after, heq, -⟩ := mem_fromSnapshotForRequest.1 hu
  exact ⟨by rw [heq]; simp, hname, henabled, hip⟩

theorem scoped_spec {server : String} {gw : McpGateway}
    (h : fromSnapshotScopedForRequest servers server acl sourceIp = some gw) :
    ∃ row foreign, servers.getByName server = some row ∧ row.value.enabled = true ∧
      row.value.ipAllowed sourceIp = true ∧
      gw = ⟨[(row.value.name, row)], acl, some ⟨row.value.name, foreign⟩⟩ := by
  unfold fromSnapshotScopedForRequest at h
  split at h
  · cases h
  · rename_i row hrow
    split_ifs at h with hip henabled
    have hgw := Option.some.inj h
    exact ⟨row, _, hrow, by simpa using henabled, by simpa using hip, hgw.symm⟩

theorem sameTool_scoped {server : String} {gw : McpGateway}
    (hservers : acl.servers = McpServerIndex.build servers)
    (h : fromSnapshotScopedForRequest servers server acl sourceIp = some gw) :
    gw.SameTool sourceIp := by
  obtain ⟨row, foreign, hrow, henabled, hip, rfl⟩ := scoped_spec h
  obtain ⟨hmem, hid⟩ := ResourceTable.getByName_eq_some.1 hrow
  refine (sameTool_iff_ownedRows servers sourceIp ⟨?_, ?_, ?_⟩ ?_ hservers).2 ?_
  · rintro u hu
    obtain rfl := List.mem_singleton.1 hu
    exact row.value.rule
  · exact List.nodup_singleton _
  · rintro scope ⟨⟩
    exact ⟨row, rfl⟩
  · rintro u hu
    obtain rfl := List.mem_singleton.1 hu
    exact ⟨hmem, rfl, henabled, hip⟩
  · rintro u hu tool -
    obtain rfl := List.mem_singleton.1 hu
    have hname : row.value.name = server := ResourceTable.name_of_getByName hrow
    exact hname ▸ hid

/-- On the gateways of a snapshot, aggregated and scoped, listing, calling and access control speak
of the same tool exactly when the aggregated one serves no tool of a row but the one its name leads
to. -/
theorem same_tool_iff (servers : Servers) (policies : List (ResourceEntry McpPolicy)) (key : ApiKey)
    (ceiling : Option McpServerAllowlist) (sourceIp : String) :
    ((fromSnapshotForRequest servers (.ofCaller policies servers key ceiling) sourceIp).SameTool
      sourceIp ∧
          ∀ server gw, fromSnapshotScopedForRequest servers server
            (.ofCaller policies servers key ceiling) sourceIp = some gw → gw.SameTool sourceIp) ↔
      ∀ row tool, Serves servers sourceIp row →
        (ToolAcl.ofCaller policies servers key ceiling).permits (namespaced row.value.name tool) →
          servers.byName row.value.name = some row.id := by
  have hservers := ToolAcl.servers_ofCaller policies servers key ceiling
  have hiff := sameTool_iff_ownedRows servers sourceIp built_aggregated holds_aggregated hservers
  constructor
  · rintro ⟨hsame, -⟩ row tool hrow hpermits
    exact hiff.1 hsame (row.value.name, row)
      (mem_fromSnapshotForRequest.2 ⟨rfl, hrow⟩) tool hpermits
  · intro howned
    refine ⟨hiff.2 fun u hu tool hpermits => ?_, fun server gw h => sameTool_scoped hservers h⟩
    obtain ⟨hname, hserves⟩ := mem_fromSnapshotForRequest.1 hu
    rw [hname] at hpermits ⊢
    exact howned u.2 tool hserves hpermits

/-- A server called `gh`. -/
def gh (id : String) (enabled : Bool) : ServerRow where
  id := id
  value := ⟨"gh", by decide, enabled, fun _ => true⟩
  revision := 0

/-- A second row takes the name of the first, and with it the name's entry in the index. -/
def renamed : Servers := (ResourceTable.empty.insert (gh "a" true)).insert (gh "b" false)

/-- A key for every tool of the server `b`. -/
def keyForB : ApiKey := ⟨none, some ⟨[], some [⟨"b", "*"⟩], [], none⟩⟩

theorem forwards_to_other_row :
    ¬ ((fromSnapshotForRequest renamed (.ofCaller [] renamed keyForB none) "10.0.0.1").SameTool
      "10.0.0.1" ∧
      ∀ server gw, fromSnapshotScopedForRequest renamed server (.ofCaller [] renamed keyForB none)
        "10.0.0.1" = some gw → gw.SameTool "10.0.0.1") := by
  rintro ⟨hsame, -⟩
  have hserves : Serves renamed "10.0.0.1" (gh "a" true) :=
    ⟨rfl, rfl, [gh "b" false], [],
      rfl, by intro r hr; obtain rfl := List.mem_singleton.1 hr; rintro ⟨⟩⟩
  have hmem :
      ("gh", gh "a" true) ∈ (fromSnapshotForRequest renamed (.ofCaller [] renamed keyForB none)
      "10.0.0.1").upstreams := mem_fromSnapshotForRequest.2 ⟨rfl, hserves⟩
  have howned :=
    (sameTool_iff_ownedRows renamed "10.0.0.1" built_aggregated holds_aggregated rfl).1 hsame
    _ hmem "read" (by decide +kernel)
  exact absurd howned (by decide)

end Snapshots

end McpGateway

end Mcp
end Aisix
