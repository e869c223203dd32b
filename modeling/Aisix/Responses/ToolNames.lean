import Aisix.JsonText
import Aisix.KeyMap
import Aisix.Redact.Jsonl
import Aisix.Responses.Encoder

/-!
# Aisix.Responses.ToolNames

The tools of a Responses request as chat tools, and a chat tool call as the call of the tool it was
offered for. The tool of a namespace is offered under one flat name; when every name is read back
right is said in `faithful_iff`.
-/

namespace Aisix
namespace Responses

open Json Anthropic

def isType (ty : String) (t : Value) : Bool := strField t "type" == some ty

/-! ### The request's tools -/

/-- The chat name of a namespace's tool. -/
def namespaceChatToolName (ns tool : String) : String := ns ++ "__" ++ tool

def topLevelFunctionNames (tools : List Value) : List String :=
  (tools.filter (isType "function")).filterMap fun t => strField t "name"

/-- A tool of a namespace with its chat name. -/
structure Member where
  chatName : String
  tool : Value
  description : Option String

/-- The namespace's description, followed by the tool's own. -/
def memberDescription : Option String → Option String → Option String
  | some ns, some own => some (ns ++ "\n\n" ++ own)
  | some ns, none => some ns
  | none, own => own

def namespaceMembers (t : Value) : List Member :=
  let ns := (strField t "name").getD ""
  let description := (strField t "description").filter (· ≠ "")
  (((arrayField t "tools").filter fun _ => ns ≠ "").filter (isType "function")).filterMap fun m =>
    (strField m "name").map fun name =>
      ⟨namespaceChatToolName ns name, m,
        memberDescription description ((strField m "description").filter (· ≠ ""))⟩

/-- A chat tool with the members a tool has. -/
def chatTool (name : String) (description parameters : Option Value) : Value :=
  .object [("type", .string "function"), ("function", .object (("name", .string name) ::
    ((description.map (("description", ·))).toList ++
      (parameters.map (("parameters", ·))).toList)))]

/-- `rename` carries the chat name and the description of a namespace's tool. -/
def functionChatTool (t : Value) (rename : Option (String × Option String)) : Option Value :=
  (strField t "name").map fun name =>
    match rename with
    | some (chatName, description) =>
      chatTool chatName (description.map .string) (t.get "parameters")
    | none => chatTool name (t.get "description") (t.get "parameters")

def CUSTOM_TOOL_INPUT_PARAM : String := "content"

/-- One required string. -/
def customToolParameters (name : String) : Value :=
  .object [("type", .string "object"),
    ("properties", .object [(CUSTOM_TOOL_INPUT_PARAM, .object [("type", .string "string"),
      ("description", .string ("The " ++ name ++ " content following the specified format"))])]),
    ("required", .array [.string CUSTOM_TOOL_INPUT_PARAM])]

def customToolGrammarSuffix (format : Option Value) : String :=
  match (format.bind fun f => strField f "definition").filter (· ≠ "") with
  | none => ""
  | some definition =>
    let syntaxName := (format.bind fun f => strField f "syntax").getD ""
    "\n\nFormat:\n```" ++ syntaxName ++ "\n" ++ definition ++ "\n```"

def customChatTool (t : Value) : Option Value :=
  (strField t "name").map fun name =>
    let description :=
      (strField t "description").getD "" ++ customToolGrammarSuffix (t.get "format")
    chatTool name (if description = "" then none else some (.string description))
      (some (customToolParameters name))

/-- The chat tools of one tool. -/
def chatTools (topLevelFunctions : List String) (t : Value) : List Value :=
  match strField t "type" with
  | some "function" => (functionChatTool t none).toList
  | some "namespace" =>
    ((namespaceMembers t).filter fun m => m.chatName ∉ topLevelFunctions).filterMap fun m =>
      functionChatTool m.tool (some (m.chatName, m.description))
  | some "custom" => (customChatTool t).toList
  | _ => []

def responsesToolsToChat (tools : Value) : Option Value :=
  match tools with
  | .array arr =>
    let out := arr.flatMap (chatTools (topLevelFunctionNames arr))
    if out.isEmpty then none else some (.array out)
  | _ => none

/-! ### The reply -/

/-- A namespace and the name of its tool. -/
def pairOf (t : Value) (m : Member) : Option (String × String) :=
  (strField m.tool "name").map fun name => ((strField t "name").getD "", name)

def pairsOf (t : Value) : List (String × String) := (namespaceMembers t).filterMap (pairOf t)

def members (tools : List Value) : List (String × String) :=
  (tools.filter (isType "namespace")).flatMap pairsOf

/-- The chat names of the tools of namespaces, then the names that only one of them has. -/
def namespaceToolMap (tools : List Value) : KeyMap String (String × String) :=
  let topLevel := topLevelFunctionNames tools
  let all := members tools
  let map := all.foldl (fun map m =>
    if namespaceChatToolName m.1 m.2 ∉ topLevel then map.insert
      (namespaceChatToolName m.1 m.2) m else map) ∅
  all.foldl (fun map m =>
    if (all.map (·.2)).count m.2 = 1 ∧ m.2 ∉ topLevel then map.insert m.2 m else map) map

/-- A map as the pairs it holds. -/
def pairs (map : KeyMap String (String × String)) : List (String × String × String) :=
  map.entries.map fun e => (e.1, e.2)

theorem lookup_pairs (map : KeyMap String (String × String)) (name : String) :
    (pairs map).lookup name = map.lookup name := by
  unfold pairs AList.lookup
  induction map.entries with
  | nil => rfl
  | cons e es ih =>
    rw [List.map_cons, List.lookup_cons]
    by_cases hname : name = e.1
    · subst hname
      rw [beq_self_eq_true, List.dlookup_cons_eq]
    · rw [beq_false_of_ne hname, List.dlookup_cons_ne es e hname]
      exact ih

def customToolNames (tools : List Value) : List String :=
  (tools.filter (isType "custom")).filterMap fun t => strField t "name"

/-- `responseEchoFields` has no part in how a call is read back. -/
def ResponsesReplyContext.fromRequest (responseEchoFields : Value → List (String × Value))
    (body : Value) :
    ResponsesReplyContext :=
  let tools := arrayField body "tools"
  ⟨customToolNames tools, pairs (namespaceToolMap tools), responseEchoFields body⟩

section Items

-- `fromStr` is `serde_json::from_str`
variable (F : FloatText) (fromStr : String → Option Value)

def wrapCustomToolInput (input : String) : String :=
  String.ofList (text F (.object [(CUSTOM_TOOL_INPUT_PARAM, .string input)]))

def functionCallItem (id callId name : String) (ns : Option String) (arguments status : String) :
    Value :=
  .object
    ([("type", .string "function_call"), ("id", .string id), ("call_id", .string callId),
      ("name", .string name), ("arguments", .string arguments), ("status", .string status)] ++
      (ns.map fun ns => ("namespace", .string ns)).toList)

/-- The item a chat tool call is returned as; `uuid` makes its id. -/
def outputItem (reply : ResponsesReplyContext) (uuid : String) (tc : Value) : Value :=
  match reply.toolCall (callName tc) with
  | .custom =>
    .object [("type", .string "custom_tool_call"), ("id", .string ("ctc_" ++ uuid)),
      ("call_id", .string (callId tc)), ("name", .string (callName tc)),
      ("input", .string (unwrapCustomToolInput fromStr (callArguments tc))),
      ("status", .string "completed")]
  | .function name ns =>
    functionCallItem ("fc_" ++ uuid) (callId tc) name ns (callArguments tc) "completed"

/-- The chat name of an item or of a choice. -/
def flatName (v : Value) (name : String) : String :=
  match (strField v "namespace").filter (· ≠ "") with
  | some ns => namespaceChatToolName ns name
  | none => name

def chatCall (callId name arguments : String) : Value :=
  .object [("id", .string callId), ("type", .string "function"),
    ("function", .object [("name", .string name), ("arguments", .string arguments)])]

/-- The chat call of an earlier call; `none` for an item of another kind. -/
def replayedCall (item : Value) : Option Value :=
  let callId := (((item.get "call_id").or (item.get "id")).bind Value.asStr?).getD ""
  let name := (strField item "name").getD ""
  match strField item "type" with
  | some "function_call" =>
    some (chatCall callId (flatName item name) ((strField item "arguments").getD ""))
  | some "custom_tool_call" =>
    some (chatCall callId name (wrapCustomToolInput F ((strField item "input").getD "")))
  | _ => none

/-- The call goes to the calls of the last message, when that is the assistant's. -/
def pushToolCall (messages : List ChatMessage) (tc : Value) : List ChatMessage :=
  match messages.getLast? with
  | some last =>
    if last.role = .assistant then
      let calls :=
        match last.extra.lookup "tool_calls" with
        | some (.array arr) => arr ++ [tc]
        | _ => [tc]
      messages.dropLast ++
        [{ last with extra := ("tool_calls", .array calls) :: remove "tool_calls" last.extra }]
    else messages ++ [⟨.assistant, none, none, none, none, [("tool_calls", .array [tc])]⟩]
  | none => [⟨.assistant, none, none, none, none, [("tool_calls", .array [tc])]⟩]

/-- `append_input_item` for the items that are calls. -/
def appendInputItem (messages : List ChatMessage) (item : Value) : Option (List ChatMessage) :=
  (replayedCall F item).map (pushToolCall messages)

end Items

def responsesToolChoiceToChat (tc : Value) : Option Value :=
  match tc with
  | .string s => some (.string s)
  | .object _ =>
    match strField tc "type" with
    | some "function" | some "custom" | some "tool" =>
      (strField tc "name").map fun name =>
        .object [("type", .string "function"),
          ("function", .object [("name", .string (flatName tc name))])]
    | some "any" => some (.string "required")
    | some "allowed_tools" =>
      match strField tc "mode" with
      | some "auto" => some (.string "auto")
      | some "required" => some (.string "required")
      | _ => none
    | _ => none
  | _ => none

/-! ### What is offered -/

/-- What a chat tool is offered for. -/
inductive Declared where
  | function (name : String)
  | custom (name : String)
  | member (ns name : String)

namespace Declared

def chatName : Declared → String
  | function name => name
  | custom name => name
  | member ns name => namespaceChatToolName ns name

def reply : Declared → ReplyToolCall
  | function name => .function name none
  | custom _ => .custom
  | member ns name => .function name (some ns)

end Declared

/-- A chat tool and what it is offered for. -/
structure Offer where
  declared : Declared
  tool : Value

def memberOffer (t : Value) (m : Member) : Option Offer :=
  (pairOf t m).bind fun pair =>
    (functionChatTool m.tool (some (m.chatName, m.description))).map
      (Offer.mk (.member pair.1 pair.2))

def offersOf (topLevelFunctions : List String) (t : Value) : List Offer :=
  match strField t "type" with
  | some "function" =>
    ((strField t "name").bind fun name => (functionChatTool t none).map
      (Offer.mk (.function name))).toList
  | some "namespace" =>
    ((namespaceMembers t).filter fun m => m.chatName ∉ topLevelFunctions).filterMap (memberOffer t)
  | some "custom" =>
    ((strField t "name").bind fun name => (customChatTool t).map (Offer.mk (.custom name))).toList
  | _ => []

def offers (body : Value) : List Offer :=
  let tools := arrayField body "tools"
  tools.flatMap (offersOf (topLevelFunctionNames tools))

/-- The chat tools of a request. -/
def offeredTools (body : Value) : List Value :=
  match (body.get "tools").bind responsesToolsToChat with
  | some (.array out) => out
  | _ => []

theorem functionChatTool_of_name {t : Value} {name : String} (h : strField t "name" = some name) :
    functionChatTool t none = some (chatTool name (t.get "description") (t.get "parameters")) := by
  unfold functionChatTool
  rw [h]
  rfl

theorem mem_namespaceMembers {t : Value} {m : Member} (h : m ∈ namespaceMembers t) :
    ∃ pair, pairOf t m = some pair ∧ m.chatName = namespaceChatToolName pair.1 pair.2 ∧
      memberOffer t m = some ⟨.member pair.1 pair.2,
        chatTool m.chatName (m.description.map .string) (m.tool.get "parameters")⟩ ∧
      functionChatTool m.tool (some (m.chatName, m.description)) =
        some (chatTool m.chatName (m.description.map .string) (m.tool.get "parameters")) := by
  obtain ⟨tool, -, hmap⟩ := List.mem_filterMap.mp h
  obtain ⟨name, hname, rfl⟩ := Option.map_eq_some_iff.mp hmap
  refine ⟨((strField t "name").getD "", name), ?_, rfl, ?_, ?_⟩
  · rw [pairOf, hname]
    rfl
  · rw [memberOffer, pairOf, functionChatTool, hname]
    rfl
  · rw [functionChatTool, hname]
    rfl

theorem chatTools_eq (topLevel : List String) (t : Value) :
    chatTools topLevel t = (offersOf topLevel t).map (·.tool) := by
  unfold chatTools offersOf
  split
  · cases h : strField t "name" with
    | none => simp [functionChatTool, h]
    | some name => simp [functionChatTool_of_name h]
  · rw [List.map_filterMap]
    refine List.filterMap_congr fun m hm => ?_
    obtain ⟨pair, -, -, hoffer, htool⟩ := mem_namespaceMembers (List.mem_of_mem_filter hm)
    rw [htool, hoffer]
    rfl
  · cases h : strField t "name" with
    | none => simp [customChatTool, h]
    | some name => simp [customChatTool, h]
  · rfl

theorem offeredTools_eq (body : Value) : offeredTools body = (offers body).map (·.tool) := by
  unfold offeredTools offers arrayField
  cases h : body.get "tools" with
  | none => rfl
  | some tools =>
    cases tools with
    | array arr =>
      have htools : arr.flatMap (chatTools (topLevelFunctionNames arr)) =
          (arr.flatMap (offersOf (topLevelFunctionNames arr))).map (·.tool) := by
        rw [List.map_flatMap]
        exact List.flatMap_congr fun t _ => chatTools_eq _ t
      rw [Option.bind_some, responsesToolsToChat, htools]
      cases hout : (arr.flatMap (offersOf (topLevelFunctionNames arr))).map (·.tool) with
      | nil => rfl
      | cons tool out => rfl
    | _ => rfl

theorem callName_offer {topLevel : List String} {t : Value} {o : Offer}
    (h : o ∈ offersOf topLevel t) : callName o.tool = o.declared.chatName := by
  unfold offersOf at h
  split at h
  · obtain ⟨name, hname, hmap⟩ := Option.bind_eq_some_iff.mp (Option.mem_toList.mp h)
    rw [functionChatTool_of_name hname] at hmap
    cases hmap
    rfl
  · obtain ⟨m, hm, hoffer⟩ := List.mem_filterMap.mp h
    obtain ⟨pair, -, hchat, hmember, -⟩ := mem_namespaceMembers (List.mem_of_mem_filter hm)
    cases hmember.symm.trans hoffer
    exact hchat
  · obtain ⟨name, hname, hmap⟩ := Option.bind_eq_some_iff.mp (Option.mem_toList.mp h)
    rw [customChatTool, hname] at hmap
    cases hmap
    rfl
  · cases h

/-! ### The declared names -/

/-- The tools of namespaces that are offered. -/
def offeredMembers (tools : List Value) : List (String × String) :=
  (members tools).filter fun m => namespaceChatToolName m.1 m.2 ∉ topLevelFunctionNames tools

/-- A request's tools under names that can be told apart. -/
structure Separate (tools : List Value) : Prop where
  functions : (topLevelFunctionNames tools).Nodup
  customs : (customToolNames tools).Nodup
  customApart : ∀ name ∈ customToolNames tools, name ∉ topLevelFunctionNames tools
  flat : ((offeredMembers tools).map fun m => namespaceChatToolName m.1 m.2).Nodup
  flatApart : ∀ m ∈ offeredMembers tools, namespaceChatToolName m.1 m.2 ∉ customToolNames tools
  /-- A name that one tool of all namespaces has is no chat name of another. -/
  bareApart : ∀ m ∈ offeredMembers tools, ∀ m' ∈ members tools,
    ((members tools).map (·.2)).count m'.2 = 1 → m'.2 ≠ namespaceChatToolName m.1 m.2

/-- The declarations one tool brings, of each kind. -/
def functionsOf (t : Value) : List Declared :=
  if isType "function" t then ((strField t "name").map Declared.function).toList else []

def customsOf (t : Value) : List Declared :=
  if isType "custom" t then ((strField t "name").map Declared.custom).toList else []

def membersOf (topLevel : List String) (t : Value) : List Declared :=
  if isType "namespace" t then
    ((pairsOf t).filter fun m => namespaceChatToolName m.1 m.2 ∉ topLevel).map
      fun m => .member m.1 m.2
  else []

theorem declared_members (topLevel : List String) (t : Value) {ms : List Member}
    (h : ∀ m ∈ ms, m ∈ namespaceMembers t) :
    ((ms.filter fun m => m.chatName ∉ topLevel).filterMap (memberOffer t)).map (·.declared) =
      ((ms.filterMap (pairOf t)).filter fun m => namespaceChatToolName m.1 m.2 ∉ topLevel).map
      fun m =>
        .member m.1 m.2 := by
  induction ms with
  | nil => rfl
  | cons m ms ih =>
    obtain ⟨hm, hms⟩ := List.forall_mem_cons.1 h
    obtain ⟨pair, hpair, hchat, hoffer, -⟩ := mem_namespaceMembers hm
    rw [List.filterMap_cons_some hpair]
    by_cases htop : m.chatName ∈ topLevel
    · rw [List.filter_cons_of_neg (by simpa using htop),
        List.filter_cons_of_neg (by simpa [← hchat] using htop)]
      exact ih hms
    · rw [List.filter_cons_of_pos (by simpa using htop),
        List.filter_cons_of_pos (by simpa [← hchat] using htop), List.filterMap_cons_some hoffer,
        List.map_cons, List.map_cons]
      exact congrArg _ (ih hms)

theorem declared_offersOf (topLevel : List String) (t : Value) :
    (offersOf topLevel t).map (·.declared) = functionsOf t ++
    (customsOf t ++ membersOf topLevel t) := by
  unfold offersOf functionsOf customsOf membersOf isType
  split
  · next h =>
    rw [h]
    cases hname : strField t "name" with
    | none => rfl
    | some name =>
      rw [functionChatTool_of_name hname]
      rfl
  · next h =>
    rw [h]
    exact declared_members topLevel t fun m hm => hm
  · next h =>
    rw [h]
    cases hname : strField t "name" with
    | none => rfl
    | some name =>
      rw [customChatTool, hname]
      rfl
  · next hfunction hnamespace hcustom =>
    have hne : ∀ ty, strField t "type" ≠ some ty → (strField t "type" == some ty) = false :=
      fun ty h => beq_false_of_ne h
    rw [hne _ hfunction, hne _ hnamespace, hne _ hcustom]
    rfl

theorem flatMap_named (ty : String) (f : String → Declared) (tools : List Value) :
    tools.flatMap (fun t => if isType ty t then ((strField t "name").map f).toList else []) =
      ((tools.filter (isType ty)).filterMap fun t => strField t "name").map f := by
  induction tools with
  | nil => rfl
  | cons t tools ih =>
    rw [List.flatMap_cons, ih]
    cases htype : isType ty t with
    | false => rw [List.filter_cons_of_neg (by simp [htype]), if_neg (by decide), List.nil_append]
    | true =>
      rw [List.filter_cons_of_pos htype, if_pos rfl]
      cases hname : strField t "name" with
      | none =>
        rw [List.filterMap_cons, hname]
        rfl
      | some name =>
        rw [List.filterMap_cons, hname]
        rfl

theorem flatMap_membersOf (topLevel : List String) (tools : List Value) :
    tools.flatMap (membersOf topLevel) =
      ((members tools).filter fun m => namespaceChatToolName m.1 m.2 ∉ topLevel).map fun m =>
      .member m.1 m.2 := by
  induction tools with
  | nil => rfl
  | cons t tools ih =>
    rw [List.flatMap_cons, ih, members, members, membersOf]
    cases htype : isType "namespace" t with
    | false => rw [List.filter_cons_of_neg (by simp [htype]), if_neg (by decide), List.nil_append]
    | true =>
      rw [List.filter_cons_of_pos htype, if_pos rfl, List.flatMap_cons, List.filter_append,
        List.map_append]

theorem declared_perm (body : Value) :
    ((offers body).map (·.declared)).Perm
      ((topLevelFunctionNames (arrayField body "tools")).map .function ++
        ((customToolNames (arrayField body "tools")).map .custom ++
          (offeredMembers (arrayField body "tools")).map fun m => .member m.1 m.2)) := by
  have hdeclared : (offers body).map (·.declared) =
      (arrayField body "tools").flatMap fun t => functionsOf t ++
        (customsOf t ++ membersOf (topLevelFunctionNames (arrayField body "tools")) t) := by
    rw [offers, List.map_flatMap]
    exact List.flatMap_congr fun t _ => declared_offersOf _ t
  have hfunctions := flatMap_named "function" .function (arrayField body "tools")
  have hcustoms := flatMap_named "custom" .custom (arrayField body "tools")
  have hmembers :=
    flatMap_membersOf (topLevelFunctionNames (arrayField body "tools")) (arrayField body "tools")
  rw [hdeclared, topLevelFunctionNames, customToolNames, offeredMembers, ← hfunctions,
    ← hcustoms, ← hmembers]
  refine (List.flatMap_append_perm _ _ _).symm.trans (List.Perm.append_left _ ?_)
  exact (List.flatMap_append_perm _ _ _).symm

theorem chatNames_perm (body : Value) :
    ((offeredTools body).map callName).Perm
      (topLevelFunctionNames (arrayField body "tools") ++
      (customToolNames (arrayField body "tools") ++
        (offeredMembers (arrayField body "tools")).map fun m =>
        namespaceChatToolName m.1 m.2)) := by
  have hnames :
      (offeredTools body).map callName =
      ((offers body).map (·.declared)).map Declared.chatName := by
    rw [offeredTools_eq, List.map_map, List.map_map]
    refine List.map_congr_left fun o ho => ?_
    obtain ⟨t, -, ho⟩ := List.mem_flatMap.mp ho
    exact callName_offer ho
  have hperm := (declared_perm body).map Declared.chatName
  simp only [List.map_append, List.map_map] at hperm
  have hfunction : Declared.chatName ∘ Declared.function = id := rfl
  have hcustom : Declared.chatName ∘ Declared.custom = id := rfl
  rw [hfunction, hcustom, List.map_id, List.map_id] at hperm
  rw [hnames, List.map_map]
  exact hperm

theorem nodup_chatNames_iff (body : Value) :
    ((offeredTools body).map callName).Nodup ↔
      (topLevelFunctionNames (arrayField body "tools")).Nodup ∧
      (customToolNames (arrayField body "tools")).Nodup ∧
        (∀ name ∈ customToolNames (arrayField body "tools"),
          name ∉ topLevelFunctionNames (arrayField body "tools")) ∧
        ((offeredMembers (arrayField body "tools")).map fun m => namespaceChatToolName
          m.1 m.2).Nodup ∧
        ∀ m ∈ offeredMembers (arrayField body "tools"),
          namespaceChatToolName m.1 m.2 ∉ customToolNames (arrayField body "tools") := by
  rw [(chatNames_perm body).nodup_iff, List.nodup_append, List.nodup_append]
  constructor
  · rintro ⟨hfunctions, ⟨hcustoms, hflat, hflatApart⟩, hapart⟩
    refine ⟨hfunctions, hcustoms, ?_, hflat, ?_⟩
    · intro name hcustom hfunction
      exact hapart name hfunction name (List.mem_append_left _ hcustom) rfl
    · intro m hm hcustom
      exact hflatApart _ hcustom _ (List.mem_map_of_mem hm) rfl
  · rintro ⟨hfunctions, hcustoms, hapart, hflat, hflatApart⟩
    refine ⟨hfunctions, ⟨hcustoms, hflat, ?_⟩, ?_⟩
    · rintro name hcustom _ hflatName rfl
      obtain ⟨m, hm, rfl⟩ := List.mem_map.mp hflatName
      exact hflatApart m hm hcustom
    · rintro name hfunction _ hother rfl
      rcases List.mem_append.mp hother with hcustom | hflatName
      · exact hapart name hcustom hfunction
      · obtain ⟨m, hm, rfl⟩ := List.mem_map.mp hflatName
        exact of_decide_eq_true (List.mem_filter.mp hm).2 hfunction

/-! ### How a name is read back -/

theorem namespaceToolMap_eq (tools : List Value) :
    namespaceToolMap tools =
      ((members tools).filter fun m => ((members tools).map (·.2)).count m.2 = 1 ∧
        m.2 ∉ topLevelFunctionNames tools).foldl
        (fun map m => map.insert m.2 m)
        ((offeredMembers tools).foldl
        (fun map m => map.insert (namespaceChatToolName m.1 m.2) m) ∅) := by
  rw [namespaceToolMap, offeredMembers, List.foldl_filter, List.foldl_filter]
  simp only [decide_eq_true_eq]

section Lookup

variable {tools : List Value}

theorem lookup_of_function {name : String} (h : name ∈ topLevelFunctionNames tools) :
    (namespaceToolMap tools).lookup name = none := by
  rw [namespaceToolMap_eq, KeyMap.lookup_foldl_insert_of_notMem,
    KeyMap.lookup_foldl_insert_of_notMem]
  · rfl
  · rintro m hm rfl
    exact of_decide_eq_true (List.mem_filter.mp hm).2 h
  · rintro m hm rfl
    exact (of_decide_eq_true (List.mem_filter.mp hm).2).2 h

theorem lookup_of_bare {m : String × String} (hm : m ∈ members tools)
    (hone : ((members tools).map (·.2)).count m.2 = 1) (h : m.2 ∉ topLevelFunctionNames tools) :
    (namespaceToolMap tools).lookup m.2 = some m := by
  rw [namespaceToolMap_eq]
  refine KeyMap.lookup_foldl_insert_of_mem ?_ (List.mem_filter.mpr ⟨hm, decide_eq_true ⟨hone, h⟩⟩)
  rw [List.nodup_iff_count_le_one]
  intro name
  by_cases hname : name ∈ ((members tools).filter fun m =>
      ((members tools).map (·.2)).count m.2 = 1 ∧ m.2 ∉ topLevelFunctionNames tools).map (·.2)
  · obtain ⟨m', hm', rfl⟩ := List.mem_map.mp hname
    have hcount := (of_decide_eq_true (List.mem_filter.mp hm').2).1
    exact le_of_le_of_eq ((List.filter_sublist.map Prod.snd).count_le _) hcount
  · rw [List.count_eq_zero_of_not_mem hname]
    exact Nat.zero_le 1

theorem lookup_of_flat {m : String × String} (hm : m ∈ offeredMembers tools)
    (hflat : ((offeredMembers tools).map fun m => namespaceChatToolName m.1 m.2).Nodup)
    (hbare : ∀ m' ∈ members tools, ((members tools).map (·.2)).count m'.2 = 1 →
      m'.2 ≠ namespaceChatToolName m.1 m.2) :
    (namespaceToolMap tools).lookup (namespaceChatToolName m.1 m.2) = some m := by
  rw [namespaceToolMap_eq, KeyMap.lookup_foldl_insert_of_notMem]
  · exact KeyMap.lookup_foldl_insert_of_mem hflat hm
  · intro m' hm'
    obtain ⟨hmem, hdecide⟩ := List.mem_filter.mp hm'
    exact hbare m' hmem (of_decide_eq_true hdecide).1

theorem namespaceChatToolName_ne (ns tool : String) : namespaceChatToolName ns tool ≠ tool := by
  intro h
  have hlength := congrArg String.length h
  rw [namespaceChatToolName, String.length_append, String.length_append] at hlength
  have htwo : "__".length = 2 := rfl
  omega

end Lookup

/-! ### Replaying a call -/

/-- The call a run of messages ends with. -/
def lastCall (messages : List ChatMessage) : Option Value :=
  messages.getLast?.bind fun last =>
    match last.extra.lookup "tool_calls" with
    | some (.array calls) => calls.getLast?
    | _ => none

theorem lastCall_pushToolCall (messages : List ChatMessage) (tc : Value) :
    lastCall (pushToolCall messages tc) = some tc := by
  unfold lastCall pushToolCall
  split
  · next last hlast =>
    split
    · rw [List.getLast?_concat, Option.bind_some, List.lookup_cons_self]
      dsimp only
      split
      · exact List.getLast?_concat
      · rfl
    · rw [List.getLast?_concat]
      rfl
  · rfl

/-- The choice of the tool that an item is a call of. -/
structure Chooses (choice item : Value) : Prop where
  type : strField choice "type" = some "function" ∨ strField choice "type" = some "custom" ∨
    strField choice "type" = some "tool"
  name : strField choice "name" = strField item "name"
  ns : strField choice "namespace" = strField item "namespace"

def chosenFunction (name : String) : Value :=
  .object [("type", .string "function"), ("function", .object [("name", .string name)])]

theorem responsesToolChoiceToChat_of_chooses {choice item : Value} (h : Chooses choice item)
    {name : String} (hname : strField item "name" = some name) :
    responsesToolChoiceToChat choice = some (chosenFunction (flatName item name)) := by
  have hflat : flatName choice name = flatName item name := by
    unfold flatName
    rw [h.ns]
  cases choice with
  | object fields =>
    unfold responsesToolChoiceToChat
    dsimp only
    rcases h.type with htype | htype | htype
    all_goals
      rw [htype, h.name, hname, Option.map_some, hflat]
      rfl
  | _ => rcases h.type with htype | htype | htype <;> cases htype

section Reply

variable {F : FloatText} {fromStr : String → Option Value}

theorem outputItem_of_toolCall {reply : ResponsesReplyContext} {tc : Value} {d : Declared}
    (uuid : String) (hname : callName tc = d.chatName)
    (hns : ∀ ns name, d = .member ns name → ns ≠ "")
    (h : reply.toolCall (callName tc) = d.reply) :
    ∃ name call, strField (outputItem fromStr reply uuid tc) "name" = some name ∧
      flatName (outputItem fromStr reply uuid tc) name = d.chatName ∧
      replayedCall F (outputItem fromStr reply uuid tc) = some call ∧
        callName call = d.chatName := by
  unfold outputItem
  rw [h]
  cases d with
  | function name => exact ⟨name, _, rfl, rfl, rfl, rfl⟩
  | custom name => exact ⟨callName tc, _, rfl, hname, rfl, hname⟩
  | member ns name =>
    have hflat :
        flatName (functionCallItem ("fc_" ++ uuid) (callId tc) name (some ns) (callArguments tc)
          "completed") name = namespaceChatToolName ns name := by
      unfold flatName
      have hfield :
          (strField (functionCallItem ("fc_" ++ uuid) (callId tc) name (some ns)
            (callArguments tc) "completed") "namespace").filter (· ≠ "") = some ns := by
        refine Option.filter_eq_some_iff.mpr ⟨rfl, ?_⟩
        exact decide_eq_true (hns ns name rfl)
      rw [hfield]
    exact ⟨name, _, rfl, hflat, rfl, hflat⟩

theorem unwrap_wrap (hread : ∀ input,
      fromStr (String.ofList (text F (.object [(CUSTOM_TOOL_INPUT_PARAM, .string input)]))) =
        some (.object [(CUSTOM_TOOL_INPUT_PARAM, .string input)])) (input : String) :
    unwrapCustomToolInput fromStr (wrapCustomToolInput F input) = input := by
  unfold unwrapCustomToolInput wrapCustomToolInput
  rw [hread]
  rfl

end Reply

/-! ### When every name is read back right -/

theorem ns_ne_of_mem_members {tools : List Value} {m : String × String} (h : m ∈ members tools) :
    m.1 ≠ "" := by
  obtain ⟨t, -, hpair⟩ := List.mem_flatMap.mp h
  obtain ⟨member, hmember, hpair⟩ := List.mem_filterMap.mp hpair
  obtain ⟨name, -, rfl⟩ := Option.map_eq_some_iff.mp hpair
  obtain ⟨tool, htool, -⟩ := List.mem_filterMap.mp hmember
  exact of_decide_eq_true (List.mem_filter.mp (List.mem_of_mem_filter htool)).2

theorem declared_cases {body : Value} {o : Offer} (h : o ∈ offers body) :
    callName o.tool = o.declared.chatName ∧
      ((∃ name ∈ topLevelFunctionNames (arrayField body "tools"), o.declared = .function name) ∨
        (∃ name ∈ customToolNames (arrayField body "tools"), o.declared = .custom name) ∨
          ∃ m ∈ offeredMembers (arrayField body "tools"), o.declared = .member m.1 m.2) := by
  have hmem := (declared_perm body).mem_iff.mp (List.mem_map_of_mem h)
  obtain ⟨t, -, ho⟩ := List.mem_flatMap.mp h
  refine ⟨callName_offer ho, ?_⟩
  rcases List.mem_append.mp hmem with hfunction | hother
  · obtain ⟨name, hname, hdeclared⟩ := List.mem_map.mp hfunction
    exact .inl ⟨name, hname, hdeclared.symm⟩
  · rcases List.mem_append.mp hother with hcustom | hmember
    · obtain ⟨name, hname, hdeclared⟩ := List.mem_map.mp hcustom
      exact .inr (.inl ⟨name, hname, hdeclared.symm⟩)
    · obtain ⟨m, hm, hdeclared⟩ := List.mem_map.mp hmember
      exact .inr (.inr ⟨m, hm, hdeclared.symm⟩)

theorem exists_offer_of_member {body : Value} {m : String × String}
    (h : m ∈ offeredMembers (arrayField body "tools")) :
    ∃ o ∈ offers body, o.declared = .member m.1 m.2 := by
  refine List.mem_map.mp ((declared_perm body).mem_iff.mpr ?_)
  exact List.mem_append_right _ (List.mem_append_right _ (List.mem_map_of_mem h))

/-- Every chat tool has a name of its own, by which it is called, called again and chosen. -/
structure Faithful (F : FloatText) (fromStr : String → Option Value)
    (echo : Value → List (String × Value)) (body : Value) : Prop where
  distinct : ((offeredTools body).map callName).Nodup
  returned :
    ∀ o ∈ offers body, (ResponsesReplyContext.fromRequest echo body).toolCall (callName o.tool) =
    o.declared.reply
  replayed : ∀ o ∈ offers body, ∀ tc, callName tc = callName o.tool → ∀ uuid messages, ∃ messages',
    appendInputItem F messages (outputItem fromStr (.fromRequest echo body) uuid tc) =
      some messages' ∧ (lastCall messages').map callName = some (callName o.tool)
  chosen : ∀ o ∈ offers body, ∀ tc, callName tc = callName o.tool → ∀ uuid choice,
    Chooses choice (outputItem fromStr (.fromRequest echo body) uuid tc) →
      responsesToolChoiceToChat choice = some (chosenFunction (callName o.tool))
  input : ∀ input, unwrapCustomToolInput fromStr (wrapCustomToolInput F input) = input

theorem Separate.toolCall_eq (echo : Value → List (String × Value)) {body : Value}
    (h : Separate (arrayField body "tools")) {o : Offer} (ho : o ∈ offers body) :
    (ResponsesReplyContext.fromRequest echo body).toolCall (callName o.tool) =
    o.declared.reply := by
  obtain ⟨hname, hcases⟩ := declared_cases ho
  rw [hname]
  unfold ResponsesReplyContext.toolCall ResponsesReplyContext.fromRequest
  dsimp only
  rw [lookup_pairs]
  rcases hcases with ⟨name, hmem, hdeclared⟩ | ⟨name, hmem, hdeclared⟩ | ⟨m, hmem, hdeclared⟩
  · rw [hdeclared, Declared.chatName, if_neg fun hcustom => h.customApart name hcustom hmem,
      lookup_of_function hmem]
    rfl
  · rw [hdeclared, Declared.chatName, if_pos hmem]
    rfl
  · rw [hdeclared, Declared.chatName, if_neg (h.flatApart m hmem),
      lookup_of_flat hmem h.flat (h.bareApart m hmem)]
    rfl

theorem Separate.of_toolCall {echo : Value → List (String × Value)} {body : Value}
    (hdistinct : ((offeredTools body).map callName).Nodup)
    (hreturned : ∀ o ∈ offers body, (ResponsesReplyContext.fromRequest echo body).toolCall
      (callName o.tool) = o.declared.reply) :
    Separate (arrayField body "tools") := by
  obtain ⟨hfunctions, hcustoms, hcustomApart, hflat, hflatApart⟩ :=
    (nodup_chatNames_iff body).mp hdistinct
  refine ⟨hfunctions, hcustoms, hcustomApart, hflat, hflatApart, ?_⟩
  intro m hm m' hm' hone heq
  obtain ⟨o, ho, hdeclared⟩ := exists_offer_of_member hm
  have htop : m'.2 ∉ topLevelFunctionNames (arrayField body "tools") := by
    rw [heq]
    exact of_decide_eq_true (List.mem_filter.mp hm).2
  have hlookup := lookup_of_bare hm' hone htop
  have hcall := hreturned o ho
  obtain ⟨hname, -⟩ := declared_cases ho
  rw [hname, hdeclared] at hcall
  unfold ResponsesReplyContext.toolCall ResponsesReplyContext.fromRequest at hcall
  dsimp only at hcall
  rw [Declared.chatName, if_neg (hflatApart m hm), lookup_pairs, ← heq, hlookup] at hcall
  have htool := (ReplyToolCall.function.inj hcall).1
  exact namespaceChatToolName_ne m.1 m.2 (heq.symm.trans htool)

theorem faithful_iff (F : FloatText) (fromStr : String → Option Value)
    (echo : Value → List (String × Value))
    (hread : ∀ input,
      fromStr (String.ofList (text F (.object [(CUSTOM_TOOL_INPUT_PARAM, .string input)]))) =
        some (.object [(CUSTOM_TOOL_INPUT_PARAM, .string input)])) (body : Value) :
    offeredTools body = (offers body).map (·.tool) ∧
      (Faithful F fromStr echo body ↔ Separate (arrayField body "tools")) := by
  refine ⟨offeredTools_eq body, fun h => .of_toolCall h.distinct h.returned, fun h => ?_⟩
  have hitem : ∀ o ∈ offers body, ∀ tc, callName tc = callName o.tool → ∀ uuid, ∃ name call,
      strField (outputItem fromStr (.fromRequest echo body) uuid tc) "name" = some name ∧
        flatName (outputItem fromStr (.fromRequest echo body) uuid tc) name = callName o.tool ∧
        replayedCall F (outputItem fromStr (.fromRequest echo body) uuid tc) = some call ∧
          callName call = callName o.tool := by
    intro o ho tc htc uuid
    obtain ⟨hname, hcases⟩ := declared_cases ho
    rw [hname]
    refine outputItem_of_toolCall uuid (htc.trans hname) ?_ (htc ▸ h.toolCall_eq echo ho)
    intro ns name hdeclared
    rcases hcases with ⟨_, -, hcase⟩ | ⟨_, -, hcase⟩ | ⟨m, hm, hcase⟩
    · cases hcase.symm.trans hdeclared
    · cases hcase.symm.trans hdeclared
    · cases hcase.symm.trans hdeclared
      exact ns_ne_of_mem_members (List.mem_of_mem_filter hm)
  exact {
    distinct :=
      (nodup_chatNames_iff body).mpr ⟨h.functions, h.customs, h.customApart, h.flat, h.flatApart⟩
    returned := fun o ho => h.toolCall_eq echo ho
    replayed := by
      intro o ho tc htc uuid messages
      obtain ⟨name, call, -, -, hcall, hcallName⟩ := hitem o ho tc htc uuid
      refine ⟨pushToolCall messages call, congrArg (Option.map (pushToolCall messages)) hcall, ?_⟩
      rw [lastCall_pushToolCall, Option.map_some, hcallName]
    chosen := by
      intro o ho tc htc uuid choice hchoice
      obtain ⟨name, call, hname, hflat, -, -⟩ := hitem o ho tc htc uuid
      rw [responsesToolChoiceToChat_of_chooses hchoice hname, hflat]
    input := unwrap_wrap hread }

def functionTool (name : String) : Value :=
  .object [("type", .string "function"), ("name", .string name)]

def namespaceTool (ns : String) (tools : List Value) : Value :=
  .object [("type", .string "namespace"), ("name", .string ns), ("tools", .array tools)]

/-- `b__c` in the namespace `a`, and `c` in the namespace `a__b`. -/
def twoNamespaces : Value :=
  .object
    [("tools",
      .array [namespaceTool "a" [functionTool "b__c"], namespaceTool "a__b" [functionTool "c"]])]

theorem faithful_iff_twoNamespaces :
    offeredTools twoNamespaces = (offers twoNamespaces).map (·.tool) ∧
      (Faithful bitsText (fun s => (Redact.Reader.inverse bitsText).fromStr s.toList)
      (fun _ => []) twoNamespaces ↔
        Separate (arrayField twoNamespaces "tools")) := by
  refine faithful_iff bitsText _ _ (fun input => ?_) twoNamespaces
  rw [String.toList_ofList]
  exact Redact.printedAs_text ⟨List.nodup_singleton _, trivial, trivial⟩

/-- Two tools are offered under one name, and the first is never called. -/
theorem twoNamespaces_not_faithful :
    (¬ ∃ F fromStr echo, Faithful F fromStr echo twoNamespaces) ∧
      (offeredTools twoNamespaces).map callName = ["a__b__c", "a__b__c"] ∧
      (ResponsesReplyContext.fromRequest (fun _ => []) twoNamespaces).toolCall "a__b__c" =
      .function "c" (some "a__b") := by
  have hnames : (offeredTools twoNamespaces).map callName = ["a__b__c", "a__b__c"] := by decide
  refine ⟨?_, hnames, by decide⟩
  rintro ⟨F, fromStr, echo, h⟩
  have hdistinct := h.distinct
  rw [hnames] at hdistinct
  exact absurd hdistinct (by decide)

/-- A name no other tool of a namespace has, laid over the chat name of one. -/
example :
    (ResponsesReplyContext.fromRequest (fun _ => [])
      (.object [("tools", .array [namespaceTool "a" [functionTool "b"],
        namespaceTool "x" [functionTool "a__b"]])])).toolCall "a__b" =
        .function "a__b" (some "x") := by
  decide

end Responses
end Aisix
