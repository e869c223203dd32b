import Aisix.HeldContent.Chat
import Aisix.KeyMap
import Aisix.Utf8

/-!
# Aisix.HeldContent.Responses

The ledger of the generated content that is held of a Responses stream, which pays for each text
once although it arrives as deltas, as a `done` event, as a part, as an item and again in the final
response; and the generic counter, which takes over when the ledger knows too many texts.
-/

namespace Aisix
namespace HeldContent

open Json

def MAX_RESPONSES_HELD_CARRIERS : Nat := 1024

def MAX_RESPONSES_HELD_ID_BYTES : Nat := 512

inductive ResponsesCarrierMode where
  | delta
  | snapshot
  deriving DecidableEq

/-! ### Addresses -/

inductive TextField where
  | text
  | refusal
  deriving DecidableEq

def TextField.name : TextField → String
  | .text => "text"
  | .refusal => "refusal"

inductive ReasoningGroup where
  | content
  | summary
  deriving DecidableEq

def ReasoningGroup.name : ReasoningGroup → String
  | .content => "content"
  | .summary => "summary"

def ReasoningGroup.indexField : ReasoningGroup → String
  | .content => "content_index"
  | .summary => "summary_index"

inductive ToolType where
  | functionCall
  | mcpCall
  | customToolCall
  deriving DecidableEq

def ToolType.name : ToolType → String
  | .functionCall => "function_call"
  | .mcpCall => "mcp_call"
  | .customToolCall => "custom_tool_call"

/-- The fields of a tool call: its name and what it is called with. -/
inductive ToolField where
  | name
  | payload
  deriving DecidableEq

def ToolType.field : ToolType → ToolField → String
  | _, .name => "name"
  | .customToolCall, .payload => "input"
  | _, .payload => "arguments"

structure Base where
  itemId : String
  outputIndex : Nat
  deriving DecidableEq

inductive Place where
  | content (index : Nat) (field : TextField)
  | reasoning (group : ReasoningGroup) (index : Nat)
  | tool (toolType : ToolType) (field : ToolField)
  deriving DecidableEq

/-- Where a text stands. -/
structure Slot where
  base : Base
  place : Place
  deriving DecidableEq

def decimal (n : Nat) : String := String.ofList (Nat.toDigits 10 n)

def Base.text (base : Base) : String :=
  decimal (len base.itemId) ++ ":" ++ base.itemId ++ ":" ++ decimal base.outputIndex

def Place.text : Place → String
  | .content index field => "/content/" ++ decimal index ++ "/" ++ field.name
  | .reasoning group index => "/reasoning/" ++ group.name ++ "/" ++ decimal index
  | .tool toolType field => "/tool/" ++ toolType.name ++ "/" ++ toolType.field field

/-- What the ledger keeps the text of the slot under. -/
def Slot.key (slot : Slot) : String := slot.base.text ++ slot.place.text

def asStr (v : Option Value) : Option String := v.bind Value.asStr?

def asU64 (v : Option Value) : Option Nat := v.bind Value.asU64?

def responseBase (itemId : Option String) (outputIndex : Option Nat) : Option Base :=
  itemId.bind fun itemId =>
    outputIndex.bind fun outputIndex =>
      if itemId.isEmpty = false ∧
        len itemId ≤ MAX_RESPONSES_HELD_ID_BYTES then some ⟨itemId, outputIndex⟩ else none

def responseEventBase (event : Value) : Option Base :=
  responseBase (asStr (event.get "item_id")) (asU64 (event.get "output_index"))

def responseItemBase (event item : Value) : Option Base :=
  (asStr (item.get "id")).bind fun itemId =>
    if (asStr (event.get "item_id")).any fun topLevelId => topLevelId != itemId then none
    else responseBase (some itemId) (asU64 (event.get "output_index"))

def responseItemBaseAt (item : Value) (outputIndex : Nat) : Option Base :=
  responseBase (asStr (item.get "id")) (some outputIndex)

/-! ### What an event carries -/

/-- One text that an event carries, in the order of the calls of `observe_text`. -/
structure Observation where
  slot : Option Slot
  text : Option String
  mode : ResponsesCarrierMode

/-- The events both counters know, by what they read of them. -/
inductive EventType where
  | textDelta (field : TextField)
  | textDone (field : TextField)
  | argumentsDelta (toolType : ToolType)
  | argumentsDone (toolType : ToolType)
  | contentPart
  | outputItem
  | response
  | reasoningDelta (group : ReasoningGroup)
  | reasoningDone (group : ReasoningGroup)
  | reasoningSummaryPart
  deriving DecidableEq

def EventType.table : List (String × EventType) :=
  [("response.output_text.delta", .textDelta .text),
    ("response.refusal.delta", .textDelta .refusal),
    ("response.output_text.done", .textDone .text),
    ("response.refusal.done", .textDone .refusal),
    ("response.function_call_arguments.delta", .argumentsDelta .functionCall),
    ("response.mcp_call_arguments.delta", .argumentsDelta .mcpCall),
    ("response.custom_tool_call_input.delta", .argumentsDelta .customToolCall),
    ("response.function_call_arguments.done", .argumentsDone .functionCall),
    ("response.mcp_call_arguments.done", .argumentsDone .mcpCall),
    ("response.custom_tool_call_input.done", .argumentsDone .customToolCall),
    ("response.content_part.added", .contentPart),
    ("response.content_part.done", .contentPart),
    ("response.output_item.added", .outputItem),
    ("response.output_item.done", .outputItem),
    ("response.completed", .response),
    ("response.incomplete", .response),
    ("response.failed", .response),
    ("response.reasoning_text.delta", .reasoningDelta .content),
    ("response.reasoning_summary_text.delta", .reasoningDelta .summary),
    ("response.reasoning_text.done", .reasoningDone .content),
    ("response.reasoning_summary_text.done", .reasoningDone .summary),
    ("response.reasoning_summary_part.added", .reasoningSummaryPart),
    ("response.reasoning_summary_part.done", .reasoningSummaryPart)]

def typeOf (v : Value) : Option String := asStr (v.get "type")

def eventType (event : Value) : Option EventType :=
  (typeOf event).bind fun t => EventType.table.lookup t

/-- The types of a part, as `responses_part_text` and `responses_part_parts` tell them apart. -/
inductive PartType where
  | text
  | refusal
  | reasoning (group : ReasoningGroup)
  deriving DecidableEq

def PartType.table : List (String × PartType) :=
  [("output_text", .text), ("text", .text), ("input_text", .text), ("refusal", .refusal),
    ("reasoning_text", .reasoning .content), ("summary_text", .reasoning .summary)]

def partType (part : Value) : Option PartType := (typeOf part).bind fun t => PartType.table.lookup t

inductive ItemType where
  | message
  | reasoning
  | tool (toolType : ToolType)
  deriving DecidableEq

def ItemType.table : List (String × ItemType) :=
  [("message", .message), ("reasoning", .reasoning), ("function_call", .tool .functionCall),
    ("mcp_call", .tool .mcpCall), ("custom_tool_call", .tool .customToolCall)]

def itemType (item : Value) : Option ItemType := (typeOf item).bind fun t => ItemType.table.lookup t

def responsesPartText (part : Value) : Option (TextField × String) :=
  match partType part with
  | some .text => (asStr (part.get "text")).map fun text => (.text, text)
  | some .refusal => (asStr (part.get "refusal")).map fun text => (.refusal, text)
  | _ => none

def observeEventContent (event : Value) (field : TextField) (text : Option String)
    (mode : ResponsesCarrierMode) :
    List Observation :=
  [⟨(responseEventBase event).bind fun base =>
      (asU64 (event.get "content_index")).map fun index => ⟨base, .content index field⟩, text,
        mode⟩]

def observeEventTool (event : Value) (toolType : ToolType) (field : ToolField)
    (text : Option String) (mode : ResponsesCarrierMode) : List Observation :=
  [⟨(responseEventBase event).map fun base => ⟨base, .tool toolType field⟩, text, mode⟩]

def observeEventReasoning (event : Value) (group : ReasoningGroup) (index : Option Nat)
    (text : Option String) (mode : ResponsesCarrierMode) : List Observation :=
  [⟨(responseEventBase event).bind fun base => index.map fun index => ⟨base,
    .reasoning group index⟩, text, mode⟩]

def observeEventPart (event part : Value) (mode : ResponsesCarrierMode) : List Observation :=
  match partType part with
  | some (.reasoning group) =>
    observeEventReasoning event group (asU64 (event.get group.indexField))
      (asStr (part.get "text")) mode
  | _ => (responsesPartText part).elim [] fun found =>
    observeEventContent event found.1 (some found.2) mode

def observeItem (item : Value) (base : Option Base) (mode : ResponsesCarrierMode) :
    List Observation :=
  match itemType item with
  | some .message =>
    (itemsOf (item.get "content")).zipIdx.flatMap fun e =>
      (responsesPartText e.1).elim [] fun found =>
        [⟨base.map fun base => ⟨base, .content e.2 found.1⟩, some found.2, mode⟩]
  | some .reasoning =>
    [ReasoningGroup.content, .summary].flatMap fun group =>
      (itemsOf (item.get group.name)).zipIdx.map fun e =>
        ⟨base.map fun base => ⟨base, .reasoning group e.2⟩, asStr (e.1.get "text"), mode⟩
  | some (.tool toolType) =>
    [ToolField.name, .payload].map fun field =>
      ⟨base.map fun base => ⟨base, .tool toolType field⟩, asStr (item.get (toolType.field field)),
        mode⟩
  | none => []

def outputOf (event : Value) : List Value :=
  itemsOf ((event.get "response").bind fun response => response.get "output")

/-- The texts `observe_event_inner` observes of an event. -/
def observations (event : Value) : List Observation :=
  match eventType event with
  | some (.textDelta field) => observeEventContent event field (asStr (event.get "delta")) .delta
  | some (.textDone field) =>
    observeEventContent event field (asStr (event.get field.name)) .snapshot
  | some (.argumentsDelta toolType) =>
    observeEventTool event toolType .payload (asStr (event.get "delta")) .delta
  | some (.argumentsDone toolType) =>
    [ToolField.name, .payload].flatMap fun field =>
      observeEventTool event toolType field (asStr (event.get (toolType.field field))) .snapshot
  | some .contentPart => (event.get "part").elim [] fun part =>
    observeEventPart event part .snapshot
  | some .outputItem => (event.get "item").elim [] fun item =>
    observeItem item (responseItemBase event item) .snapshot
  | some .response => (outputOf event).zipIdx.flatMap fun e =>
    observeItem e.1 (responseItemBaseAt e.1 e.2) .snapshot
  | some (.reasoningDelta group) =>
    observeEventReasoning event group (asU64 (event.get group.indexField))
      (asStr (event.get "delta")) .delta
  | some (.reasoningDone group) =>
    observeEventReasoning event group (asU64 (event.get group.indexField))
      (asStr (event.get "text")) .snapshot
  | some .reasoningSummaryPart =>
    (asStr ((event.get "part").bind fun part => part.get "text")).elim [] fun text =>
      observeEventReasoning event .summary (asU64 (event.get "summary_index")) (some text) .snapshot
  | none => []

/-! ### The ledger -/

/-- The state of a hash is what it has taken in. -/
structure ResponsesHeldCarrier where
  bytes : Nat
  hash : List UInt8

structure ResponsesHeldContent where
  carriers : KeyMap String ResponsesHeldCarrier
  saturated : Bool

def ResponsesHeldContent.default : ResponsesHeldContent := ⟨∅, false⟩

/-- `text.get(..n)` and `text.get(n..)`: nothing where `n` is no boundary of a character. -/
def splitAtByte : List Char → Nat → Option (List Char × List Char)
  | cs, 0 => some ([], cs)
  | [], _ + 1 => none
  | c :: cs, n + 1 =>
    if c.utf8Size ≤ n + 1 then (splitAtByte cs (n + 1 - c.utf8Size)).map fun p =>
      (c :: p.1, p.2) else none

section Ledger

variable {δ : Type*} [DecidableEq δ] (digest : List UInt8 → δ)

/-- `Sha256::digest(text)` is what a hash that has taken in `hash` would give. -/
def sameDigest (text : List Char) (hash : List UInt8) : Bool :=
  digest (Utf8.bytes (String.ofList text)) = digest hash

def newCarrier (text : String) : ResponsesHeldCarrier := ⟨len text, Utf8.bytes text⟩

/-- What a text adds to the carrier of its key, and what the carrier is then; `none` where there is
none yet. -/
def observeKnown (previous : ResponsesHeldCarrier) (text : String) :
    ResponsesCarrierMode → Nat × ResponsesHeldCarrier
  | .delta => (len text, ⟨previous.bytes + len text, previous.hash ++ Utf8.bytes text⟩)
  | .snapshot =>
    if len text = previous.bytes ∧ sameDigest digest text.toList previous.hash then (0, previous)
    else
      match splitAtByte text.toList previous.bytes with
      | some (pre, suffix) =>
        if sameDigest digest pre previous.hash then
          (len (String.ofList suffix),
            ⟨len text, previous.hash ++ Utf8.bytes (String.ofList suffix)⟩)
        else (len text, newCarrier text)
      | none => (len text, newCarrier text)

def observeText (s : ResponsesHeldContent) (key text : Option String)
    (mode : ResponsesCarrierMode) : Nat × ResponsesHeldContent :=
  match text.filter fun text => !text.isEmpty with
  | none => (0, s)
  | some text =>
    match key with
    -- never the carrier of another text, and none that is kept
    | none => (len text, s)
    | some key =>
      match s.carriers.lookup key with
      | none =>
        if MAX_RESPONSES_HELD_CARRIERS ≤
          s.carriers.keys.length then (len text, { s with saturated := true })
        else (len text, { s with carriers := s.carriers.insert key (newCarrier text) })
      | some previous =>
        let found := observeKnown digest previous text mode
        (found.1, { s with carriers := s.carriers.insert key found.2 })

def observeAll (s : ResponsesHeldContent) : List Observation → Nat × ResponsesHeldContent
  | [] => (0, s)
  | o :: os =>
    let first := observeText digest s (o.slot.map Slot.key) o.text o.mode
    let rest := observeAll first.2 os
    (first.1 + rest.1, rest.2)

/-- `none` asks for the generic counter. -/
def observeEvent (s : ResponsesHeldContent) (event : Value) : Option Nat × ResponsesHeldContent :=
  if s.saturated then (none, s)
  else
    let held := observeAll digest s (observations event)
    (if held.2.saturated then none else some held.1, held.2)

end Ledger

/-! ### The generic counter -/

def responsesPartParts (p : Parts) (part : Value) (reasoning : Bool) : Parts :=
  match partType part with
  | some .text =>
    if reasoning then p.reasoningStr (part.get "text") else p.scanStr (part.get "text")
  | some .refusal =>
    if reasoning then p.reasoningStr (part.get "refusal") else p.scanStr (part.get "refusal")
  | some (.reasoning _) => p.reasoningStr (part.get "text")
  | none => p

def responsesItemParts (p : Parts) (item : Value) : Parts :=
  match itemType item with
  | some .reasoning =>
    [ReasoningGroup.content, .summary].foldl
      (fun p group => (itemsOf (item.get group.name)).foldl
        (fun p part => responsesPartParts p part true) p) p
  | some .message =>
    (itemsOf (item.get "content")).foldl (fun p part => responsesPartParts p part false) p
  | some (.tool toolType) =>
    [ToolField.name, .payload].foldl (fun p field => p.scanStr (item.get (toolType.field field))) p
  | none => p

def responsesEventParts (v : Value) : Parts :=
  let p := Parts.default
  match eventType v with
  | some (.textDelta _) => p.scanStr (v.get "delta")
  | some (.argumentsDelta _) => p.scanStr (v.get "delta")
  | some (.textDone field) => p.scanStr (v.get field.name)
  | some (.argumentsDone toolType) =>
    [ToolField.name, .payload].foldl (fun p field => p.scanStr (v.get (toolType.field field))) p
  | some .contentPart => (v.get "part").elim p fun part => responsesPartParts p part false
  | some .outputItem => (v.get "item").elim p fun item => responsesItemParts p item
  | some .response => (outputOf v).foldl responsesItemParts p
  | some (.reasoningDelta _) => p.reasoningStr (v.get "delta")
  | some (.reasoningDone _) => p.reasoningStr (v.get "text")
  | some .reasoningSummaryPart => (v.get "part").elim p fun part => responsesPartParts p part true
  | none => p

def responsesEvent (v : Value) : Nat := (responsesEventParts v).held

/-! ### A stream -/

variable {δ : Type*} [DecidableEq δ] (digest : List UInt8 → δ)

/-- The ledger behind the events. -/
def ledgerAfter (events : List Value) : ResponsesHeldContent :=
  events.foldl (fun s event => (observeEvent digest s event).2) .default

/-- What one event is charged, by the ledger or by the generic counter. -/
def charge (s : ResponsesHeldContent) (event : Value) : Nat :=
  (observeEvent digest s event).1.getD (responsesEvent event)

/-- `responses_sse_held_frames` over frames that hold an event each. -/
def chargedFrom (s : ResponsesHeldContent) : List Value → Nat
  | [] => 0
  | event :: events => charge digest s event + chargedFrom (observeEvent digest s event).2 events

def charged (events : List Value) : Nat := chargedFrom digest .default events

end HeldContent
end Aisix
