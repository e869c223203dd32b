import Aisix.Chat
import Aisix.ChatMerge
import Aisix.JsonText

/-!
# Aisix.LegacyFunctions

The deprecated function-calling fields of a chat request rewritten into tools, and the answer to it
written back.
-/

namespace Aisix
namespace LegacyFunctions

open Json ChatMerge

/-- A legacy field set to `null` is absent. -/
def isSet : Option Value → Bool
  | none | some .null => false
  | some _ => true

def isNull : Option Value → Bool
  | some .null => true
  | _ => false

def dropNull (key : String) (fields : List (String × Value)) : List (String × Value) :=
  if isNull (fields.lookup key) then remove key fields else fields

structure LegacyFunctionCalling where
  /-- The caller reads the answer's call from `message.function_call`. -/
  legacyReply : Bool

/-! ### The request -/

def toolOf (function : Value) : Value :=
  .object [("type", .string "function"), ("function", function)]

def declareTools (extra : List (String × Value)) : Except String (List (String × Value)) :=
  match extra.lookup "functions" with
  | none => .ok extra
  | some (.array functions) =>
    let extra := remove "functions" extra
    match extra.lookup "tools" with
    | some (.array tools) => .ok (setMember "tools" (.array (tools ++ functions.map toolOf)) extra)
    | _ => .ok (setMember "tools" (.array (functions.map toolOf)) extra)
  | some _ => .error "`functions` must be an array of function definitions"

/-- The tool choice that a `function_call` of the request stands for. -/
def choiceOf : Value → Option Value
  | .string mode => if mode = "none" ∨ mode = "auto" then some (.string mode) else none
  | .object o =>
    match o.lookup "name" with
    | some (.string name) =>
      some (.object [("type", .string "function"), ("function", .object [("name", .string name)])])
    | _ => none
  | _ => none

def chooseTool (extra : List (String × Value)) : Except String (List (String × Value)) :=
  match extra.lookup "function_call" with
  | none => .ok extra
  | some functionCall =>
    let extra := remove "function_call" extra
    match choiceOf functionCall with
    | none => .error "`function_call` must be \"none\", \"auto\" or \x7b\"name\": \"...\"\x7d"
    | some choice =>
      .ok (if (extra.lookup "tool_choice").isSome then extra
        else setMember "tool_choice" choice extra)

/-- The id of the call in the turn at a position. -/
def callFunctionId (index : Nat) : String :=
  String.ofList ("call_function_".toList ++ Nat.toDigits 10 index)

def toolCallOf (index : Nat) (name : String) (call : Value) : Value :=
  .object [("id", .string (callFunctionId index)), ("type", .string "function"),
    ("function",
      .object
      [("name", .string name), ("arguments", (call.get "arguments").getD (.string "\x7b\x7d"))])]

def addToolCall (extra : List (String × Value)) (toolCall : Value) : List (String × Value) :=
  match extra.lookup "tool_calls" with
  | some (.array calls) => setMember "tool_calls" (.array (calls ++ [toolCall])) extra
  | _ => setMember "tool_calls" (.array [toolCall]) extra

/-- A turn's `function_call` as a tool call, and the id of the last call then. -/
def replayCall (index : Nat) (last : Option String) (m : ChatMessage) :
    Except String (ChatMessage × Option String) :=
  match m.extra.lookup "function_call" with
  | none => .ok (m, last)
  | some call =>
    match strField call "name" with
    | none =>
      .error
        (String.ofList ("`messages[".toList ++ Nat.toDigits 10 index ++
          "].function_call.name` must be a string".toList))
    | some name =>
      .ok ({ m with extra := addToolCall (remove "function_call" m.extra) (toolCallOf
        index name call) }, some (callFunctionId index))

/-- A `function` turn as a `tool` result. -/
def answerCall (index : Nat) (last : Option String) (m : ChatMessage) : ChatMessage :=
  if m.role = .function then
    { m with
      role := .tool, toolCallId := m.toolCallId.or (some (last.getD (callFunctionId index))) }
  else m

def replayFrom (index : Nat) (last : Option String) :
    List ChatMessage → Except String (List ChatMessage)
  | [] => .ok []
  | m :: ms =>
    match replayCall index last m with
    | .error e => .error e
    | .ok (m, last) => (replayFrom (index + 1) last ms).map (answerCall index last m :: ·)

def dropNullCall (m : ChatMessage) : ChatMessage :=
  { m with extra := dropNull "function_call" m.extra }

def usesLegacy (req : ChatFormat) : Bool :=
  isSet (req.extra.lookup "functions") || isSet (req.extra.lookup "function_call") ||
    (req.messages.any fun m => m.role == .function || isSet (m.extra.lookup "function_call")) ||
    (isNull (req.extra.lookup "functions") || isNull (req.extra.lookup "function_call")) ||
    req.messages.any fun m => isNull (m.extra.lookup "function_call")

def legacyFunctionsAsTools (req : ChatFormat) :
    Except String (ChatFormat × LegacyFunctionCalling) :=
  if !usesLegacy req then .ok (req, ⟨false⟩)
  else do
    let extra := dropNull "function_call" (dropNull "functions" req.extra)
    let legacyReply := (extra.lookup "functions").isSome && !isSet (extra.lookup "tools")
    let extra ← declareTools extra
    let extra ← chooseTool extra
    let messages ← replayFrom 0 none (req.messages.map dropNullCall)
    return ({ req with extra, messages }, ⟨legacyReply⟩)

/-! ### The answer -/

def legacyFinish (finish : FinishReason) : FinishReason :=
  if finish = .toolCalls then .other "function_call" else finish

def legacyMessage (m : ChatMessage) : ChatMessage :=
  let extra := remove "tool_calls" m.extra
  match m.extra.lookup "tool_calls" with
  | some (.array (call :: _)) =>
    match call.get "function" with
    | some function => { m with extra := setMember "function_call" function extra }
    | none => { m with extra := extra }
  | _ => { m with extra := extra }

def legacyChoice (choice : ChatChoice) : ChatChoice :=
  { choice with
    message := legacyMessage choice.message
    finishReason := legacyFinish choice.finishReason }

/-- A reply in the shape the caller asked in, each choice of it. -/
def reply (l : LegacyFunctionCalling) (resp : ChatResponse) : ChatResponse :=
  if l.legacyReply then
    { resp with
      message := legacyMessage resp.message
      finishReason := legacyFinish resp.finishReason
      moreChoices := resp.moreChoices.map legacyChoice }
  else resp

def legacyChunk (c : ChatChunk) : ChatChunk :=
  let first := (c.delta.toolCalls.getD []).find? fun call => callIndex call == 0
  let extra :=
    match first.bind fun call => call.get "function" with
    | some function => setMember "function_call" function c.delta.extra
    | none => c.delta.extra
  { c with
    delta := { c.delta with toolCalls := none, extra := extra }
    finishReason := c.finishReason.map legacyFinish }

def replyStream (l : LegacyFunctionCalling) (chunks : List ChatChunk) : List ChatChunk :=
  if l.legacyReply then chunks.map legacyChunk else chunks

end LegacyFunctions
end Aisix
