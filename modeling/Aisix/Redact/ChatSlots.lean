import Aisix.Chat
import Aisix.Mcp.Name
import Aisix.Redact.Walk
import Aisix.Utf8

/-!
# Aisix.Redact.ChatSlots

The texts of a chat message: which of them the walk of the masking offers, and in which way, and
which of them the scan reads. Two hand-kept lists over the same JSON; `Aisix.Redact.ChatLockstep`
compares them.
-/

namespace Aisix

open Json

def Role.isInstruction : Role → Bool
  | .system => true
  | .developer => true
  | _ => false

namespace Redact

open Guardrails Mcp

/-! ### Pieces of text -/

inductive Step where
  | member (key : String)
  | item (i : Nat)
  /-- Into the JSON a string holds. -/
  | decoded
  deriving DecidableEq

inductive Leaf where
  | text (s : String)
  | name (key : String)
  | number
  deriving DecidableEq

/-- A piece of text and where it stands. -/
structure Piece where
  path : List Step
  leaf : Leaf
  deriving DecidableEq

def Piece.under (s : Step) (a : Piece) : Piece := ⟨s :: a.path, a.leaf⟩

def Piece.text (a : Piece) : String :=
  match a.leaf with
  | .text s => s
  | .name key => key
  | .number => ""

/-- An empty text says nothing. -/
def Leaf.speaks : Leaf → Bool
  | .text s => !s.isEmpty
  | .name key => !key.isEmpty
  | .number => true

def Leaf.isText : Leaf → Bool
  | .text _ => true
  | _ => false

def named (key : String) : Piece := ⟨[.member key], .name key⟩

def textAt (key s : String) : Piece := ⟨[.member key], .text s⟩

mutual

/-- The strings, member names and numbers of a value, in the order of the document. -/
def leaves : Value → List Piece
  | .string s => [⟨[], .text s⟩]
  | .number _ => [⟨[], .number⟩]
  | .array items => itemLeaves 0 items
  | .object fields => fieldLeaves fields
  | .null => []
  | .bool _ => []

def itemLeaves : Nat → List Value → List Piece
  | _, [] => []
  | i, v :: vs => (leaves v).map (Piece.under (.item i)) ++ itemLeaves (i + 1) vs

def fieldLeaves : List (String × Value) → List Piece
  | [] => []
  | (key, v) :: fields =>
    named key :: ((leaves v).map (Piece.under (.member key)) ++ fieldLeaves fields)

end

/-! ### The slots a walk offers -/

def Visit.map {ι κ : Type} (f : ι → κ) : Visit ι → Visit κ
  | .field a dir => .field (f a) dir
  | .structural a dir => .structural (f a) dir
  | .observed a dir role kept => .observed (f a) dir role kept
  | .messageStart => .messageStart
  | .malformed => .malformed

def inMember (v : Value) (key : String) (f : Value → List (Visit Piece)) : List (Visit Piece) :=
  (v.get key).elim [] fun child => (f child).map (Visit.map (Piece.under (.member key)))

def inItems (items : List Value) (f : Value → List (Visit Piece)) : List (Visit Piece) :=
  items.zipIdx.flatMap fun e => (f e.1).map (Visit.map (Piece.under (.item e.2)))

section Walks

variable (dir : Direction)

variable (parse : String → Option Value)

end Walks

/-! ### Content parts -/

def partType (part : Value) : Option String := (part.get "type").bind Value.asStr?

def isSignedPart (v : Value) : Bool :=
  ((v.get "signature").bind Value.asStr?).any fun s => !s.isEmpty

inductive ReasoningShape where
  | entries (key : String) (items : List Value)
  | text (s : String)

def reasoningShape (part : Value) : Option ReasoningShape :=
  match partType part with
  | some "thinking" =>
    match part.get "thinking" with
    | some (.array items) => some (.entries "thinking" items)
    | some (.string s) => some (.text s)
    | _ => none
  | some "reasoning" =>
    match part.get "summary" with
    | some (.array items) => some (.entries "summary" items)
    | _ => none
  | _ => none

/-- Each text of a reasoning part, and whether a signature covers it. -/
def reasoningPartSlots (part : Value) : List (Piece × Bool) :=
  match reasoningShape part with
  | none => []
  | some (.text s) => [(textAt "thinking" s, isSignedPart part)]
  | some (.entries key items) =>
    items.zipIdx.filterMap fun e => ((e.1.get "text").bind Value.asStr?).map fun s =>
      (((textAt "text" s).under (.item e.2)).under (.member key), isSignedPart part ||
        isSignedPart e.1)

def isMediaType (t : String) : Bool := t = "image_url" || t = "input_audio" || t = "file"

def partHasNamedSlots (part : Value) : Bool :=
  match partType part with
  | some "text" => (part.get "text").all fun v => v.asStr?.isSome
  | some t => isMediaType t || (reasoningShape part).isSome
  | none => (reasoningShape part).isSome

def isBase64Byte (b : UInt8) : Bool :=
  (0x30 ≤ b && b ≤ 0x39) || (0x41 ≤ b && b ≤ 0x5A) || (0x61 ≤ b && b ≤ 0x7A) || b ==
    0x2B || b == 0x2F

def isStrictBase64 (payload : List Char) : Bool :=
  let bytes := Utf8.bytes (String.ofList payload)
  let padding := (bytes.reverse.takeWhile (· == 0x3D)).length
  !bytes.isEmpty && bytes.length % 4 == 0 && padding ≤ 2 &&
    (bytes.take (bytes.length - padding)).all isBase64Byte

def isMediaDataUrl (text : String) : Bool :=
  ((stripPrefix "data:".toList text.toList).bind (splitOnce [','])).any fun r =>
    ";base64".toList.isSuffixOf r.1 && !"text/".toList.isPrefixOf r.1 && isStrictBase64 r.2

/-- The strings of a part that no named slot covers. -/
def unnamedPartStrings (part : Value) : List Piece :=
  if partHasNamedSlots part then []
  else
    match part with
    | .object fields =>
      (remove "type" fields).flatMap fun e =>
        ((leaves e.2).filter fun a => a.leaf.isText && !isMediaDataUrl a.text).map
          (Piece.under (.member e.1))
    | _ => []

/-- The `text` of a `text` part. -/
def textPartText (part : Value) : List Piece :=
  if partType part =
    some "text" then (((part.get "text").bind Value.asStr?).map (textAt "text")).toList else []

/-! ### The walk of a message -/

/-- The pieces of the blocks of a message. -/
def ofBlocks {α : Type} (m : ChatMessage) (f : Value → List α) (under : Step → α → α) : List α :=
  (m.contentBlocks.getD []).zipIdx.flatMap fun e =>
    (f e.1).map fun a => under (.member "content_blocks") (under (.item e.2) a)

variable (parse : String → Option Value)

def rposition {α : Type} (p : α → Bool) (l : List α) : Option Nat :=
  (l.reverse.findIdx? p).map fun i => l.length - 1 - i

def inputWindow (inLatestTurn : Bool) : Direction := if inLatestTurn then .input else .inputHistory

/-- What a value says. -/
def said (v : Value) : List Piece := (leaves v).filter fun a => a.leaf.speaks

/-- What members say: the names the wire gives are no text of the caller. -/
def saidMembers (wire : List String) (inside : String → Value → List Piece)
    (fields : List (String × Value)) : List Piece :=
  fields.flatMap fun e =>
    (if wire.contains e.1 || e.1.isEmpty then [] else [named e.1]) ++
      (inside e.1 e.2).map (Piece.under (.member e.1))

/-- What JSON-encoded arguments say is what their document says. -/
def saidArguments : Value → List Piece
  | .string encoded =>
    if encoded.isEmpty then []
    else
      match parse encoded with
      | some v => (said v).map (Piece.under .decoded)
      | none => [⟨[], .text encoded⟩]
  | v => said v

def saidFunction : Value → List Piece
  | .object fields =>
    saidMembers ["name", "arguments"]
      (fun key v => if key = "arguments" then saidArguments parse v else said v) fields
  | v => said v

def saidCustom : Value → List Piece
  | .object fields => saidMembers ["name", "input"] (fun _ v => said v) fields
  | v => said v

def TOOL_CALL_ID_KEYS : List String := ["id", "call_id", "tool_use_id", "tool_call_id"]

/-- A call without its ids. -/
def saidCall : Value → List Piece
  | .object fields =>
    saidMembers ["type", "function", "custom"]
      (fun key v => if key = "function" then saidFunction parse v
        else if key = "custom" then saidCustom v else said v)
      (fields.filter fun e => !TOOL_CALL_ID_KEYS.contains e.1)
  | v => said v

def saidItems (items : List Value) (f : Value → List Piece) : List Piece :=
  items.zipIdx.flatMap fun e => (f e.1).map (Piece.under (.item e.2))

/-- `tool_calls_scan_text` -/
def toolCallsScanText : Value → List Piece
  | .array calls => saidItems calls (saidCall parse)
  | v => said v

def saidMember (v : Value) (key : String) (f : Value → List Piece) : List Piece :=
  (v.get key).elim [] fun child => (f child).map (Piece.under (.member key))

/-- The texts of its text parts that say something. -/
def textPartTexts (m : ChatMessage) : List Piece :=
  ofBlocks m (fun b => (textPartText b).filter fun a => a.leaf.speaks) Piece.under

/-- The content, as the pieces it is put together from. -/
def contentReading (m : ChatMessage) : List (List Piece) :=
  match m.content with
  | some content => if content.isEmpty then [] else [[textAt "content" content]]
  | none => if (textPartTexts m).isEmpty then [] else [textPartTexts m]

/-- What else is read of a message, the signed reasoning apart. -/
def messageSaid (m : ChatMessage) : List Piece :=
  let extra := Value.object m.extra
  textPartTexts m ++ saidMember extra "tool_calls" (toolCallsScanText parse) ++
    saidMember extra "function_call" (saidFunction parse) ++
    saidMember extra "reasoning_content"
      (fun v => v.asStr?.elim [] fun s => if s.isEmpty then [] else [⟨[], .text s⟩]) ++
    ofBlocks m (fun b => (((reasoningPartSlots b).filter fun slot => !slot.2).map (·.1)).filter
      fun a => a.leaf.speaks) Piece.under ++
    ofBlocks m (fun b => (unnamedPartStrings b).filter fun a => a.leaf.speaks) Piece.under

/-- Everything that is read of a message, each text as the pieces it is put together from. -/
def messageScanText (m : ChatMessage) : List (List Piece) :=
  contentReading m ++ (messageSaid parse m).map fun a => [a]

end Redact
end Aisix
