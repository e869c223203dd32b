import Aisix.Anthropic.SseEncoder
import Aisix.WindowScan.ChoiceTexts
import Aisix.WindowScan.Policy

/-!
# Aisix.WindowScan.Relay

The relay of a chat stream under a window policy: chunks are held until a window of text scans
clean, and released together.
-/

namespace Aisix
namespace WindowScan

open Json Anthropic

inductive Verdict where
  | allow
  | bypass (reason : String)
  | block (guardrailName unavailable : Option String)
  deriving DecidableEq, Repr

def Verdict.isBlock : Verdict → Bool
  | block .. => true
  | _ => false

/-- What the relay does that others see. -/
inductive Act where
  /-- The chain reads a text. -/
  | scan (text : List Char) (verdict : Verdict)
  /-- The caller is sent the chunk that was read as number `position`. -/
  | release (position : Nat) (chunk : ChatChunk)
  /-- The chain is told that a cap was outgrown. -/
  | overflow (failOpen : Bool)
  /-- The caller is sent the error frame of a block. -/
  | refused (guardrailName unavailable : Option String)
  | upstreamError
  | done

def Act.isOverflow : Act → Bool
  | overflow _ => true
  | _ => false

mutual

/-- The texts and keys of a JSON value, one behind the other. -/
def visitJsonText : Value → List Char
  | .string text => text.toList
  | .array items => visitItems items
  | .object fields => visitFields fields
  | _ => []

def visitItems : List Value → List Char
  | [] => []
  | v :: vs => visitJsonText v ++ visitItems vs

def visitFields : List (String × Value) → List Char
  | [] => []
  | (key, v) :: fields => key.toList ++ visitJsonText v ++ visitFields fields

end

def jsonFieldText (value : Option Value) : List Char := (value.map visitJsonText).getD []

/-- The texts of a chunk that are scanned, each for its channel. -/
def chunkTexts (chunk : ChatChunk) : List (Key × List Char) :=
  let refusal := (chunk.delta.extra.lookup "refusal").bind Value.asStr?
  let transcript := (chunk.delta.audio.bind (·.get "transcript")).bind Value.asStr?
  [(ChoiceTexts.CONTENT, chunk.delta.content), (ChoiceTexts.REFUSAL, refusal),
    (ChoiceTexts.TRANSCRIPT, transcript)].filterMap fun e =>
      e.2.map fun text => (toLex (chunk.choiceIndex, e.1), text.toList)

def U64_MAX : Nat := 2 ^ 64 - 1

/-- The call deltas of a chunk. A legacy call is one more call, in the shape of a tool-call delta.
-/
def calls (chunk : ChatChunk) : List (Nat × Value) :=
  let legacyCall :=
    (chunk.delta.functionCall.or (chunk.delta.extra.lookup "function_call")).map fun f =>
    Value.object [("function", f)]
  (chunk.delta.toolCalls.getD []).map (fun tc => (callIndex tc, tc)) ++
    (legacyCall.map fun tc => (U64_MAX, tc)).toList

/-- Name and arguments of each call delta, for its channel. -/
def callTexts (chunk : ChatChunk) : List (Key × List Char × List Char) :=
  (calls chunk).map fun e =>
    let function := (e.2.get "function").or (e.2.get "custom")
    let name := jsonFieldText (function.bind (·.get "name"))
    let args := jsonFieldText (function.bind fun f => (f.get "arguments").or (f.get "input"))
    (toLex (chunk.choiceIndex, e.1), name, args)

def RAW_HOLD_FACTOR : Nat := 128

def TAG_OUTPUT_BUFFER_EXCEEDED : String := "output_buffer_exceeded"

def hasNoPayload (chunk : ChatChunk) : Bool :=
  chunk.delta.role.isNone && chunk.delta.content.isNone && chunk.delta.toolCalls.isNone &&
    chunk.delta.functionCall.isNone && chunk.delta.reasoningContent.isNone &&
      chunk.delta.audio.isNone &&
    chunk.delta.extra.isEmpty && chunk.logprobs.isNone

/-- The folded window policy. -/
structure Window where
  sizeChars : Nat
  overlapChars : Nat
  maxBufferBytes : Nat
  onExceededFailOpen : Bool

/-- The chain as the relay asks it, whatever it answers, and what the relay is told of the request.
-/
structure Context where
  /-- The verdict on the text of the nth scan. -/
  checkOutput : Nat → List Char → Verdict
  /-- The same for the members that do not read segments. -/
  checkOutputNonSegment : Nat → List Char → Verdict
  /-- The segment pass over the chunks still held: its verdict, and what becomes of each chunk. -/
  moderate : Verdict → Option (List Char) → List ChatChunk → Verdict × (Nat → ChatChunk → ChatChunk)
  /-- The redactor: whether it could not rewrite, and what becomes of each chunk. -/
  redact : List ChatChunk → Bool × (Nat → ChatChunk → ChatChunk)
  /-- A chunk's serialised size, without its images. -/
  raw : ChatChunk → Nat
  /-- The chunk that reports the usage of the chunks read, if the caller asked for one. -/
  usageChunk : List ChatChunk → Option ChatChunk

structure Relay where
  read : List ChatChunk
  windowBuf : ChoiceTexts
  toolCallsBuf : ChoiceTexts
  windowToolCallsCap : Option (Nat × Bool)
  toolCallsOverflowed : Bool
  heldRaw : Nat
  /-- The chunks held, under the numbers they were read as. -/
  pending : List (Nat × ChatChunk)
  scans : Nat
  windowScanned : Bool
  errored : Bool
  capReleased : Bool
  acts : List Act

namespace Relay

def new (w : Window) : Relay where
  read := []
  windowBuf := .new
  toolCallsBuf := .new
  windowToolCallsCap := some (w.maxBufferBytes, w.onExceededFailOpen)
  toolCallsOverflowed := false
  heldRaw := 0
  pending := []
  scans := 0
  windowScanned := false
  errored := false
  capReleased := false
  acts := []

def act (s : Relay) (acts : List Act) : Relay := { s with acts := s.acts ++ acts }

/-- The text of a window: the channels, then the tool calls. -/
def scanText (s : Relay) : List Char :=
  let w := s.windowBuf.joined
  let tc := s.toolCallsBuf.joined
  if tc = [] then w else if w = [] then tc else w ++ '\n' :: tc

def outgrowsCalls (s : Relay) (name args : List Char) : Bool :=
  match s.windowToolCallsCap with
  | some (cap, _) =>
    cap < s.toolCallsBuf.len + (name.map Char.utf8Size).sum + (args.map Char.utf8Size).sum
  | none => false

def collectCalls (s : Relay) : List (Key × List Char × List Char) → Relay
  | [] => s
  | (key, name, args) :: rest =>
    if s.outgrowsCalls name args then { s with toolCallsOverflowed := true }
    else { s with toolCallsBuf := (s.toolCallsBuf.push key name).push key args }.collectCalls rest

/-- The texts and the calls of a chunk, for the scans to come. -/
def collect (s : Relay) (chunk : ChatChunk) : Relay :=
  if s.capReleased then s
  else
    let s := { s with windowBuf := s.windowBuf.pushAll (chunkTexts chunk) }
    if s.toolCallsOverflowed then s else s.collectCalls (callTexts chunk)

/-- Every held chunk goes out. -/
def releaseAll (s : Relay) : Relay :=
  { s.act (s.pending.map fun e => .release e.1 e.2) with pending := [] }

def refuse (s : Relay) (guardrailName unavailable : Option String) : Relay :=
  { s.act [.refused guardrailName unavailable] with errored := true }

/-- The chain has read the window. -/
def scanned (s : Relay) (verdict : Verdict) : Relay :=
  { s.act [.scan s.scanText verdict] with scans := s.scans + 1 }

/-- A clean window goes out, and each channel keeps its tail. -/
def passWindow (w : Window) (s : Relay) : Relay :=
  { s.releaseAll with
    heldRaw := 0
    windowBuf := s.windowBuf.keepTails w.overlapChars w.sizeChars
    windowScanned := true }

/-- The scan of a full window. -/
def scanWindow (c : Context) (w : Window) (s : Relay) : Relay :=
  let verdict := c.checkOutput s.scans s.scanText
  match verdict with
  | .block guardrailName unavailable => (s.scanned verdict).refuse guardrailName unavailable
  | _ => (s.scanned verdict).passWindow w

/-- The calls outgrew their cap. -/
def callsOverflow (s : Relay) : Relay :=
  match s.windowToolCallsCap, s.toolCallsOverflowed with
  | some (_, failOpen), true =>
    if failOpen then { s.act [.overflow true] with windowToolCallsCap := none }
    else (s.act [.overflow false]).refuse none (some TAG_OUTPUT_BUFFER_EXCEEDED)
  | _, _ => s

/-- The held chunks outgrew their cap. -/
def holdOverflow (w : Window) (s : Relay) : Relay :=
  if w.maxBufferBytes * RAW_HOLD_FACTOR < s.heldRaw then
    if w.onExceededFailOpen then { (s.act [.overflow true]).releaseAll with capReleased := true }
    else (s.act [.overflow false]).refuse none (some TAG_OUTPUT_BUFFER_EXCEEDED)
  else s

def pend (c : Context) (s : Relay) (position : Nat) (chunk : ChatChunk) : Relay :=
  { s with pending := s.pending ++ [(position, chunk)], heldRaw := s.heldRaw + c.raw chunk }

/-- A chunk is withheld until its window scans clean. -/
def hold (c : Context) (w : Window) (s : Relay) (position : Nat) (chunk : ChatChunk) : Relay :=
  let s := s.pend c position chunk
  let s := if s.windowBuf.windowFull w.sizeChars then s.scanWindow c w else s
  if s.errored then s else s.holdOverflow w

/-- Usage reports are taken off a chunk. -/
def withoutUsage (chunk : ChatChunk) : ChatChunk :=
  { chunk with usage := none, accountingUsage := none }

/-- The chunk has nothing for the caller but its usage report. -/
def usageOnly (chunk : ChatChunk) : Bool :=
  (chunk.usage.isSome || chunk.accountingUsage.isSome) && chunk.finishReason.isNone &&
    hasNoPayload chunk

/-- What a chunk adds to what was read. -/
def readChunk (s : Relay) (chunk : ChatChunk) : Relay :=
  { s with read := s.read ++ [chunk] }.collect chunk

/-- A chunk that was read goes out, or is held. -/
def forward (c : Context) (w : Window) (s : Relay) (position : Nat) (chunk : ChatChunk) : Relay :=
  if usageOnly chunk then s
  else
    let s := s.callsOverflow
    if s.errored then s
    else if s.capReleased then s.act [.release position (withoutUsage chunk)]
    else s.hold c w position (withoutUsage chunk)

/-- One chunk of the upstream, unless the relay has stopped. -/
def step (c : Context) (w : Window) (s : Relay) (chunk : ChatChunk) : Relay :=
  if s.errored then s else (s.readChunk chunk).forward c w s.read.length chunk

/-- The usage chunk, behind every other. -/
def reportUsage (c : Context) (s : Relay) : Relay :=
  match c.usageChunk s.read with
  | none => s
  | some chunk =>
    if s.capReleased then s.act [.release s.read.length chunk]
    else { s with pending := s.pending ++ [(s.read.length, chunk)] }

/-- What becomes of the held chunks, each in its place. -/
def edit (s : Relay) (f : Nat → ChatChunk → ChatChunk) : Relay :=
  { s with pending := s.pending.mapIdx fun i e => (e.1, f i e.2) }

/-- What the members make of the last window. -/
def judgeLast (c : Context) (s : Relay) : Verdict × (Nat → ChatChunk → ChatChunk) :=
  c.moderate (c.checkOutputNonSegment s.scans s.scanText)
    (if s.scanText = [] then none else some s.scanText) (s.pending.map (·.2))

/-- The scan of the last window. -/
def scanLast (c : Context) (s : Relay) : Relay :=
  if s.scanText = [] ∧ s.windowScanned then s
  else
    let (verdict, f) := s.judgeLast c
    let s := (s.edit f).scanned verdict
    match verdict with
    | .block guardrailName unavailable => s.refuse guardrailName unavailable
    | _ => s

/-- The last window is masked and goes out. -/
def releaseLast (c : Context) (s : Relay) : Relay :=
  let (unrewritable, f) := c.redact (s.pending.map (·.2))
  let s := s.edit f
  if unrewritable then s.refuse none none else s.releaseAll

/-- What is still held is scanned and goes out. -/
def flush (c : Context) (s : Relay) : Relay :=
  let s := s.scanLast c
  if s.errored then s else s.releaseLast c

/-- The end of the upstream. -/
def finish (c : Context) (s : Relay) : Relay :=
  if s.errored then s
  else
    let s := s.reportUsage c
    let s := if s.capReleased then s else s.flush c
    if s.errored then s else s.act [.done]

/-- Every chunk of the upstream, then its end; `failed` says that it ended in an error. -/
def run (c : Context) (w : Window) (chunks : List ChatChunk) (failed : Bool) : Relay :=
  let s := chunks.foldl (step c w) (new w)
  if s.errored then s else if failed then s.act [.upstreamError] else s.finish c

end Relay

end WindowScan
end Aisix
