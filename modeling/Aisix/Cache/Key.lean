import Aisix.Chat
import Aisix.JsonCanonical
import Aisix.OpaqueId.Sealer

/-!
# Aisix.Cache.Key

The cache key of a chat request (`key.rs`): the fields it is built from, the byte stream that is
hashed, and the text the semantic layer embeds.

The key is hashed field by field: a string as its UTF-8 bytes and one `0xff`, an integer as its
little-endian bytes, an option as an eight-byte discriminant before its value, and the two lists
without a count.
-/

namespace Aisix
namespace Cache

open Json OpaqueId

def roleStr : Role → String
  | .system => "system"
  | .developer => "developer"
  | .user => "user"
  | .assistant => "assistant"
  | .tool => "tool"
  | .function => "function"

/-- The inputs to the upstream call, and who may share the entry. -/
structure CacheKey where
  model : String
  messages : List (String × String)
  temperatureMilli : Option UInt32
  topPMilli : Option UInt32
  maxTokens : Option UInt32
  extras : List (String × String)
  policyId : String
  purgeGeneration : UInt32
  scopeValue : Option String
  deriving DecidableEq

section Build

variable (F : FloatText) (quantiseMilli : UInt64 → UInt32)

def canonicalJsonString (v : Value) : String := String.ofList (text F (canonicalise v))

def optString : Option String → Value
  | some s => .string s
  | none => .null

/-- What a message is told by besides its role: its text or its blocks under a prefix of their own,
or an object that also carries the name, the tool call id and the other fields. -/
def contentRepr (m : ChatMessage) : String :=
  match m.contentBlocks with
  | some blocks => canonicalJsonString F (.array blocks)
  | none => m.contentStr

/-- A message without a name, a tool call id and other fields. -/
def plain (m : ChatMessage) : Bool := m.name.isNone && m.toolCallId.isNone && m.extra.isEmpty

/-- A map is written in the order of its keys. -/
def decorated (m : ChatMessage) : Value :=
  .object [("content", .string (contentRepr F m)), ("extra", canonicalise (.object m.extra)),
    ("name", optString m.name), ("tool_call_id", optString m.toolCallId)]

def messagePair (m : ChatMessage) : String × String :=
  if plain m then
    let kind := if m.contentBlocks.isSome then "b:" else "t:"
    (roleStr m.role, kind ++ contentRepr F m)
  else (roleStr m.role, "j:" ++ String.ofList (text F (decorated F m)))

/-- The fields in key order, each with its canonical text. -/
def canonicalExtras (extra : List (String × Value)) : List (String × String) :=
  (sortFields extra).map fun e => (e.1, canonicalJsonString F e.2)

def CacheKey.fromRequest (req : ChatFormat) : CacheKey where
  model := req.model
  messages := req.messages.map (messagePair F)
  temperatureMilli := req.temperature.map quantiseMilli
  topPMilli := req.topP.map quantiseMilli
  maxTokens := req.maxTokens
  extras := canonicalExtras F req.extra
  policyId := ""
  purgeGeneration := 0
  scopeValue := none

end Build

/-- The name the routing tags ride the extras under. -/
def ROUTING_TAGS : String := "\x00routing_tags"

namespace CacheKey

def withScope (k : CacheKey) (policyId : String) (purgeGeneration : UInt32)
    (scopeValue : Option String) :
    CacheKey :=
  { k with policyId, purgeGeneration, scopeValue }

def withRoutingTags (k : CacheKey) (tags : Option String) : CacheKey :=
  match tags with
  | some tags => { k with extras := k.extras ++ [(ROUTING_TAGS, tags)] }
  | none => k

/-- `to_le_bytes`, of a value below `256 ^ n`. -/
def leBytes : Nat → Nat → List UInt8
  | 0, _ => []
  | n + 1, value => UInt8.ofNat value :: leBytes n (value / 256)

def strBytes (s : String) : List UInt8 := asBytes s ++ [0xff]

def optU32Bytes : Option UInt32 → List UInt8
  | none => leBytes 8 0
  | some n => leBytes 8 1 ++ leBytes 4 n.toNat

def optStrBytes : Option String → List UInt8
  | none => leBytes 8 0
  | some s => leBytes 8 1 ++ strBytes s

def pairBytes (e : String × String) : List UInt8 := strBytes e.1 ++ strBytes e.2

/-- The bytes of the non-message fields. -/
def hashScope (k : CacheKey) : List UInt8 :=
  strBytes k.model ++ optU32Bytes k.temperatureMilli ++ optU32Bytes k.topPMilli ++
    optU32Bytes k.maxTokens ++ k.extras.flatMap pairBytes ++ strBytes k.policyId ++
    leBytes 4 k.purgeGeneration.toNat ++ optStrBytes k.scopeValue

def hash (k : CacheKey) : List UInt8 := k.hashScope ++ k.messages.flatMap pairBytes

/-- `digest` gives the first 128 bits of SHA-256, in hex. -/
def fingerprint (digest : List UInt8 → String) (k : CacheKey) : String := digest k.hash

def scopeFingerprint (digest : List UInt8 → String) (k : CacheKey) : String := digest k.hashScope

end CacheKey

/-- The text of one message for the semantic layer, if a text embedding can represent it. -/
def semanticText (m : ChatMessage) : Option String :=
  if !plain m then none
  else
    match m.contentBlocks with
    | some blocks =>
      (blocks.mapM fun b : Value =>
        match b.asObject? with
        | none => none
        | some _ =>
          if (b.get "type").bind Value.asStr? = some "text" then
            some (((b.get "text").bind Value.asStr?).getD "")
          else none).map String.join
    | none => some (m.contentStr)

/-- Backslash and newline escaped. -/
def escapeLine (text : String) : List Char :=
  (text.toList.flatMap fun c => if c = '\\' then ['\\', '\\'] else [c]).flatMap
    fun c => if c = '\n' then ['\\', 'n'] else [c]

/-- `char::is_whitespace`: Unicode's `White_Space`. -/
def isWhitespace (c : Char) : Bool :=
  let n := c.toNat
  (9 ≤ n && n ≤ 13) || n == 0x20 || n == 0x85 || n == 0xa0 || n == 0x1680 ||
    (0x2000 ≤ n && n ≤ 0x200a) || n == 0x2028 || n == 0x2029 || n == 0x202f || n ==
    0x205f || n == 0x3000

/-- `text.trim().is_empty()`. -/
def isBlank (text : String) : Bool := text.toList.all isWhitespace

/-- One `role: content` line. -/
def semanticLine (role : Role) (text : String) : List Char :=
  (roleStr role).toList ++ ':' :: ' ' :: (escapeLine text ++ ['\n'])

/-- The roles and texts of a request, if a text embedding can represent every message. -/
def semanticLines (req : ChatFormat) : Option (List (Role × String)) :=
  req.messages.mapM fun m => (semanticText m).map (m.role, ·)

/-- Canonical text the semantic layer embeds for a request. -/
def semanticPromptText (req : ChatFormat) : Option String :=
  match semanticLines req with
  | none => none
  | some lines =>
    if lines.all fun l => isBlank l.2 then none
    else some (String.ofList (lines.flatMap fun l => semanticLine l.1 l.2))

end Cache
end Aisix
