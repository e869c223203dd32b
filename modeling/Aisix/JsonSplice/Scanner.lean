import Aisix.ByteOffsets
import Aisix.JsonSyntax
import Aisix.Utf8

/-!
# Aisix.JsonSplice.Scanner

The scanner of a JSON text that decodes the string values a visitor selects and splices the
replacements into the text: `rewriteStringValues`, a loop that takes one value, or one character
behind a value, at a time.

Everything the scanner looks at is ASCII, so that it is read here by characters; only the place of
an error counts bytes.
-/

namespace Aisix
namespace JsonSplice

open Json Json.Syntax

abbrev Bytes := List UInt8

/-- One step of the path from the document root to a value. -/
inductive PathSeg where
  | key (name : String)
  | index (i : Nat)
  deriving DecidableEq, Repr

inductive SpliceErrorKind where
  | invalid
  | depthExceeded
  deriving DecidableEq, Repr

structure SpliceError where
  pos : Nat
  kind : SpliceErrorKind
  deriving DecidableEq, Repr

/-- An error at the text that is left. -/
structure Fault where
  rest : List Char
  kind : SpliceErrorKind

def err (rest : List Char) : Fault := ⟨rest, .invalid⟩

def MAX_JSON_DEPTH : Nat := 4096

/-! ### Numbers -/

def exponentValid (token : List Char) : Bool :=
  match token with
  | [] => true
  | c :: r =>
    if c = 'e' ∨ c = 'E' then
      let digits := if r.head? = some '+' ∨ r.head? = some '-' then r.tail else r
      let rest := digits.dropWhile Char.isDigit
      rest.length ≠ digits.length ∧ rest = []
    else false

def fractionValid (token : List Char) : Bool :=
  match token with
  | [] => exponentValid []
  | c :: r =>
    if c = '.' then
      let rest := r.dropWhile Char.isDigit
      rest.length ≠ r.length && exponentValid rest
    else exponentValid (c :: r)

/-- `is_json_number`. -/
def isJsonNumber (token : List Char) : Bool :=
  match (if token.head? = some '-' then token.tail else token) with
  | [] => false
  | c :: r =>
    if c = '0' then fractionValid r
    else if c.isDigit then fractionValid (r.dropWhile Char.isDigit)
    else false

/-! ### Tokens -/

def skipWs (rest : List Char) : List Char := rest.dropWhile isWhitespace

/-- The string token from behind its opening quote, and what follows it; `start` is where the quote
stands. -/
def scanBody (start : List Char) : List Char → Except Fault (List Piece × List Char)
  | [] => .error (err start)
  | c :: r =>
    if hplain : isPlain c = true then (scanBody start r).map fun s => (.plain c hplain :: s.1, s.2)
    else if c = '\"' then .ok ([], r)
    else if c = '\\' then
      match r with
      | [] => .error (err (c :: r))
      | e :: r' =>
        if hescape : (simpleEscape e).isSome = true then
          (scanBody start r').map fun s => (.escape e hescape :: s.1, s.2)
        else if e = 'u' then
          match r' with
          | h₁ :: h₂ :: h₃ :: h₄ :: r'' =>
            if hex : (isHexDigit h₁ && isHexDigit h₂ && isHexDigit h₃ && isHexDigit h₄) = true then
              (scanBody start r'').map fun s => (.unicode ⟨h₁, h₂, h₃, h₄, hex⟩ :: s.1, s.2)
            else .error (err (c :: r))
          | _ => .error (err (c :: r))
        else .error (err (c :: r))
    else .error (err (c :: r))

/-- `scan_string`: the token in front, and what follows it. -/
def scanString (rest : List Char) : Except Fault (StringToken × List Char) :=
  (scanBody rest rest.tail).map fun s => (⟨s.1⟩, s.2)

/-- `decode_str`, of the token that stands in front of `rest`. -/
def decodeStr (rest : List Char) (token : StringToken) : Except Fault String :=
  match token.decode with
  | some s => .ok s
  | none => .error (err rest)

/-- The name of a member and its colon. -/
def scanName (rest : List Char) : Except Fault (String × List Char) :=
  if rest.head? = some '\"' then do
    let (token, r) ← scanString rest
    let name ← decodeStr rest token
    let r := skipWs r
    if r.head? = some ':' then .ok (name, r.tail) else .error (err r)
  else .error (err rest)

def isTokenChar (c : Char) : Bool :=
  c == '-' || c == '+' || c == '.' || c.isDigit || (97 ≤ c.toNat && c.toNat ≤ 122) ||
    (65 ≤ c.toNat && c.toNat ≤ 90)

def isScalar (token : List Char) : Bool :=
  token = "true".toList || token = "false".toList || token = "null".toList || isJsonNumber token

/-! ### The loop -/

inductive Frame where
  | object
  | array
  deriving DecidableEq, Repr

/-- What selects string values by their path, and what replaces them; both may change the state `σ`.
-/
structure Visitor (σ : Type) where
  shouldRewrite : List PathSeg → σ → Bool × σ
  rewrite : String → σ → Option String × σ

inductive Phase where
  | value
  | after
  deriving DecidableEq, Repr

/-- Where the scanner stands. The path and the frames are listed from the innermost out. -/
structure Cfg (σ : Type) where
  phase : Phase
  rest : List Char
  path : List PathSeg
  frames : List Frame
  splices : List ((Nat × Nat) × String)
  visitor : σ

inductive Turn (σ : Type) where
  | next (c : Cfg σ)
  | done

variable {σ : Type} (v : Visitor σ) (input : List Char)

namespace Cfg

def pos (rest : List Char) : Nat := input.length - rest.length

def openObject (c : Cfg σ) (here r : List Char) : Except Fault (Turn σ) :=
  if MAX_JSON_DEPTH < c.frames.length + 1 then .error ⟨here, .depthExceeded⟩
  else
    let r := skipWs r
    if r.head? = some '\x7d' then .ok (.next { c with phase := .after, rest := r.tail })
    else do
      let (name, r) ← scanName r
      .ok (.next { c with rest := r, path := .key name :: c.path, frames := .object :: c.frames })

def openArray (c : Cfg σ) (here r : List Char) : Except Fault (Turn σ) :=
  if MAX_JSON_DEPTH < c.frames.length + 1 then .error ⟨here, .depthExceeded⟩
  else
    let r := skipWs r
    if r.head? = some ']' then .ok (.next { c with phase := .after, rest := r.tail })
    else .ok (.next { c with rest := r, path := .index 0 :: c.path, frames := .array :: c.frames })

def scanValue (c : Cfg σ) (here : List Char) : Except Fault (Turn σ) := do
  let (token, r) ← scanString here
  let (selected, s) := v.shouldRewrite c.path.reverse c.visitor
  if selected then
    let decoded ← decodeStr here token
    match v.rewrite decoded s with
    | (some new, s) =>
      .ok (.next { c with
        phase := .after, rest := r, visitor := s,
        splices := c.splices ++ [((pos input here, pos input r), new)] })
    | (none, s) => .ok (.next { c with phase := .after, rest := r, visitor := s })
  else .ok (.next { c with phase := .after, rest := r, visitor := s })

def scanScalar (c : Cfg σ) (here : List Char) : Except Fault (Turn σ) :=
  if isScalar (here.takeWhile isTokenChar) then
    .ok (.next { c with phase := .after, rest := here.dropWhile isTokenChar })
  else .error (err here)

/-- A value starts here. -/
def valueStep (c : Cfg σ) : Except Fault (Turn σ) :=
  match skipWs c.rest with
  | [] => .error (err [])
  | b :: r =>
    if b = '\x7b' then c.openObject (b :: r) r
    else if b = '[' then c.openArray (b :: r) r
    else if b = '\"' then c.scanValue v input (b :: r)
    else if b = '-' ∨ b.isDigit ∨ b = 't' ∨ b = 'f' ∨ b = 'n' then c.scanScalar (b :: r)
    else .error (err (b :: r))

/-- A value just ended. -/
def afterStep (c : Cfg σ) : Except Fault (Turn σ) :=
  let r := skipWs c.rest
  match c.frames with
  | [] => if r = [] then .ok .done else .error (err r)
  | .object :: frames =>
    if r.head? = some ',' then do
      let (name, r) ← scanName (skipWs r.tail)
      .ok (.next { c with phase := .value, rest := r, path := .key name :: c.path.tail })
    else if r.head? = some '\x7d' then
      .ok (.next { c with rest := r.tail, path := c.path.tail, frames := frames })
    else .error (err r)
  | .array :: frames =>
    if r.head? = some ',' then
      match c.path with
      | .index i :: path =>
        .ok (.next { c with phase := .value, rest := r.tail, path := .index (i + 1) :: path })
      | _ => .error (err r.tail)
    else if r.head? = some ']' then
      .ok (.next { c with rest := r.tail, path := c.path.tail, frames := frames })
    else .error (err r)

def step (c : Cfg σ) : Except Fault (Turn σ) :=
  match c.phase with
  | .value => c.valueStep v input
  | .after => c.afterStep

/-- The loop. Every turn but the last takes a character, so that the fuel is never what ends it. -/
def run : Nat → Cfg σ → Except Fault (Cfg σ)
  | 0, c => .error (err c.rest)
  | fuel + 1, c =>
    match c.step v input with
    | .error e => .error e
    | .ok .done => .ok c
    | .ok (.next c') => run fuel c'

def start (s : σ) : Cfg σ := ⟨.value, input, [], [], [], s⟩

end Cfg

/-- The text with the replacements put in, from `copied` on. -/
def spliced (copied : Nat) : List ((Nat × Nat) × String) → List Char
  | [] => input.drop copied
  | ((start, stop), new) :: splices =>
    (input.drop copied).take (start - copied) ++ (quote new ++ spliced stop splices)

/-- `rewrite_string_values`: the text after the replacements, if there are any, and the state of the
visitor. -/
def rewriteStringValues (v : Visitor σ) (input : Bytes) (s : σ) :
    Except SpliceError (Option Bytes × σ) :=
  match Utf8.decode? input with
  | none => .error ⟨Utf8.validUpTo input, .invalid⟩
  | some text =>
    match Cfg.run v text.toList (text.toList.length + 1) (.start text.toList s) with
    | .error e => .error ⟨ByteOffsets.offset text.toList (Cfg.pos text.toList e.rest), e.kind⟩
    | .ok c =>
      if c.splices = [] then .ok (none, c.visitor)
      else .ok (some (Utf8.bytes (String.ofList (spliced text.toList 0 c.splices))), c.visitor)

end JsonSplice
end Aisix
