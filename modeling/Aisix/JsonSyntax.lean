import Aisix.JsonText

/-!
# Aisix.JsonSyntax

JSON documents as they are written: every token and every run of whitespace is kept, so that a
document and its text say the same (`Document.text`), and a value is what a document stands for
(`Node.value?`).

* A string token is a list of characters and escapes. It stands for a text unless an escape names
  half of a surrogate pair alone (`StringToken.decode`).
* What a number token stands for is a parameter: a reader may refuse a number that it cannot hold.
* `decode_ofString` — the compact text of a string is a token that stands for it.
-/

namespace Aisix
namespace Json
namespace Syntax

/-! ### Tokens -/

def isWhitespace (c : Char) : Bool := c == ' ' || c == '\t' || c == '\n' || c == '\r'

structure Ws where
  text : List Char
  blank : ∀ c ∈ text, isWhitespace c = true

def Ws.empty : Ws := ⟨[], by simp⟩

def Ws.append (a b : Ws) : Ws where
  text := a.text ++ b.text
  blank := by
    intro c hc
    rcases List.mem_append.mp hc with h | h
    · exact a.blank c h
    · exact b.blank c h

@[simp] theorem Ws.text_append (a b : Ws) : (a.append b).text = a.text ++ b.text := rfl

def isHexDigit (c : Char) : Bool :=
  c.isDigit || (97 ≤ c.toNat && c.toNat ≤ 102) || (65 ≤ c.toNat && c.toNat ≤ 70)

def hexValue (c : Char) : Nat :=
  if c.isDigit then c.toNat - 48 else if 97 ≤ c.toNat then c.toNat - 87 else c.toNat - 55

/-- The four digits of a `\u` escape. -/
structure Hex4 where
  (a b c d : Char)
  hex : isHexDigit a && isHexDigit b && isHexDigit c && isHexDigit d

def Hex4.text (h : Hex4) : List Char := [h.a, h.b, h.c, h.d]

def Hex4.value (h : Hex4) : Nat :=
  ((hexValue h.a * 16 + hexValue h.b) * 16 + hexValue h.c) * 16 + hexValue h.d

/-- The character an escape of two characters stands for. -/
def simpleEscape (c : Char) : Option Char :=
  if c = '\"' then some '\"'
  else if c = '\\' then some '\\'
  else if c = '/' then some '/'
  else if c = 'b' then some (Char.ofNat 8)
  else if c = 'f' then some (Char.ofNat 12)
  else if c = 'n' then some '\n'
  else if c = 'r' then some '\r'
  else if c = 't' then some '\t'
  else none

/-- A character that stands in a string for itself. -/
def isPlain (c : Char) : Bool := c != '\"' && c != '\\' && 32 ≤ c.toNat

inductive Piece where
  | plain (c : Char) (ok : isPlain c = true)
  | escape (c : Char) (ok : (simpleEscape c).isSome = true)
  | unicode (h : Hex4)

def Piece.text : Piece → List Char
  | .plain c _ => [c]
  | .escape c _ => ['\\', c]
  | .unicode h => '\\' :: 'u' :: h.text

def isHighSurrogate (n : Nat) : Bool := 0xD800 ≤ n && n < 0xDC00

def isLowSurrogate (n : Nat) : Bool := 0xDC00 ≤ n && n < 0xE000

/-- The character a surrogate pair stands for. -/
def pairChar (high low : Nat) : Char :=
  Char.ofNat (0x10000 + (high - 0xD800) * 0x400 + (low - 0xDC00))

def decodePieces : List Piece → Option (List Char)
  | [] => some []
  | .plain c _ :: ps => (decodePieces ps).map (c :: ·)
  | .escape c _ :: ps => (simpleEscape c).bind fun d => (decodePieces ps).map (d :: ·)
  | .unicode h :: ps =>
    if isLowSurrogate h.value then none
    else if isHighSurrogate h.value then
      match ps with
      | .unicode l :: rest =>
        if isLowSurrogate l.value then (decodePieces rest).map
          (pairChar h.value l.value :: ·) else none
      | _ => none
    else (decodePieces ps).map (Char.ofNat h.value :: ·)

/-- What a piece stands for by itself. -/
def Piece.char? : Piece → Option Char
  | .plain c _ => some c
  | .escape c _ => simpleEscape c
  | .unicode h =>
    if isLowSurrogate h.value || isHighSurrogate h.value then none else some (Char.ofNat h.value)

theorem decodePieces_cons {p : Piece} {c : Char} (h : p.char? = some c) (ps : List Piece) :
    decodePieces (p :: ps) = (decodePieces ps).map (c :: ·) := by
  cases p with
  | plain d _ =>
    rw [Piece.char?, Option.some.injEq] at h
    rw [decodePieces, h]
  | escape d _ =>
    rw [Piece.char?] at h
    rw [decodePieces, h, Option.bind_some]
  | unicode u =>
    rw [Piece.char?] at h
    split at h
    · cases h
    · next hnot =>
      rw [Bool.or_eq_true, not_or] at hnot
      obtain rfl := Option.some.inj h
      -- the definition looks at the next piece before it looks at this one's value
      cases ps with
      | nil => simp [decodePieces, hnot]
      | cons q ps => cases q <;> simp [decodePieces, hnot]

/-- How the compact text writes one character. -/
def Piece.ofChar (c : Char) : Piece :=
  if hplain : isPlain c = true then .plain c hplain
  else if c = '\"' then .escape '\"' (by decide)
  else if c = '\\' then .escape '\\' (by decide)
  else if c.toNat = 8 then .escape 'b' (by decide)
  else if c.toNat = 9 then .escape 't' (by decide)
  else if c.toNat = 10 then .escape 'n' (by decide)
  else if c.toNat = 12 then .escape 'f' (by decide)
  else if c.toNat = 13 then .escape 'r' (by decide)
  else if hex : isHexDigit (hexDigit (c.toNat / 16)) = true ∧
    isHexDigit (hexDigit (c.toNat % 16)) = true then
    .unicode ⟨'0', '0', hexDigit (c.toNat / 16), hexDigit (c.toNat % 16), by simp [hex]; decide⟩
  else .escape '/' (by decide)

theorem Piece.ofChar_escaped :
    ∀ c ∈ escaped, (ofChar c).char? = some c ∧ (ofChar c).text = escapeChar c := by
  have h :
      (escaped.all fun c => decide ((ofChar c).char? = some c ∧ (ofChar c).text = escapeChar c)) =
      true := by
    decide +kernel
  intro c hc
  exact of_decide_eq_true (List.all_eq_true.mp h c hc)

theorem isPlain_of_notMem {c : Char} (h : c ∉ escaped) : isPlain c = true := by
  have hq : c ≠ '\"' := by rintro rfl; exact h (by decide)
  have hb : c ≠ '\\' := by rintro rfl; exact h (by decide)
  have hlow : ¬ c.toNat < 32 := by
    intro hlt
    exact h (List.mem_append_left _
      (List.mem_map.mpr ⟨c.toNat, List.mem_range.mpr hlt, Char.ofNat_toNat c⟩))
  simp [isPlain, hq, hb]
  omega

theorem Piece.ofChar_spec (c : Char) :
    (ofChar c).char? = some c ∧ (ofChar c).text = escapeChar c := by
  by_cases hc : c ∈ escaped
  · exact ofChar_escaped c hc
  · have hplain := isPlain_of_notMem hc
    rw [ofChar, dif_pos hplain, escapeChar_of_notMem hc]
    exact ⟨rfl, rfl⟩

structure StringToken where
  pieces : List Piece

namespace StringToken

/-- The text behind the opening quote. -/
def body (t : StringToken) : List Char := t.pieces.flatMap Piece.text ++ ['\"']

def text (t : StringToken) : List Char := '\"' :: t.body

def decode (t : StringToken) : Option String := (decodePieces t.pieces).map String.ofList

/-- The token the compact text writes. -/
def ofString (s : String) : StringToken := ⟨s.toList.map Piece.ofChar⟩

theorem text_ofString (s : String) : (ofString s).text = quote s := by
  rw [text, body, ofString, List.flatMap_map, quote]
  congr 2
  exact List.flatMap_congr fun c _ => (Piece.ofChar_spec c).2

theorem decode_ofString (s : String) : (ofString s).decode = some s := by
  have h : ∀ l : List Char, decodePieces (l.map Piece.ofChar) = some l := by
    intro l
    induction l with
    | nil => rfl
    | cons c l ih =>
      rw [List.map_cons, decodePieces_cons (Piece.ofChar_spec c).1, ih]
      rfl
  rw [decode, ofString, h, Option.map_some, String.ofList_toList]

end StringToken

structure Digits where
  text : List Char
  digits : ∀ c ∈ text, c.isDigit = true
  nonempty : text ≠ []

/-- The integer part of a number: a zero, or digits that do not begin with one. -/
inductive IntPart where
  | zero
  | digits (lead : Char) (more : List Char) (lead_ok : lead.isDigit = true ∧ lead ≠ '0')
      (more_ok : ∀ c ∈ more, c.isDigit = true)

def IntPart.text : IntPart → List Char
  | .zero => ['0']
  | .digits lead more _ _ => lead :: more

structure Exponent where
  marker : Char
  sign : List Char
  digits : Digits
  marker_ok : marker = 'e' ∨ marker = 'E'
  sign_ok : sign = [] ∨ sign = ['+'] ∨ sign = ['-']

def Exponent.text (e : Exponent) : List Char := e.marker :: (e.sign ++ e.digits.text)

structure NumberToken where
  negative : Bool
  int : IntPart
  fraction : Option Digits
  exponent : Option Exponent

namespace NumberToken

def fractionText (fraction : Option Digits) : List Char := fraction.elim [] fun d => '.' :: d.text

def exponentText (exponent : Option Exponent) : List Char := exponent.elim [] Exponent.text

def text (n : NumberToken) : List Char :=
  (if n.negative then ['-'] else []) ++
    (n.int.text ++ (fractionText n.fraction ++ exponentText n.exponent))

end NumberToken

inductive Scalar where
  | true
  | false
  | null
  | number (n : NumberToken)

def Scalar.text : Scalar → List Char
  | .true => "true".toList
  | .false => "false".toList
  | .null => "null".toList
  | .number n => n.text

/-- A comma and the whitespace around it. -/
structure Sep where
  (before after : Ws)

def Sep.text (s : Sep) : List Char := s.before.text ++ ',' :: s.after.text

/-- The name of a member, up to its value. -/
structure Name where
  key : StringToken
  (beforeColon afterColon : Ws)

def Name.upToColon (n : Name) : List Char := n.key.text ++ (n.beforeColon.text ++ [':'])

def Name.text (n : Name) : List Char := n.upToColon ++ n.afterColon.text

/-! ### Documents -/

inductive Node where
  | scalar (t : Scalar)
  | string (t : StringToken)
  | emptyArray (ws : Ws)
  | array (lead : Ws) (first : Node) (rest : List (Sep × Node)) (trail : Ws)
  | emptyObject (ws : Ws)
  | object (lead : Ws) (name : Name) (first : Node) (rest : List (Sep × Name × Node)) (trail : Ws)

namespace Node

mutual

def text : Node → List Char
  | .scalar t => t.text
  | .string t => t.text
  | .emptyArray ws => '[' :: (ws.text ++ [']'])
  | .array lead first rest trail =>
    '[' :: (lead.text ++ (text first ++ (moreItemsText rest ++ (trail.text ++ [']']))))
  | .emptyObject ws => '\x7b' :: (ws.text ++ ['\x7d'])
  | .object lead name first rest trail =>
    '\x7b' ::
      (lead.text ++
        (name.text ++ (text first ++ (moreMembersText rest ++ (trail.text ++ ['\x7d'])))))

def moreItemsText : List (Sep × Node) → List Char
  | [] => []
  | (sep, v) :: rest => sep.text ++ (text v ++ moreItemsText rest)

def moreMembersText : List (Sep × Name × Node) → List Char
  | [] => []
  | (sep, name, v) :: rest => sep.text ++ (name.text ++ (text v ++ moreMembersText rest))

end

mutual

/-- How many arrays and objects are open at the innermost value. -/
def depth : Node → Nat
  | .scalar _ => 0
  | .string _ => 0
  | .emptyArray _ => 1
  | .array _ first rest _ => max (depth first) (itemsDepth rest) + 1
  | .emptyObject _ => 1
  | .object _ _ first rest _ => max (depth first) (membersDepth rest) + 1

def itemsDepth : List (Sep × Node) → Nat
  | [] => 0
  | (_, v) :: rest => max (depth v) (itemsDepth rest)

def membersDepth : List (Sep × Name × Node) → Nat
  | [] => 0
  | (_, _, v) :: rest => max (depth v) (membersDepth rest)

end

variable (readNumber : NumberToken → Option Number)

mutual

/-- What a document stands for, if all its strings and numbers stand for something. -/
def value? : Node → Option Value
  | .scalar .null => some .null
  | .scalar .true => some (.bool true)
  | .scalar .false => some (.bool false)
  | .scalar (.number n) => (readNumber n).map .number
  | .string t => t.decode.map .string
  | .emptyArray _ => some (.array [])
  | .array _ first rest _ => (value? first).bind fun v => (items? rest).map fun vs =>
    .array (v :: vs)
  | .emptyObject _ => some (.object [])
  | .object _ name first rest _ =>
    name.key.decode.bind fun k => (value? first).bind fun v => (members? rest).map fun fs =>
      .object ((k, v) :: fs)

def items? : List (Sep × Node) → Option (List Value)
  | [] => some []
  | (_, v) :: rest => (value? v).bind fun v => (items? rest).map fun vs => v :: vs

def members? : List (Sep × Name × Node) → Option (List (String × Value))
  | [] => some []
  | (_, name, v) :: rest =>
    name.key.decode.bind fun k => (value? v).bind fun v => (members? rest).map fun fs => (k, v) ::
      fs

end

end Node

structure Document where
  lead : Ws
  root : Node
  trail : Ws

def Document.text (d : Document) : List Char := d.lead.text ++ (d.root.text ++ d.trail.text)

end Syntax
end Json
end Aisix
