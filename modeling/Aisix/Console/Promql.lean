import Aisix.Sse.Decoder
import Mathlib.Data.List.DropRight

/-!
# Aisix.Console.Promql

The filter in front of the console's metrics proxy, and what it has to do with the language of the
queries. The filter reads the characters of a query and the language has comments, texts and places,
so `accepted_safe_iff` says which accepted queries read more than the gateway's own metrics.
-/

namespace Aisix
namespace Console

open Sse (isWhitespace)

abbrev Word := List Char

def ALLOWED_WORDS : List Word :=
  ["sum", "rate", "by", "avg", "max", "min", "count", "increase", "irate", "topk", "bottomk",
    "without", "on", "group_left", "group_right", "or", "and", "unless", "offset", "le", "quantile",
    "histogram_quantile"].map String.toList

def LABELS : List Word :=
  ["api_key_id", "model", "provider", "endpoint", "policy", "outcome", "status", "team_id",
    "user_id", "scope", "layer", "job", "instance"].map String.toList

def AISIX : Word := "aisix_".toList

/-- `is_ascii_alphanumeric`, `_` or `:`. -/
def isIdentChar (c : Char) : Bool := c.isAlphanum || c == '_' || c == ':'

def isNumeric (w : Word) : Bool := w.head?.any Char.isDigit

def trimEnd (text : List Char) : List Char := text.rdropWhile isWhitespace

/-! ### The filter -/

/-- The texts before the braces of a text that goes on behind `before`. -/
def headsFrom (before : List Char) : List Char → List (List Char)
  | [] => []
  | c :: rest => (if c = '\x7b' then [before] else []) ++ headsFrom (before ++ [c]) rest

def heads (q : List Char) : List (List Char) := headsFrom [] q

/-- The name a brace stands behind; `none` where the slice begins inside a character, which panics.
-/
def headName (before : List Char) : Option Word :=
  let head := trimEnd before
  match (head.rdropWhile isIdentChar).getLast? with
  | none => some head
  | some c => if c.utf8Size = 1 then some (head.rtakeWhile isIdentChar) else none

def bracesNamed : List (List Char) → Option Bool
  | [] => some true
  | head :: rest =>
    match headName head with
    | none => none
    | some name => if AISIX <+: name then bracesNamed rest else some false

structure Idents where
  ident : Word
  idents : List Word

def Idents.next (s : Idents) (ch : Char) : Idents :=
  if isIdentChar ch then { s with ident := s.ident ++ [ch] }
  else if s.ident = [] then s
  else ⟨[], s.idents ++ [s.ident]⟩

def scan (q : List Char) : Idents := q.foldl Idents.next ⟨[], []⟩

/-- The identifiers of a query. -/
def idents (q : List Char) : List Word := (scan (q ++ [' '])).idents

def identsAllowed : List Word → Bool → Bool
  | [], sawMetric => sawMetric
  | id :: rest, sawMetric =>
    if isNumeric id then identsAllowed rest sawMetric
    else if id ∈ ALLOWED_WORDS then identsAllowed rest sawMetric
    else if AISIX <+: id then identsAllowed rest true
    else if id ∈ LABELS then identsAllowed rest sawMetric
    else false

/-- `none` is a panic. -/
def promqlOnlyTouchesAisix (q : List Char) : Option Bool :=
  match bracesNamed (heads q) with
  | some true => some (identsAllowed (idents q) false)
  | other => other

/-! ### The language of the queries -/

inductive Token where
  | word (w : Word)
  | text
  | comment
  | symbol (c : Char)
  deriving DecidableEq

inductive Mode where
  | code
  | comment
  | quoted (quote : Char) (escaped : Bool)
  deriving DecidableEq

/-- The lexer behind some text of a query. -/
structure Lexer where
  mode : Mode
  word : Word
  tokens : List Token

def SPACES : List Char := [' ', '\t', '\n', '\r']

def QUOTES : List Char := ['\"', '\'', '`']

def SYMBOLS : List Char := ",*/%+-^=!<>~()[]\x7b\x7d@.".toList

/-- The lexer behind the word it was reading. -/
def Lexer.flush (s : Lexer) : Lexer :=
  if s.word = [] then s else { s with word := [], tokens := s.tokens ++ [.word s.word] }

/-- Behind a character that no word has. -/
def Lexer.delimiter (s : Lexer) (c : Char) : Option Lexer :=
  if c ∈ SPACES then some s
  else if c = '#' then some { s with mode := .comment, tokens := s.tokens ++ [.comment] }
  else if c ∈ QUOTES then some { s with mode := .quoted c false, tokens := s.tokens ++ [.text] }
  else if c ∈ SYMBOLS then some { s with tokens := s.tokens ++ [.symbol c] }
  else none

/-- The language reads one more character; `none` is no query. A back-quoted text has no escapes,
and the others end on their line. -/
def Lexer.next (s : Lexer) (c : Char) : Option Lexer :=
  match s.mode with
  | .code => if isIdentChar c then some { s with word := s.word ++ [c] } else s.flush.delimiter c
  | .comment => some (if c = '\n' ∨ c = '\r' then { s with mode := .code } else s)
  | .quoted quote true => some { s with mode := .quoted quote false }
  | .quoted quote false =>
    if c = quote then some { s with mode := .code }
    else if quote = '`' then some s
    else if c = '\n' then none
    else if c = '\\' then some { s with mode := .quoted quote true }
    else some s

def Lexer.start : Lexer := ⟨.code, [], []⟩

def Lexer.done (s : Lexer) : Option (List Token) :=
  match s.mode with
  | .quoted _ _ => none
  | _ => some s.flush.tokens

def lex (q : List Char) : Option (List Token) := (q.foldlM Lexer.next Lexer.start).bind Lexer.done

/-- What is not comment. -/
def significant (tokens : List Token) : List Token := tokens.filter (· ≠ .comment)

/-- Where in an expression the next token stands. -/
inductive Place where
  | operand
  | compared
  | matched
  | operator
  | braces
  | labels (after : Place)
  deriving DecidableEq

def AGGREGATIONS : List Word :=
  ["sum", "avg", "count", "min", "max", "group", "stddev", "stdvar", "topk", "bottomk",
    "count_values", "quantile"].map String.toList

def GROUPINGS : List Word :=
  ["by", "without", "on", "ignoring", "group_left", "group_right"].map String.toList

/-- The place behind a word where an operand is due, and whether the word names a metric there. -/
def wordAtOperand (place : Place) (w : Word) (next : Option Token) : Place × Bool :=
  if w ∈ GROUPINGS ∧ next = some (.symbol '(') then
    (.labels (if w ∈ ["on".toList, "ignoring".toList] then .matched else .operand), false)
  else if place = .matched ∧ w ∈ ["group_left".toList, "group_right".toList] then (.operand, false)
  else if place = .compared ∧ w = "bool".toList then (.operand, false)
  else if next = some (.symbol '(') then (.operand, false)
  else if w ∈ AGGREGATIONS ∧
    (next = some (.word "by".toList) ∨ next = some (.word "without".toList)) then (.operand, false)
  else (.operator, true)

/-- The place behind a token, and whether the token names a metric. -/
def place (here : Place) (t : Token) (next : Option Token) : Place × Bool :=
  match here, t with
  | .braces, t => (if t = .symbol '\x7d' then .operator else .braces, false)
  | .labels after, t => (if t = .symbol ')' then after else .labels after, false)
  | _, .symbol c =>
    (if c = '\x7b' then .braces
      else if c = ')' ∨ c = ']' then .operator
      else if c = '=' ∨ c = '<' ∨ c = '>' then .compared
      else .operand, false)
  | _, .text => (.operator, false)
  | here, .comment => (here, false)
  | .operator, .word w =>
    (if isNumeric w then .operator
      else if w ∈ GROUPINGS ∧ next = some (.symbol '(') then .labels .operator
      else .operand, false)
  | here, .word w => if isNumeric w then (.operator, false) else wordAtOperand here w next

/-- The words in the place of a metric's name. -/
def metricNames (here : Place) : List Token → List Word
  | [] => []
  | t :: rest =>
    let behind := place here t rest.head?
    let names := metricNames behind.1 rest
    match t with
    | .word w => if behind.2 then w :: names else names
    | _ => names

/-- The last token, comments apart, is the name of a gateway metric. -/
def Named (tokens : List Token) : Prop :=
  ∃ w, (significant tokens).getLast? = some (.word w) ∧ AISIX <+: w

/-- A query of gateway metrics: every brace is behind the name of one, and every name of a metric is
one. -/
structure Safe (tokens : List Token) : Prop where
  selectors : ∀ before behind, tokens = before ++ .symbol '\x7b' :: behind → Named before
  names : ∀ w ∈ metricNames .operand (significant tokens), AISIX <+: w

/-- What the filter leaves open: braces directly behind a comment, and its own words in the place of
a metric's name. -/
structure Covered (tokens : List Token) : Prop where
  comments : ∀ before behind, tokens = before ++ .symbol '\x7b' :: behind →
    before.getLast? = some .comment → Named before
  words : ∀ w ∈ metricNames .operand (significant tokens), w ∉ ALLOWED_WORDS ∧ w ∉ LABELS

/-! ### What the filter sees of a text -/

/-- The name the filter finds at the end of a text. -/
def nameOf (text : List Char) : Word := (trimEnd text).rtakeWhile isIdentChar

theorem headName_eq_some {before : List Char} {name : Word} (h : headName before = some name) :
    name = nameOf before := by
  unfold headName at h
  dsimp only at h
  split at h
  · next hnone =>
    cases h
    have hdrop := List.getLast?_eq_none_iff.mp hnone
    have hsplit := List.rdropWhile_append_rtakeWhile (p := isIdentChar) (l := trimEnd before)
    rw [hdrop, List.nil_append] at hsplit
    exact hsplit.symm
  · split at h
    · cases h
      rfl
    · cases h

theorem bracesNamed_eq_true {heads : List (List Char)} (h : bracesNamed heads = some true) :
    ∀ before ∈ heads, AISIX <+: nameOf before := by
  induction heads with
  | nil =>
    intro before hbefore
    cases hbefore
  | cons head heads ih =>
    rw [bracesNamed] at h
    cases hname : headName head with
    | none => rw [hname] at h; cases h
    | some name =>
      rw [hname] at h
      dsimp only at h
      split at h
      · next hbegins =>
        rw [headName_eq_some hname] at hbegins
        exact List.forall_mem_cons.mpr ⟨hbegins, ih h⟩
      · cases h

theorem mem_headsFrom (start before behind : List Char) :
    start ++ before ∈ headsFrom start (before ++ '\x7b' :: behind) := by
  induction before generalizing start with
  | nil =>
    rw [List.append_nil, List.nil_append, headsFrom, if_pos rfl]
    exact List.mem_append_left _ (List.mem_singleton.mpr rfl)
  | cons c before ih =>
    rw [List.cons_append, headsFrom]
    have hmem := ih (start ++ [c])
    rw [List.append_assoc, List.singleton_append] at hmem
    exact List.mem_append_right _ hmem

theorem identsAllowed_eq_true {ids : List Word} {sawMetric : Bool}
    (h : identsAllowed ids sawMetric = true) :
    ∀ id ∈ ids, isNumeric id = true ∨ id ∈ ALLOWED_WORDS ∨ AISIX <+: id ∨ id ∈ LABELS := by
  induction ids generalizing sawMetric with
  | nil =>
    intro id hid
    cases hid
  | cons id ids ih =>
    rw [identsAllowed] at h
    split at h
    · next hnumeric => exact List.forall_mem_cons.mpr ⟨.inl hnumeric, ih h⟩
    · split at h
      · next hword => exact List.forall_mem_cons.mpr ⟨.inr (.inl hword), ih h⟩
      · split at h
        · next hmetric => exact List.forall_mem_cons.mpr ⟨.inr (.inr (.inl hmetric)), ih h⟩
        · split at h
          · next hlabel => exact List.forall_mem_cons.mpr ⟨.inr (.inr (.inr hlabel)), ih h⟩
          · cases h

theorem scan_concat (text : List Char) (c : Char) : scan (text ++ [c]) = (scan text).next c := by
  unfold scan
  rw [List.foldl_append]
  rfl

theorem mem_idents_concat {text : List Char} {w : Word} (h : w ∈ (scan text).idents) (c : Char) :
    w ∈ (scan (text ++ [c])).idents := by
  rw [scan_concat, Idents.next]
  split
  · exact h
  · split
    · exact h
    · exact List.mem_append_left _ h

theorem ident_concat_of_not {text : List Char} {c : Char} (hc : isIdentChar c = false) :
    (scan (text ++ [c])).ident = [] := by
  rw [scan_concat, Idents.next, hc, if_neg Bool.false_ne_true]
  split
  · next hnil => exact hnil
  · rfl

theorem scan_ident (text : List Char) : (scan text).ident = text.rtakeWhile isIdentChar := by
  induction text using List.reverseRecOn with
  | nil => rfl
  | append_singleton text c ih =>
    rw [List.rtakeWhile_concat]
    split
    · next hc => rw [scan_concat, Idents.next, if_pos hc, ih]
    · next hc => exact ident_concat_of_not (Bool.not_eq_true _ ▸ hc)

theorem nameOf_concat_space {c : Char} (hc : isWhitespace c = true) (text : List Char) :
    nameOf (text ++ [c]) = nameOf text := by
  unfold nameOf trimEnd
  rw [List.rdropWhile_concat_pos _ _ _ hc]

theorem nameOf_concat_of_not {c : Char} (hspace : isWhitespace c = false)
    (hident : isIdentChar c = false) (text : List Char) : nameOf (text ++ [c]) = [] := by
  unfold nameOf trimEnd
  rw [List.rdropWhile_concat_neg _ _ _ (by rw [hspace]; exact Bool.false_ne_true),
    List.rtakeWhile_concat_neg _ _ _ (by rw [hident]; exact Bool.false_ne_true)]

theorem not_space_of_ident {c : Char} (h : isIdentChar c = true) : isWhitespace c = false := by
  have hrange : (48 ≤ c.toNat ∧ c.toNat ≤ 58) ∨ (65 ≤ c.toNat ∧ c.toNat ≤ 122) := by
    have hclass :
        ((((decide ('A'.val ≤ c.val ∧ c.val ≤ 'Z'.val) ||
          (decide ('a'.val ≤ c.val) && decide (c.val ≤ 'z'.val))) ||
          (decide ('0'.val ≤ c.val) && decide (c.val ≤ '9'.val))) || c == '_') || c == ':') =
          true := h
    simp only [Bool.or_eq_true, Bool.and_eq_true, decide_eq_true_eq, beq_iff_eq,
      UInt32.le_iff_toNat_le] at hclass
    rcases hclass with (((⟨hlow, hhigh⟩ | ⟨hlow, hhigh⟩) | ⟨hlow, hhigh⟩) | rfl) | rfl
    · exact .inr ⟨hlow, Nat.le_trans hhigh (by decide)⟩
    · exact .inr ⟨Nat.le_trans (by decide) hlow, hhigh⟩
    · exact .inl ⟨hlow, Nat.le_trans hhigh (by decide)⟩
    · exact .inr (by decide)
    · exact .inl (by decide)
  unfold isWhitespace
  simp only [Bool.or_eq_false_iff, Bool.and_eq_false_iff, decide_eq_false_iff_not,
    beq_eq_false_iff_ne]
  omega

theorem nameOf_of_ident {text : List Char} (h : (scan text).ident ≠ []) :
    nameOf text = (scan text).ident := by
  rw [scan_ident] at h ⊢
  induction text using List.reverseRecOn with
  | nil => exact absurd rfl h
  | append_singleton text c ih =>
    unfold nameOf trimEnd
    rw [List.rtakeWhile_concat] at h
    split at h
    · next hc =>
      rw [List.rdropWhile_concat_neg _ _ _
        (by rw [not_space_of_ident hc]; exact Bool.false_ne_true)]
    · exact absurd rfl h

/-! ### What the language sees of it -/

/-- Every brace is behind a comment or the name of a gateway metric. -/
def Guarded (tokens : List Token) : Prop :=
  ∀ before behind, tokens = before ++ .symbol '\x7b' :: behind →
    before.getLast? = some .comment ∨ Named before

theorem named_of_getLast? {tokens : List Token} {w : Word} (h : tokens.getLast? = some (.word w))
    (hw : AISIX <+: w) :
    Named tokens := by
  obtain ⟨init, rfl⟩ := List.getLast?_eq_some_iff.mp h
  refine ⟨w, ?_, hw⟩
  unfold significant
  rw [List.filter_append, List.getLast?_append]
  rfl

theorem guarded_nil : Guarded [] := by
  intro before behind h
  exact absurd h.symm (List.append_ne_nil_of_right_ne_nil _ (List.cons_ne_nil _ _))

theorem Guarded.concat {tokens : List Token} (h : Guarded tokens) {t : Token}
    (ht : t = .symbol '\x7b' → tokens.getLast? = some .comment ∨ Named tokens) :
    Guarded (tokens ++ [t]) := by
  intro before behind heq
  rcases List.eq_nil_or_concat behind with rfl | ⟨behind, last, rfl⟩
  · obtain ⟨rfl, hlast⟩ := List.append_inj' heq rfl
    exact ht (List.cons.inj hlast).1
  · rw [List.concat_eq_append, ← List.cons_append, ← List.append_assoc] at heq
    obtain ⟨rfl, -⟩ := List.append_inj' heq rfl
    exact h before behind rfl

/-- What the last token has to do with the name the filter finds. -/
def Last (text : List Char) (tokens : List Token) : Prop :=
  tokens.getLast? = some .comment ∨ tokens.getLast? = some (.word (nameOf text)) ∨ nameOf text = []

theorem Last.brace {text : List Char} {tokens : List Token} (h : Last text tokens)
    (hname : AISIX <+: nameOf text) : tokens.getLast? = some .comment ∨ Named tokens := by
  rcases h with h | h | h
  · exact .inl h
  · exact .inr (named_of_getLast? h hname)
  · rw [h] at hname
    exact absurd (List.prefix_nil.mp hname) (by decide)

/-- The lexer and the filter behind the same text. -/
structure Inv (text : List Char) (s : Lexer) : Prop where
  code : s.mode = .code → s.word = (scan text).ident
  apart : s.mode ≠ .code → s.word = []
  quoted : ∀ quote escaped, s.mode = .quoted quote escaped → quote ∈ QUOTES
  comment : s.mode = .comment → s.tokens.getLast? = some .comment
  idents : ∀ w, .word w ∈ s.tokens → w ∈ (scan text).idents
  guarded : Guarded s.tokens
  last : s.mode = .code → s.word = [] → Last text s.tokens

theorem Inv.start : Inv [] Lexer.start where
  code _ := rfl
  apart _ := rfl
  quoted quote escaped h := by cases h
  comment h := by cases h
  idents w h := by cases h
  guarded := guarded_nil
  last _ _ := .inr (.inr rfl)

section

variable {text : List Char} {s s' : Lexer} {c : Char}

theorem Lexer.flush_mode (s : Lexer) : s.flush.mode = s.mode := by
  unfold Lexer.flush
  split <;> rfl

theorem Lexer.flush_word (s : Lexer) : s.flush.word = [] := by
  unfold Lexer.flush
  split
  · next h => exact h
  · rfl

theorem Inv.flush_idents (h : Inv text s) (hc : isIdentChar c = false) :
    ∀ w, .word w ∈ s.flush.tokens → w ∈ (scan (text ++ [c])).idents := by
  intro w hw
  unfold Lexer.flush at hw
  split at hw
  · exact mem_idents_concat (h.idents w hw) c
  · next hword =>
    have hcode : s.word = (scan text).ident := h.code (not_imp_comm.mp h.apart hword)
    rcases List.mem_append.mp hw with hw | hw
    · exact mem_idents_concat (h.idents w hw) c
    · cases List.mem_singleton.mp hw
      rw [scan_concat, Idents.next, hc, if_neg Bool.false_ne_true, if_neg (hcode ▸ hword), hcode]
      exact List.mem_append_right _ (List.mem_singleton.mpr rfl)

theorem Inv.flush_guarded (h : Inv text s) : Guarded s.flush.tokens := by
  unfold Lexer.flush
  split
  · exact h.guarded
  · exact h.guarded.concat (by rintro ⟨⟩)

theorem Inv.flush_last (h : Inv text s) (hcode : s.mode = .code) : Last text s.flush.tokens := by
  unfold Lexer.flush
  split
  · next hword => exact h.last hcode hword
  · next hword =>
    refine .inr (.inl ?_)
    rw [h.code hcode] at hword ⊢
    rw [nameOf_of_ident hword, List.getLast?_append, List.getLast?_singleton]
    rfl

theorem delimiter_space (hc : c ∈ SPACES) : isWhitespace c = true := by
  have hall : SPACES.all isWhitespace = true := by decide
  exact List.all_eq_true.mp hall c hc

theorem delimiter_quote (hc : c ∈ QUOTES) : isWhitespace c = false ∧ isIdentChar c = false := by
  have hall : QUOTES.all (fun c => !isWhitespace c && !isIdentChar c) = true := by decide
  have hquote := List.all_eq_true.mp hall c hc
  simpa only [Bool.and_eq_true, Bool.not_eq_true'] using hquote

theorem delimiter_symbol (hc : c ∈ SYMBOLS) : isWhitespace c = false ∧ isIdentChar c = false := by
  have hall : SYMBOLS.all (fun c => !isWhitespace c && !isIdentChar c) = true := by decide
  have hsymbol := List.all_eq_true.mp hall c hc
  simpa only [Bool.and_eq_true, Bool.not_eq_true'] using hsymbol

theorem Inv.delimiter (h : Inv text s) (hcode : s.mode = .code) (hc : isIdentChar c = false)
    (hbrace : c = '\x7b' → AISIX <+: nameOf text) (hs : s.flush.delimiter c = some s') :
    Inv (text ++ [c]) s' := by
  have hword := s.flush_word
  have hmode : s.flush.mode = .code := s.flush_mode.trans hcode
  have hidents := h.flush_idents hc
  have hguarded := h.flush_guarded
  have hlast := h.flush_last hcode
  have hident : (scan (text ++ [c])).ident = [] := ident_concat_of_not hc
  -- from here on only what the flushed lexer is like matters
  generalize s.flush = f at *
  unfold Lexer.delimiter at hs
  split at hs
  · next hspace =>
    cases hs
    refine ⟨fun _ => hword.trans hident.symm, fun _ => hword, ?_, ?_, hidents, hguarded, ?_⟩
    · intro quote escaped hquoted
      rw [hmode] at hquoted
      cases hquoted
    · intro hcomment
      rw [hmode] at hcomment
      cases hcomment
    · intro _ _
      unfold Last
      rw [nameOf_concat_space (delimiter_space hspace)]
      exact hlast
  · split at hs
    · cases hs
      refine ⟨by
        rintro ⟨⟩, fun _ => hword, by
          rintro _ _ ⟨⟩, ?_, ?_, hguarded.concat (by rintro ⟨⟩), by rintro ⟨⟩⟩
      · intro _
        rw [List.getLast?_append, List.getLast?_singleton]
        rfl
      · intro w hw
        rcases List.mem_append.mp hw with hw | hw
        · exact hidents w hw
        · cases List.mem_singleton.mp hw
    · split at hs
      · next hquote =>
        cases hs
        refine ⟨by
          rintro ⟨⟩, fun _ => hword, ?_, by
            rintro ⟨⟩, ?_, hguarded.concat (by rintro ⟨⟩), by rintro ⟨⟩⟩
        · intro quote escaped hmode'
          cases hmode'
          exact hquote
        · intro w hw
          rcases List.mem_append.mp hw with hw | hw
          · exact hidents w hw
          · cases List.mem_singleton.mp hw
      · split at hs
        · next hsymbol =>
          cases hs
          obtain ⟨hspace, -⟩ := delimiter_symbol hsymbol
          refine ⟨fun _ => hword.trans hident.symm, fun _ => hword, ?_, ?_, ?_, ?_, ?_⟩
          · intro quote escaped hquoted
            rw [hmode] at hquoted
            cases hquoted
          · intro hcomment
            rw [hmode] at hcomment
            cases hcomment
          · intro w hw
            rcases List.mem_append.mp hw with hw | hw
            · exact hidents w hw
            · cases List.mem_singleton.mp hw
          · refine hguarded.concat ?_
            intro heq
            cases heq
            exact hlast.brace (hbrace rfl)
          · intro _ _
            exact .inr (.inr (nameOf_concat_of_not hspace hc text))
        · cases hs

/-- A character of a comment or of a quoted text: no token, and no word when the lexer is back in
the code. -/
theorem Inv.inside (h : Inv text s) (hmode : s.mode ≠ .code) (mode : Mode)
    (hquoted : ∀ quote escaped, mode = .quoted quote escaped → quote ∈ QUOTES)
    (hcomment : mode = .comment → s.tokens.getLast? = some .comment)
    (hcode : mode = .code → isIdentChar c = false ∧ Last (text ++ [c]) s.tokens) :
    Inv (text ++ [c]) { s with mode := mode } where
  code hback := by
    rw [ident_concat_of_not (hcode hback).1]
    exact h.apart hmode
  apart _ := h.apart hmode
  quoted := hquoted
  comment := hcomment
  idents w hw := mem_idents_concat (h.idents w hw) c
  guarded := h.guarded
  last hback _ := (hcode hback).2

theorem Inv.next (h : Inv text s) (hbrace : c = '\x7b' → AISIX <+: nameOf text)
    (hs : s.next c = some s') : Inv (text ++ [c]) s' := by
  unfold Lexer.next at hs
  split at hs
  · next hcode =>
    split at hs
    · next hident =>
      cases hs
      have hscan : (scan (text ++ [c])).ident = (scan text).ident ++ [c] := by
        rw [scan_concat, Idents.next, if_pos hident]
      refine ⟨fun _ => ?_, ?_, h.quoted, h.comment, fun w hw => mem_idents_concat (h.idents w hw) c,
        h.guarded, ?_⟩
      · rw [hscan, ← h.code hcode]
      · intro hother
        exact absurd hcode hother
      · intro _ hnil
        exact absurd hnil (List.append_ne_nil_of_right_ne_nil _ (List.cons_ne_nil _ _))
    · next hident => exact h.delimiter hcode (Bool.not_eq_true _ ▸ hident) hbrace hs
  · next hmode =>
    have hlast := h.comment hmode
    have hother : s.mode ≠ .code := by rw [hmode]; rintro ⟨⟩
    cases hs
    split
    · next hend =>
      refine h.inside hother .code (by rintro _ _ ⟨⟩) (by rintro ⟨⟩) fun _ => ⟨?_, .inl hlast⟩
      rcases hend with rfl | rfl
      · decide
      · decide
    · refine h.inside hother s.mode ?_ (fun _ => hlast) ?_
      · rw [hmode]
        rintro _ _ ⟨⟩
      · intro hback
        exact absurd hback hother
  · next quote hmode =>
    have hother : s.mode ≠ .code := by rw [hmode]; rintro ⟨⟩
    cases hs
    refine h.inside hother (.quoted quote false) ?_ (by rintro ⟨⟩) (by rintro ⟨⟩)
    rintro _ _ ⟨⟩
    exact h.quoted quote true hmode
  · next quote hmode =>
    have hother : s.mode ≠ .code := by rw [hmode]; rintro ⟨⟩
    have hquote := h.quoted quote false hmode
    have hstay : ∀ escaped, Inv (text ++ [c]) { s with mode := .quoted quote escaped } := by
      intro escaped
      refine h.inside hother (.quoted quote escaped) ?_ (by rintro ⟨⟩) (by rintro ⟨⟩)
      rintro _ _ ⟨⟩
      exact hquote
    have hsame : Inv (text ++ [c]) s := by
      have hinv := hstay false
      rw [← hmode] at hinv
      exact hinv
    split at hs
    · next hend =>
      cases hs
      obtain ⟨hspace, hident⟩ := delimiter_quote hquote
      rw [← hend] at hspace hident
      exact h.inside hother .code (by rintro _ _ ⟨⟩) (by rintro ⟨⟩)
        fun _ => ⟨hident, .inr (.inr (nameOf_concat_of_not hspace hident text))⟩
    · split at hs
      · cases hs
        exact hsame
      · split at hs
        · cases hs
        · split at hs
          · cases hs
            exact hstay true
          · cases hs
            exact hsame

theorem Inv.run {rest : List Char} (h : Inv text s)
    (hbraces : ∀ before behind, rest = before ++ '\x7b' :: behind →
      AISIX <+: nameOf (text ++ before))
    (hs : rest.foldlM Lexer.next s = some s') : Inv (text ++ rest) s' := by
  induction rest generalizing text s with
  | nil =>
    cases hs
    rw [List.append_nil]
    exact h
  | cons c rest ih =>
    rw [List.foldlM_cons] at hs
    obtain ⟨s₁, hnext, hrest⟩ := Option.bind_eq_some_iff.mp hs
    have hinv : Inv (text ++ [c]) s₁ := by
      refine h.next ?_ hnext
      rintro rfl
      have hname := hbraces [] rest rfl
      rw [List.append_nil] at hname
      exact hname
    have hrun := ih hinv ?_ hrest
    · rw [List.append_assoc] at hrun
      exact hrun
    · intro before behind heq
      have hname := hbraces (c :: before) behind (by rw [heq]; rfl)
      rw [List.append_assoc]
      exact hname

end

theorem place_numeric {w : Word} (hnumeric : isNumeric w = true) (here : Place)
    (next : Option Token) :
    (place here (.word w) next).2 = false := by
  cases here with
  | operand => exact congrArg Prod.snd (if_pos hnumeric)
  | compared => exact congrArg Prod.snd (if_pos hnumeric)
  | matched => exact congrArg Prod.snd (if_pos hnumeric)
  | operator => rfl
  | braces => rfl
  | labels after => rfl

theorem mem_metricNames {here : Place} {tokens : List Token} {w : Word}
    (h : w ∈ metricNames here tokens) : .word w ∈ tokens ∧ isNumeric w = false := by
  induction tokens generalizing here with
  | nil => cases h
  | cons t tokens ih =>
    have hrest : w ∈ metricNames (place here t tokens.head?).1 tokens → .word w ∈ t :: tokens ∧
        isNumeric w = false := by
      intro hmem
      exact ⟨List.mem_cons_of_mem _ (ih hmem).1, (ih hmem).2⟩
    cases t with
    | text => exact hrest h
    | comment => exact hrest h
    | symbol c => exact hrest h
    | word v =>
      rw [metricNames] at h
      split at h
      · next hname =>
        rcases List.mem_cons.mp h with rfl | h
        · refine ⟨List.mem_cons_self, ?_⟩
          by_contra hnumeric
          rw [place_numeric (Bool.not_eq_false _ ▸ hnumeric)] at hname
          cases hname
        · exact hrest h
      · exact hrest h

theorem listed_not_aisix : ∀ w ∈ ALLOWED_WORDS ++ LABELS, ¬ AISIX <+: w := by
  decide

theorem accepted_tokens {q : List Char} {tokens : List Token}
    (haccept : promqlOnlyTouchesAisix q = some true) (hlex : lex q = some tokens) :
    Guarded tokens ∧ ∀ w, .word w ∈ tokens → isNumeric w = true ∨ w ∈ ALLOWED_WORDS ∨ AISIX <+: w ∨
      w ∈ LABELS := by
  have hsplit : bracesNamed (heads q) = some true ∧ identsAllowed (idents q) false = true := by
    unfold promqlOnlyTouchesAisix at haccept
    split at haccept
    · next hbraces => exact ⟨hbraces, Option.some.inj haccept⟩
    · next hother => exact absurd haccept hother
  obtain ⟨hbraces, hidents⟩ := hsplit
  obtain ⟨s, hrun, hdone⟩ := Option.bind_eq_some_iff.mp hlex
  have hinv : Inv ([] ++ q) s := by
    refine Inv.start.run ?_ hrun
    rintro before behind rfl
    exact bracesNamed_eq_true hbraces _ (mem_headsFrom [] before behind)
  rw [List.nil_append] at hinv
  have htokens : s.flush.tokens = tokens := by
    unfold Lexer.done at hdone
    split at hdone
    · cases hdone
    · exact Option.some.inj hdone
  rw [← htokens]
  refine ⟨hinv.flush_guarded, ?_⟩
  intro w hw
  exact identsAllowed_eq_true hidents w (hinv.flush_idents (by decide) w hw)

/-- A query that is accepted reads the gateway's own metrics only if and only if no brace that a
comment hides from the filter is without a name, and none of the words the filter knows is the name
of a metric. -/
theorem accepted_safe_iff {q : List Char} {tokens : List Token}
    (haccept : promqlOnlyTouchesAisix q = some true)
    (hlex : lex q = some tokens) : Safe tokens ↔ Covered tokens := by
  obtain ⟨hguarded, hwords⟩ := accepted_tokens haccept hlex
  constructor
  · intro hsafe
    refine ⟨fun before behind heq _ => hsafe.selectors before behind heq, ?_⟩
    intro w hw
    have hmetric := hsafe.names w hw
    constructor
    · intro hlisted
      exact listed_not_aisix w (List.mem_append_left _ hlisted) hmetric
    · intro hlisted
      exact listed_not_aisix w (List.mem_append_right _ hlisted) hmetric
  · intro hcovered
    constructor
    · intro before behind heq
      rcases hguarded before behind heq with hcomment | hnamed
      · exact hcovered.comments before behind heq hcomment
      · exact hnamed
    · intro w hw
      obtain ⟨hmem, hnumeric⟩ := mem_metricNames hw
      obtain ⟨hallowed, hlabel⟩ := hcovered.words w hw
      rcases hwords w (List.mem_of_mem_filter hmem) with h | h | h | h
      · rw [hnumeric] at h
        cases h
      · exact absurd h hallowed
      · exact h
      · exact absurd h hlabel

theorem accepted_safe_iff_selector :
    Safe [.word "sum".toList, .symbol '(', .word "aisix_x".toList, .symbol '\x7b',
      .word "status".toList, .symbol '=', .text,
        .symbol '\x7d', .symbol ')'] ↔
      Covered [.word "sum".toList, .symbol '(', .word "aisix_x".toList, .symbol '\x7b',
        .word "status".toList, .symbol '=', .text, .symbol '\x7d', .symbol ')'] :=
  accepted_safe_iff (q := "sum(aisix_x \x7bstatus=\"200\"\x7d)".toList) (by decide) (by decide)

/-- A name in a comment stands for the name a brace does not have, and a label of the filter's list
is read as a metric. -/
theorem accepted_reads_other_metrics :
    (promqlOnlyTouchesAisix "aisix_x or # aisix_y\n\x7bjob=~\".+\"\x7d".toList = some true ∧
        ∃ tokens, lex "aisix_x or # aisix_y\n\x7bjob=~\".+\"\x7d".toList = some tokens ∧
          ¬ Safe tokens) ∧
      promqlOnlyTouchesAisix "aisix_x or job".toList = some true ∧
        ∃ tokens, lex "aisix_x or job".toList = some tokens ∧ ¬ Safe tokens := by
  refine ⟨⟨by
    decide, [.word "aisix_x".toList, .word "or".toList, .comment, .symbol '\x7b',
      .word "job".toList, .symbol '=',
    .symbol '~', .text, .symbol '\x7d'], by decide, ?_⟩, by decide,
    [.word "aisix_x".toList, .word "or".toList, .word "job".toList], by decide, ?_⟩
  · intro hsafe
    obtain ⟨w, hlast, hmetric⟩ :=
      hsafe.selectors [.word "aisix_x".toList, .word "or".toList, .comment] _ rfl
    cases hlast
    exact absurd hmetric (by decide)
  · intro hsafe
    exact absurd (hsafe.names "job".toList (by decide)) (by decide)

end Console
end Aisix
