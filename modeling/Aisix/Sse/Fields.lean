import Aisix.Sse.Framing
import Mathlib.Algebra.Order.Ring.Nat
import Mathlib.Data.List.Infix

/-!
# Aisix.Sse.Fields

The lines of one frame and the fields they carry. Neither a line feed behind a frame's last carriage
return nor one ahead of its first line changes a field (`parseFrame_concat_LF`,
`parseFrame_cons_LF`), unless that first line was a byte-order mark's.
-/

namespace Aisix
namespace Sse

def UTF8_BOM : Bytes := [0xEF, 0xBB, 0xBF]

/-- `frame[start..end]` and `frame[end..term_end]`. -/
structure SseLine where
  content : Bytes
  terminator : Bytes
  deriving DecidableEq, Repr

/-- The lines of the bytes, the first of which already holds `cur`. -/
def linesFrom : Bytes → Bytes → List SseLine
  | cur, [] => if cur = [] then [] else [⟨cur, []⟩]
  | cur, [b] => if b = CR ∨ b = LF then [⟨cur, [b]⟩] else [⟨cur ++ [b], []⟩]
  | cur, b :: c :: rest =>
    if b = CR ∧ c = LF then ⟨cur, [CR, LF]⟩ :: linesFrom [] rest
    else if b = CR ∨ b = LF then ⟨cur, [b]⟩ :: linesFrom [] (c :: rest)
    else linesFrom (cur ++ [b]) (c :: rest)

/-- A leading byte-order mark belongs to no line. -/
def lines (frame : Bytes) : List SseLine :=
  linesFrom [] (if UTF8_BOM.isPrefixOf frame then frame.drop UTF8_BOM.length else frame)

def COLON : UInt8 := 0x3A

def SPACE : UInt8 := 0x20

def parseField (line : Bytes) : Option (Bytes × Bytes) :=
  if line = [] ∨ line.head? = some COLON then none
  else
    match line.idxOf? COLON with
    | some colon =>
      let value := line.drop (colon + 1)
      some (line.take colon, if value.head? = some SPACE then value.tail else value)
    | none => some (line, [])

structure SseFields where
  data : Option Bytes
  event : Option Bytes
  id : Option Bytes
  retry : Option Nat
  deriving DecidableEq, Repr

def isAsciiDigit (b : UInt8) : Bool := 0x30 ≤ b && b ≤ 0x39

/-- `str::parse::<u64>` on a text of digits. -/
def parseU64 (digits : Bytes) : Option Nat :=
  let n := digits.foldl (fun n b => n * 10 + (b.toNat - 0x30)) 0
  if n < 2 ^ 64 then some n else none

/-- `"data"`, `"event"`, `"id"` and `"retry"` as bytes. -/
def DATA : Bytes := [0x64, 0x61, 0x74, 0x61]

def EVENT : Bytes := [0x65, 0x76, 0x65, 0x6E, 0x74]

def ID : Bytes := [0x69, 0x64]

def RETRY : Bytes := [0x72, 0x65, 0x74, 0x72, 0x79]

def SseFields.readLine (f : SseFields) (line : Bytes) : SseFields :=
  match parseField line with
  | none => f
  | some (name, value) =>
    if name = DATA then
      { f with data := some (match f.data with | none => value | some prev => prev ++ LF :: value) }
    else if name = EVENT then { f with event := some value }
    else if name = ID ∧ ¬value.contains 0 then { f with id := some value }
    else if name = RETRY ∧ value ≠ [] ∧
      value.all isAsciiDigit then { f with retry := parseU64 value }
    else f

def parseFrame (frame : Bytes) : SseFields :=
  (lines frame).foldl (fun f l => f.readLine l.content) ⟨none, none, none, none⟩

/-- Lines that differ in their terminators only, or by a blank line ahead, carry the same fields. -/
theorem parseFrame_congr {f g : Bytes}
    (h : (lines f).map SseLine.content = (lines g).map SseLine.content) :
    parseFrame f = parseFrame g := by
  have hmap : ∀ frame, parseFrame frame =
      ((lines frame).map SseLine.content).foldl SseFields.readLine ⟨none, none, none, none⟩ :=
    fun frame => by rw [parseFrame, List.foldl_map]
  rw [hmap, hmap, h]

@[simp] theorem readLine_nil (f : SseFields) : f.readLine [] = f := by
  simp [SseFields.readLine, parseField]

/-- The carriage return that ends the bytes and the line feed behind it end one line. -/
theorem linesFrom_concat_LF (cur s : Bytes) (h : s.getLast? = some CR) :
    (linesFrom cur (s ++ [LF])).map SseLine.content = (linesFrom cur s).map SseLine.content := by
  have htail : ∀ {b c : UInt8} {rest : Bytes}, (b :: c :: rest).getLast? = some CR →
      (c :: rest).getLast? = some CR := by
    intro b c rest hlast
    rwa [List.getLast?_cons_cons] at hlast
  induction cur, s using linesFrom.induct with
  | case1 | case2 => simp at h
  | case3 cur b | case4 cur b =>
    obtain rfl : b = CR := by simpa using h
    simp [linesFrom]
  | case5 cur b c rest hpair ih =>
    obtain ⟨rfl, rfl⟩ := hpair
    cases rest with
    | nil => simp [LF_ne_CR] at h
    | cons d rest =>
      have hrest := ih (htail (htail h))
      simp only [List.cons_append] at hrest ⊢
      simp [linesFrom, hrest]
  | case6 cur b c rest hpair hend ih | case7 cur b c rest hpair hend ih =>
    have hrest := ih (htail h)
    simp only [List.cons_append] at hrest ⊢
    simp [linesFrom, hpair, hend, hrest]

theorem isPrefixOf_bom_concat_LF (f : Bytes) :
    UTF8_BOM.isPrefixOf (f ++ [LF]) = UTF8_BOM.isPrefixOf f := by
  match f with
  | [] => rfl
  | [a] => simp [UTF8_BOM, LF, List.isPrefixOf]
  | [a, b] => simp [UTF8_BOM, LF, List.isPrefixOf]
  | a :: b :: c :: f => simp [UTF8_BOM, List.isPrefixOf]

theorem parseFrame_concat_LF {f : Bytes} (h : f.getLast? = some CR) :
    parseFrame (f ++ [LF]) = parseFrame f := by
  apply parseFrame_congr
  rw [lines, lines, isPrefixOf_bom_concat_LF]
  split
  · next hbom =>
    obtain ⟨rest, rfl⟩ := List.isPrefixOf_iff_prefix.mp hbom
    cases rest with
    | nil => simp [UTF8_BOM, CR] at h
    | cons b rest =>
      have hlast : (b :: rest).getLast? = some CR := by
        rw [List.getLast?_append] at h
        cases hb : (b :: rest).getLast? with
        | none => simp at hb
        | some c => simpa [hb] using h
      rw [List.append_assoc, List.drop_left, List.drop_left]
      exact linesFrom_concat_LF [] _ hlast
  · exact linesFrom_concat_LF [] f h

theorem parseFrame_cons_LF {g : Bytes} (h : UTF8_BOM.isPrefixOf g = false) :
    parseFrame (LF :: g) = parseFrame g := by
  have hbom : UTF8_BOM.isPrefixOf (LF :: g) = false := rfl
  have hlines : lines (LF :: g) = ⟨[], [LF]⟩ :: lines g := by
    rw [lines, lines, h, hbom]
    cases g <;> simp [linesFrom, LF_ne_CR]
  rw [parseFrame, hlines, List.foldl_cons, readLine_nil, parseFrame]

/-- A byte-order mark directly behind a pair is read as one only where the pair stands together. -/
def BomAfterPair (f g : Bytes) : Prop := [CR, LF] <:+ f ∧ UTF8_BOM <+: g

theorem pair_suffix_cons_LF {g : Bytes} (h : [CR, LF] <:+ LF :: g) : [CR, LF] <:+ g := by
  rcases List.suffix_cons_iff.mp h with heq | hsuf
  · exact absurd (List.cons.inj heq).1 CR_ne_LF
  · exact hsuf

/-- **Gluing the pieces changes no field of any of them.** -/
theorem map_parseFrame_glue {ps : List Bytes} (h : (glue ps).IsChain fun f g => ¬BomAfterPair f g) :
    (glue ps).map parseFrame = ps.map parseFrame := by
  induction ps with
  | nil => rfl
  | cons f ps ih =>
    rw [glue_cons] at h ⊢
    rw [List.map_cons]
    cases hrest : glue ps with
    | nil =>
      rw [hrest] at ih
      rw [← ih (by simp)]
      rfl
    | cons g gs =>
      rw [hrest] at h ih
      by_cases hpair : f.getLast? = some CR ∧ g.head? = some LF
      · obtain ⟨hcr, hlf⟩ := hpair
        obtain ⟨g, rfl⟩ := List.head?_eq_some_iff.mp hlf
        simp only [attach, hcr, hlf, and_self, if_true, List.tail_cons] at h ⊢
        rw [List.isChain_cons_cons] at h
        obtain ⟨hnobom, hchain⟩ := h
        have hsuffix : [CR, LF] <:+ f ++ [LF] := by
          obtain ⟨line, rfl⟩ := List.getLast?_eq_some_iff.mp hcr
          exact ⟨line, by simp⟩
        have hbom : UTF8_BOM.isPrefixOf g = false := by
          rw [← Bool.not_eq_true, List.isPrefixOf_iff_prefix]
          exact fun hg => hnobom ⟨hsuffix, hg⟩
        have hkept : ((LF :: g) :: gs).IsChain fun f g => ¬BomAfterPair f g := by
          cases gs with
          | nil => simp
          | cons k gs =>
            rw [List.isChain_cons_cons] at hchain ⊢
            exact ⟨fun hk => hchain.1 ⟨pair_suffix_cons_LF hk.1, hk.2⟩, hchain.2⟩
        rw [← ih hkept, List.map_cons, List.map_cons, List.map_cons, parseFrame_concat_LF hcr,
          parseFrame_cons_LF hbom]
      · simp only [attach, hpair, if_false] at h ⊢
        rw [List.map_cons, ih (List.isChain_cons_cons.mp h).2]

end Sse
end Aisix
