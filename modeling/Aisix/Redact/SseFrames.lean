import Aisix.Json
import Aisix.Sse.Decoder
import Aisix.Sse.Whole

/-!
# Aisix.Redact.SseFrames

The frames of a buffered event stream as the passes over it read them: the masking walks frames, the
scan their payloads, and both cut with the splitter of the gateway (`terminated_eq`). Line ends
behind a frame are no part of its payload (`framePayload_append`).
-/

namespace Aisix
namespace Redact

open Json Sse

/-- Where the content of the first frame ends, and where the frame does. -/
def splitFrameEnd (buf : Sse.Bytes) : Option (Nat × Nat) :=
  (scan buf 0).map fun r =>
    (if 2 ≤ r.1 ∧ (buf.drop (r.1 - 2)).take 2 = [CR, LF] then r.1 - 2 else r.1 - 1, r.2)

/-- Offset and length of the first frame's separator. -/
def frameTerminator (raw : Sse.Bytes) : Option (Nat × Nat) :=
  (splitFrameEnd raw).map fun r => (r.1, r.2 - r.1)

def SEPARATORS : List Sse.Bytes :=
  [[LF, LF], [CR, LF, CR, LF], [CR, CR], [LF, CR, LF], [CR, LF, LF], [LF, CR], [CR, CR, LF],
    [CR, LF, CR], [LF], [CR], [CR, LF]]

def separator (bytes : Sse.Bytes) : Sse.Bytes := (SEPARATORS.find? (· == bytes)).getD [LF, LF]

/-- The loop of every reader below: the content and the separator of each frame, and the
unterminated fragment. -/
def terminatedLoop : Nat → Sse.Bytes → List (Sse.Bytes × Sse.Bytes) × Sse.Bytes
  | 0, rest => ([], rest)
  | fuel + 1, rest =>
    match frameTerminator rest with
    | none => ([], rest)
    | some (pos, len) =>
      let r := terminatedLoop fuel (rest.drop (pos + len))
      ((rest.take pos, (rest.drop pos).take len) :: r.1, r.2)

/-- A frame takes a byte at least, so this is enough fuel. -/
def terminated (raw : Sse.Bytes) : List (Sse.Bytes × Sse.Bytes) × Sse.Bytes :=
  terminatedLoop raw.length raw

def lastFrameEnd (raw : Sse.Bytes) : Nat :=
  ((terminated raw).1.map fun f => f.1.length + f.2.length).sum

/-- The value of each `data` line. -/
def dataLines (frame : Sse.Bytes) : List Sse.Bytes :=
  (lines frame).filterMap fun l => (parseField l.content).bind fun field =>
    if field.1 = DATA then some field.2 else none

/-- The values of the `data` lines, joined. -/
def framePayload (frame : Sse.Bytes) : Option (List Char) :=
  match dataLines frame with
  | [] => none
  | first :: rest =>
    some (rest.foldl (fun payload r => payload ++ '\n' :: fromUtf8Lossy r) (fromUtf8Lossy first))

def sseFramePayloads (raw : Sse.Bytes) : List (List Char) :=
  ((terminated raw).1.filterMap fun f => framePayload f.1) ++
    (framePayload (terminated raw).2).toList

structure SseFrame where
  raw : Sse.Bytes
  data : Option Value
  term : Sse.Bytes

section Parse

variable (parse : List Char → Option Value)

/-- One JSON document, or nothing to read at all. -/
def payloadScannable (payload : List Char) : Bool :=
  let t := trim payload
  t.isEmpty || t == "[DONE]".toList || (parse t).isSome

def SseFrame.of (raw term : Sse.Bytes) : SseFrame :=
  ⟨raw, (framePayload raw).bind fun l => parse (trim l), term⟩

def splitSseFrames (raw : Sse.Bytes) : List SseFrame :=
  ((terminated raw).1.map fun f => SseFrame.of parse f.1 (separator f.2)) ++
    if (terminated raw).2.isEmpty then [] else [SseFrame.of parse (terminated raw).2 []]

end Parse

/-- The frames of a buffer as they stand in it, an unterminated fragment last. -/
def framesOf (raw : Sse.Bytes) : List Sse.Bytes :=
  ((terminated raw).1.map fun f => f.1 ++ f.2) ++
    if (terminated raw).2.isEmpty then [] else [(terminated raw).2]

/-! ### Payloads -/

def isLineEnd (b : UInt8) : Bool := b == CR || b == LF

/-- The `data` value of a line. -/
def dataOf (content : Sse.Bytes) : Option Sse.Bytes :=
  (parseField content).bind fun field => if field.1 = DATA then some field.2 else none

def values (ls : List SseLine) : List Sse.Bytes := ls.filterMap fun l => dataOf l.content

@[simp] theorem values_nil : values [] = [] := rfl

@[simp] theorem values_cons (l : SseLine) (ls : List SseLine) :
    values (l :: ls) = (dataOf l.content).toList ++ values ls := by
  unfold values
  rw [List.filterMap_cons]
  cases dataOf l.content <;> rfl

theorem dataLines_eq (frame : Sse.Bytes) : dataLines frame = values (lines frame) := rfl

@[simp] theorem dataOf_nil : dataOf [] = none := rfl

theorem values_linesFrom_concat {b : UInt8} (hb : b = CR ∨ b = LF) (cur x : Sse.Bytes) :
    values (linesFrom cur (x ++ [b])) = values (linesFrom cur x) := by
  induction cur, x using linesFrom.induct with
  | case1 => simp [linesFrom, hb]
  | case2 cur hcur => simp [linesFrom, hb, hcur]
  | case3 cur c hc =>
    by_cases hpair : c = CR ∧ b = LF
    · simp [linesFrom, hpair]
    · simp [linesFrom, hpair, hc, hb]
  | case4 cur c hc =>
    have hpair : ¬(c = CR ∧ b = LF) := fun h => hc (.inl h.1)
    simp [linesFrom, hpair, hc, hb]
  | case5 cur c d rest hpair ih => simp [linesFrom, hpair, ih]
  | case6 cur c d rest hpair hend ih | case7 cur c d rest hpair hend ih =>
    simp only [List.cons_append] at ih ⊢
    simp [linesFrom, hpair, hend, ih]

theorem isPrefixOf_bom_concat {b : UInt8} (hb : b = CR ∨ b = LF) (f : Sse.Bytes) :
    UTF8_BOM.isPrefixOf (f ++ [b]) = UTF8_BOM.isPrefixOf f := by
  match f with
  | [] => rcases hb with rfl | rfl <;> rfl
  | [a] => rcases hb with rfl | rfl <;> simp [UTF8_BOM, CR, LF, List.isPrefixOf]
  | [a, c] => rcases hb with rfl | rfl <;> simp [UTF8_BOM, CR, LF, List.isPrefixOf]
  | a :: c :: d :: f => simp [UTF8_BOM, List.isPrefixOf]

theorem dataLines_concat {b : UInt8} (hb : b = CR ∨ b = LF) (f : Sse.Bytes) :
    dataLines (f ++ [b]) = dataLines f := by
  rw [dataLines_eq, dataLines_eq, lines, lines, isPrefixOf_bom_concat hb]
  split
  · next hbom =>
    obtain ⟨rest, rfl⟩ := List.isPrefixOf_iff_prefix.mp hbom
    rw [List.append_assoc, List.drop_left, List.drop_left]
    exact values_linesFrom_concat hb [] rest
  · exact values_linesFrom_concat hb [] f

theorem framePayload_append (f : Sse.Bytes) {ends : Sse.Bytes} (h : ∀ b ∈ ends, b = CR ∨ b = LF) :
    framePayload (f ++ ends) = framePayload f := by
  induction ends generalizing f with
  | nil => rw [List.append_nil]
  | cons b ends ih =>
    obtain ⟨hb, hends⟩ := List.forall_mem_cons.mp h
    rw [List.append_cons, ih (f ++ [b]) hends]
    unfold framePayload
    rw [dataLines_concat hb]

/-! ### Frames -/

def contentEnd (line : Sse.Bytes) : Nat :=
  if 2 ≤ line.length ∧
    line.drop (line.length - 2) = [CR, LF] then line.length - 2 else line.length - 1

theorem contentEnd_le (line : Sse.Bytes) : contentEnd line ≤ line.length := by
  unfold contentEnd
  split
  all_goals exact Nat.sub_le _ _

theorem splitFrameEnd_append {f : Sse.Bytes} (h : Whole f) :
    ∃ line blank, Ended f line blank ∧
      ∀ s, Apart f s → splitFrameEnd (f ++ s) = some (contentEnd line, f.length) := by
  obtain ⟨line, blank, hended, hscan⟩ := h.scan
  refine ⟨line, blank, hended, ?_⟩
  intro s hs
  have hlast : ∀ rest : Sse.Bytes, 2 ≤ line.length →
      ((line ++ rest).drop (line.length - 2)).take 2 = line.drop (line.length - 2) := by
    intro rest htwo
    have hlen : (line.drop (line.length - 2)).length = 2 := by
      rw [List.length_drop]
      omega
    rw [List.drop_append_of_le_length (Nat.sub_le _ _)]
    exact List.take_left' hlen
  unfold splitFrameEnd
  rw [hscan s hs, Option.map_some, hended.eq, List.append_assoc]
  dsimp only
  unfold contentEnd
  by_cases htwo : 2 ≤ line.length
  · rw [hlast _ htwo]
  · rw [if_neg (fun h => htwo h.1), if_neg (fun h => htwo h.1)]

theorem separator_mem {f line blank : Sse.Bytes} (h : Ended f line blank) :
    line.drop (contentEnd line) ++ blank ∈ SEPARATORS := by
  rcases List.eq_nil_or_concat' line with rfl | ⟨x, b, rfl⟩
  · rcases h.spelling with rfl | rfl | rfl <;> decide
  · have hends : ∀ c, blank.head? = some c → (LineState.after b).ends c = true := by
      intro c hc
      have hrun := h.ends c hc
      rwa [LineState.run_append, LineState.run_cons, LineState.run_nil] at hrun
    have hlast : (x ++ [b]).drop ((x ++ [b]).length - 1) = [b] := by
      rw [List.length_append, List.length_singleton, Nat.add_sub_cancel, List.drop_left]
    by_cases hcr : b = CR
    · subst hcr
      have hone : contentEnd (x ++ [CR]) = (x ++ [CR]).length - 1 := by
        refine if_neg ?_
        rintro ⟨-, hpair⟩
        have hlf : ((x ++ [CR]).drop ((x ++ [CR]).length - 2)).getLast? = some LF := by
          rw [hpair]
          rfl
        rw [List.getLast?_drop] at hlf
        split at hlf
        · cases hlf
        · rw [List.getLast?_concat] at hlf
          exact CR_ne_LF (Option.some.inj hlf)
      rw [hone, hlast]
      rcases h.spelling with rfl | rfl | rfl
      · decide
      · exact absurd (hends LF rfl) Bool.false_ne_true
      · decide
    · by_cases hlf : b = LF
      · subst hlf
        unfold contentEnd
        split
        · next hpair =>
          rw [hpair.2]
          rcases h.spelling with rfl | rfl | rfl <;> decide
        · rw [hlast]
          rcases h.spelling with rfl | rfl | rfl <;> decide
      · -- a line that goes on has no end
        have hinside : LineState.after b = .inside := by
          unfold LineState.after
          rw [if_neg hcr, if_neg hlf]
        rw [hinside] at hends
        rcases h.spelling with rfl | rfl | rfl
        all_goals exact absurd (hends _ rfl) Bool.false_ne_true

theorem frameTerminator_append {f : Sse.Bytes} (h : Whole f) :
    ∃ content term, f = content ++ term ∧ term ∈ SEPARATORS ∧
      ∀ s, Apart f s → frameTerminator (f ++ s) = some (content.length, term.length) := by
  obtain ⟨line, blank, hended, hsplit⟩ := splitFrameEnd_append h
  refine ⟨line.take (contentEnd line), line.drop (contentEnd line) ++ blank, ?_,
    separator_mem hended, ?_⟩
  · rw [← List.append_assoc, List.take_append_drop, hended.eq]
  · intro s hs
    have hle := contentEnd_le line
    unfold frameTerminator
    rw [hsplit s hs, Option.map_some, hended.eq, List.length_append, List.length_append,
      List.length_take, List.length_drop, Nat.min_eq_left hle]
    dsimp only
    rw [Nat.sub_add_comm hle]

theorem frameTerminator_of_nil {s : Sse.Bytes} (h : (cut .start [] s).1 = []) :
    frameTerminator s = none := by
  unfold frameTerminator splitFrameEnd
  rw [scan_of_nil h]
  rfl

theorem terminatedLoop_eq {fuel : Nat} {raw r : Sse.Bytes} {fs : List Sse.Bytes}
    (h : cut .start [] raw = (fs, r)) (hfuel : raw.length ≤ fuel) :
    ((terminatedLoop fuel raw).1.map fun p => p.1 ++ p.2) = fs ∧ (terminatedLoop fuel raw).2 = r ∧
      ∀ p ∈ (terminatedLoop fuel raw).1, p.2 ∈ SEPARATORS := by
  induction fs generalizing raw fuel with
  | nil =>
    have hflat := flatten_cut .start [] raw
    rw [h, flatten_pieces, List.flatten_nil, List.nil_append, List.nil_append] at hflat
    subst hflat
    have hnone : terminatedLoop fuel r = ([], r) := by
      cases fuel with
      | zero => rfl
      | succ fuel =>
        rw [terminatedLoop, frameTerminator_of_nil (by rw [h])]
    rw [hnone]
    exact ⟨rfl, rfl, fun p hp => absurd hp List.not_mem_nil⟩
  | cons f fs ih =>
    obtain ⟨s, rfl, hwhole, hapart, hrest⟩ := cut_cons h
    obtain ⟨content, term, hf, hterm, hfind⟩ := frameTerminator_append hwhole
    have hpos : 0 < f.length := List.length_pos_of_ne_nil hwhole.ne_nil
    rw [List.length_append] at hfuel
    obtain ⟨fuel, rfl⟩ : ∃ n, fuel = n + 1 := ⟨fuel - 1, by omega⟩
    have hstep : terminatedLoop (fuel + 1) (f ++ s) =
        ((content, term) :: (terminatedLoop fuel s).1, (terminatedLoop fuel s).2) := by
      rw [terminatedLoop, hfind s hapart]
      dsimp only
      rw [hf, ← List.length_append, List.drop_left, List.append_assoc, List.take_left,
        List.drop_left, List.take_left]
    obtain ⟨hframes, hremainder, hmem⟩ := @ih fuel s hrest (by omega)
    rw [hstep]
    refine ⟨?_, hremainder, ?_⟩
    · rw [List.map_cons, hframes, hf]
    · exact List.forall_mem_cons.mpr ⟨hterm, hmem⟩

/-- **The loop finds the frames of the splitter.** -/
theorem terminated_eq (raw : Sse.Bytes) :
    ((terminated raw).1.map fun p => p.1 ++ p.2) = (cut .start [] raw).1 ∧
    (terminated raw).2 = (cut .start [] raw).2 ∧
      ∀ p ∈ (terminated raw).1, p.2 ∈ SEPARATORS :=
  terminatedLoop_eq rfl (Nat.le_refl _)

theorem framesOf_eq {raw r : Sse.Bytes} {fs : List Sse.Bytes} (h : cut .start [] raw = (fs, r)) :
    framesOf raw = fs ++ if r.isEmpty then [] else [r] := by
  obtain ⟨hframes, hrest, -⟩ := terminated_eq raw
  unfold framesOf
  rw [hframes, hrest, h]

theorem lastFrameEnd_eq {raw r : Sse.Bytes} {fs : List Sse.Bytes}
    (h : cut .start [] raw = (fs, r)) : lastFrameEnd raw = fs.flatten.length := by
  obtain ⟨hframes, -, -⟩ := terminated_eq raw
  rw [h] at hframes
  subst hframes
  unfold lastFrameEnd
  rw [List.length_flatten, List.map_map]
  congr 1
  refine List.map_congr_left ?_
  intro p _
  exact List.length_append.symm

theorem lineEnd_of_separator {term : Sse.Bytes} (h : term ∈ SEPARATORS) :
    ∀ b ∈ term, b = CR ∨ b = LF := by
  have hall : (SEPARATORS.all fun term => term.all isLineEnd) = true := by decide
  intro b hb
  have hterm := List.all_eq_true.mp (List.all_eq_true.mp hall term h) b hb
  unfold isLineEnd at hterm
  rwa [Bool.or_eq_true, beq_iff_eq, beq_iff_eq] at hterm

theorem separator_eq {term : Sse.Bytes} (h : term ∈ SEPARATORS) : separator term = term := by
  unfold separator
  cases hfind : SEPARATORS.find? (· == term) with
  | none => exact absurd (beq_self_eq_true term) (List.find?_eq_none.mp hfind term h)
  | some s =>
    have heq := List.find?_some hfind
    exact eq_of_beq heq

/-- The frames that are masked are the frames as they stand, each with its own separator. -/
theorem splitSseFrames_bytes (parse : List Char → Option Value) (raw : Sse.Bytes) :
    ((splitSseFrames parse raw).map fun f => f.raw ++ f.term) = framesOf raw := by
  unfold splitSseFrames framesOf
  rw [List.map_append, List.map_map]
  congr 1
  · refine List.map_congr_left ?_
    intro p hp
    exact congrArg (p.1 ++ ·) (separator_eq ((terminated_eq raw).2.2 p hp))
  · split
    · rfl
    · exact congrArg (fun f => [f]) (List.append_nil _)

/-- **What is masked and what is scanned are one list of payloads.** -/
theorem splitSseFrames_payloads (parse : List Char → Option Value) (raw : Sse.Bytes) :
    ((splitSseFrames parse raw).filterMap fun f => framePayload f.raw) = sseFramePayloads raw := by
  unfold splitSseFrames sseFramePayloads
  rw [List.filterMap_append, List.filterMap_map]
  congr 1
  cases (terminated raw).2 with
  | nil => rfl
  | cons b rest =>
    rw [List.isEmpty_cons, if_neg Bool.false_ne_true]
    unfold SseFrame.of
    rw [List.filterMap_cons]
    dsimp only
    cases framePayload (b :: rest) <;> rfl

end Redact
end Aisix
