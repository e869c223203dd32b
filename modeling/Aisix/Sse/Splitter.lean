import Aisix.Sse.Framing
import Mathlib.Data.List.Infix

/-!
# Aisix.Sse.Splitter

The splitter that takes chunks in and hands frames out, resuming its scan where it stopped, and that
it hands out the frames `cut` names (`splitChunks_eq`).
-/

namespace Aisix
namespace Sse

/-- `scan`'s loop over the bytes from offset `i` on: the first blank line's offset, and the offset
past it. -/
def scanLoop : Bytes → Nat → Bool → Option (Nat × Nat)
  | [], _, _ => none
  | [b], i, atLineStart =>
    if b = CR ∨ b = LF then if atLineStart then some (i, i + 1) else none else none
  | b :: c :: rest, i, atLineStart =>
    if b = CR ∧ c = LF then
      if atLineStart then some (i, i + 2) else scanLoop rest (i + 2) true
    else if b = CR ∨ b = LF then
      if atLineStart then some (i, i + 1) else scanLoop (c :: rest) (i + 1) true
    else scanLoop (c :: rest) (i + 1) false

def scan (buf : Bytes) (start : Nat) : Option (Nat × Nat) :=
  if start = 0 then scanLoop buf 0 true
  else
    match buf[start - 1]? with
    | none => none
    | some b =>
      if b = LF then scanLoop (buf.drop start) start true
      else if b = CR then
        if buf[start]? = some LF then scanLoop (buf.drop (start + 1)) (start + 1) true
        else scanLoop (buf.drop start) start true
      else scanLoop (buf.drop start) start false

structure SseFrameTooLarge where
  limit : Nat
  deriving DecidableEq, Repr

structure SseFrameSplitter where
  buf : Bytes
  scanned : Nat
  afterCr : Bool
  maxFrameBytes : Nat
  deriving DecidableEq, Repr

namespace SseFrameSplitter

def new (maxFrameBytes : Nat) : SseFrameSplitter := ⟨[], 0, false, maxFrameBytes⟩

def push (sp : SseFrameSplitter) (chunk : Bytes) : SseFrameSplitter :=
  { sp with buf := sp.buf ++ chunk }

/-- The line feed that completes the carriage return of the frame before is read as no line. -/
def skipTail (sp : SseFrameSplitter) : SseFrameSplitter :=
  if sp.afterCr && !sp.buf.isEmpty then
    { sp with
      afterCr := false
      scanned := if sp.buf.head? = some LF ∧ sp.scanned = 0 then 1 else sp.scanned }
  else sp

def nextFrame (sp : SseFrameSplitter) : Except SseFrameTooLarge (Option Bytes) × SseFrameSplitter :=
  let sp := sp.skipTail
  match scan sp.buf sp.scanned with
  | some (_, stop) =>
    let frame := sp.buf.take stop
    let buf := sp.buf.drop stop
    (.ok (some frame),
      { sp with buf := buf, scanned := 0, afterCr := buf.isEmpty && frame.getLast? == some CR })
  | none =>
    let sp := { sp with scanned := sp.buf.length }
    if sp.buf.length > sp.maxFrameBytes then (.error ⟨sp.maxFrameBytes⟩, sp) else (.ok none, sp)

def takeRest (sp : SseFrameSplitter) : Bytes × SseFrameSplitter :=
  (sp.buf, { sp with buf := [], scanned := 0, afterCr := false })

/-- The loop of every reader: frames until there is none, or the bound is passed. -/
def drain : Nat → SseFrameSplitter → List Bytes × Option SseFrameTooLarge × SseFrameSplitter
  | 0, sp => ([], none, sp)
  | fuel + 1, sp =>
    match sp.nextFrame with
    | (.ok (some frame), sp) => (frame :: (drain fuel sp).1, (drain fuel sp).2)
    | (.ok none, sp) => ([], none, sp)
    | (.error err, sp) => ([], some err, sp)

/-- Each frame takes a byte off the buffer, so this is enough fuel. -/
def frames (sp : SseFrameSplitter) : List Bytes × Option SseFrameTooLarge × SseFrameSplitter :=
  sp.drain (sp.buf.length + 1)

end SseFrameSplitter

/-- Every frame the chunks complete, then the remainder. -/
def splitChunks (sp : SseFrameSplitter) :
    List Bytes → Except SseFrameTooLarge (List Bytes × Bytes)
  | [] => .ok ([], sp.takeRest.1)
  | c :: cs =>
    match (sp.push c).frames with
    | (fs, none, sp) => (splitChunks sp cs).map fun r => (fs ++ r.1, r.2)
    | (_, some err, _) => .error err

/-! ### The scan in a line state -/

/-- What `scan` does with the bytes `s` from offset `i` on, told the line state. -/
def scanIn : LineState → Bytes → Nat → Option (Nat × Nat)
  | .start, s, i => scanLoop s i true
  | .afterCr, s, i => if s.head? = some LF then scanLoop s.tail (i + 1) true else scanLoop s i true
  | .inside, s, i => scanLoop s i false

theorem scan_append (cur s : Bytes) :
    scan (cur ++ s) cur.length = scanIn (LineState.start.run cur) s cur.length := by
  rcases List.eq_nil_or_concat' cur with rfl | ⟨line, b, rfl⟩
  · simp [scan, scanIn]
  · have hrun : LineState.start.run (line ++ [b]) = .after b := by simp [LineState.run_append]
    have hpos : (line ++ [b]).length ≠ 0 := by simp
    have hbefore : (line ++ [b] ++ s)[(line ++ [b]).length - 1]? = some b := by simp
    have hat : (line ++ [b] ++ s)[(line ++ [b]).length]? = s.head? := by
      rw [List.getElem?_append_right (Nat.le_refl _), Nat.sub_self, List.head?_eq_getElem?]
    have hdrop : (line ++ [b] ++ s).drop ((line ++ [b]).length + 1) = s.tail := by
      rw [← List.drop_drop, List.drop_left, List.drop_one]
    rw [scan, if_neg hpos, hbefore, hat, hrun, hdrop, List.drop_left]
    by_cases hcr : b = CR
    · simp [hcr, CR_ne_LF, scanIn]
    · by_cases hlf : b = LF
      · simp [hlf, scanIn]
      · simp [LineState.after, hcr, hlf, scanIn]

theorem scanIn_nil (st : LineState) (i : Nat) : scanIn st [] i = none := by
  cases st <;> simp [scanIn, scanLoop]

theorem scanIn_step {st : LineState} {b : UInt8} (h : st.ends b = false) (s : Bytes) (i : Nat) :
    scanIn st (b :: s) i = scanIn (.after b) s (i + 1) := by
  cases st with
  | start =>
    have hb : b ≠ CR ∧ b ≠ LF := by simpa [LineState.ends] using h
    cases s <;> simp [scanIn, scanLoop, LineState.after, hb]
  | afterCr =>
    have hb : b ≠ CR := by simpa [LineState.ends] using h
    by_cases hlf : b = LF
    · simp [scanIn, hlf]
    · cases s <;> simp [scanIn, scanLoop, LineState.after, hb, hlf]
  | inside =>
    by_cases hcr : b = CR
    · subst hcr
      cases s with
      | nil => simp [scanIn, scanLoop]
      | cons c s =>
        by_cases hc : c = LF
        · simp [scanIn, scanLoop, hc]
        · simp [scanIn, scanLoop, hc]
    · by_cases hlf : b = LF
      · cases s <;> simp [scanIn, scanLoop, hlf, LF_ne_CR]
      · cases s <;> simp [scanIn, scanLoop, LineState.after, hcr, hlf]

theorem scanIn_crlf {st : LineState} (h : st.ends CR = true) (s : Bytes) (i : Nat) :
    scanIn st (CR :: LF :: s) i = some (i, i + 2) := by
  cases st with
  | start => simp [scanIn, scanLoop]
  | afterCr => simp [scanIn, scanLoop, CR_ne_LF]
  | inside => simp [LineState.ends] at h

theorem scanIn_one {st : LineState} {b : UInt8} (h : st.ends b = true) {s : Bytes}
    (hs : b = CR → s.head? ≠ some LF) (i : Nat) : scanIn st (b :: s) i = some (i, i + 1) := by
  have hb := LineState.eq_of_ends h
  have hlone : ∀ c t, s = c :: t → ¬(b = CR ∧ c = LF) := fun c t hc ⟨hcr, hlf⟩ =>
    hs hcr (by simp [hc, hlf])
  have hloop : scanLoop (b :: s) i true = some (i, i + 1) := by
    cases s with
    | nil => simp [scanLoop, hb]
    | cons c t => simp [scanLoop, hlone c t rfl, hb]
  cases st with
  | start => exact hloop
  | afterCr =>
    have hcr : b = CR := by simpa [LineState.ends] using h
    simpa [scanIn, hcr, CR_ne_LF] using hloop
  | inside => simp [LineState.ends] at h

/-! ### The splitter in a line state -/

/-- How the carriage-return flag shows the line state after `cur`, before `s`: the last byte tells
it; or the flag does, behind a frame that took the whole buffer; or the buffer went on with another
byte. -/
inductive Shows : Bool → LineState → Bytes → Bytes → Prop where
  | lastByte (cur s : Bytes) : Shows false (LineState.start.run cur) cur s
  | released (s : Bytes) : Shows true .afterCr [] s
  | wentOn {s : Bytes} (hne : s ≠ []) (hs : s.head? ≠ some LF) : Shows false .afterCr [] s

namespace SseFrameSplitter

/-- The splitter has scanned `cur` and holds `s` behind it. -/
structure Holds (sp : SseFrameSplitter) (max : Nat) (st : LineState) (cur s : Bytes) : Prop where
  buf : sp.buf = cur ++ s
  scanned : sp.scanned = cur.length
  max : sp.maxFrameBytes = max
  shows : Shows sp.afterCr st cur s

variable {sp : SseFrameSplitter} {max : Nat} {st : LineState} {cur s : Bytes}

theorem holds_new (max : Nat) : Holds (new max) max .start [] [] where
  buf := rfl
  scanned := rfl
  max := rfl
  shows := .lastByte [] []

theorem Holds.push (h : Holds sp max st cur []) (c : Bytes) : Holds (sp.push c) max st cur c where
  buf := by simp [SseFrameSplitter.push, h.buf]
  scanned := h.scanned
  max := h.max
  shows := by
    obtain ⟨buf, scanned, afterCr, limit⟩ := sp
    show Shows afterCr st cur c
    have hshows : Shows afterCr st cur [] := h.shows
    cases hshows with
    | lastByte => exact .lastByte cur c
    | released => exact .released c
    | wentOn hne => exact absurd rfl hne

theorem skipTail_fields (sp : SseFrameSplitter) :
    sp.skipTail.buf = sp.buf ∧ sp.skipTail.maxFrameBytes = sp.maxFrameBytes ∧
      sp.skipTail.afterCr = (sp.afterCr && sp.buf.isEmpty) := by
  obtain ⟨buf, scanned, afterCr, limit⟩ := sp
  cases afterCr <;> cases buf <;> simp [skipTail]

theorem Holds.scan_skipTail (h : Holds sp max st cur s) :
    scan sp.skipTail.buf sp.skipTail.scanned = scanIn st s cur.length := by
  obtain ⟨buf, scanned, afterCr, limit⟩ := sp
  obtain ⟨hbuf, hscanned, -, hshows⟩ := h
  obtain rfl : buf = cur ++ s := hbuf
  obtain rfl : scanned = cur.length := hscanned
  cases hshows with
  | lastByte => exact scan_append cur s
  | released =>
    cases s with
    | nil => simp [skipTail, scan, scanLoop, scanIn]
    | cons b s =>
      by_cases hb : b = LF
      · subst hb
        have hone : scan ([LF] ++ s) 1 = scanIn .start s 1 := scan_append [LF] s
        simpa [skipTail, scanIn] using hone
      · simp [skipTail, hb, scan, scanIn]
  | wentOn hne hs => simp [skipTail, scan, scanIn, hs]

theorem Holds.nextFrame_eq (h : Holds sp max st cur s) :
    sp.nextFrame =
      match scanIn st s cur.length with
      | some (_, stop) =>
        (.ok (some ((cur ++ s).take stop)),
          ⟨(cur ++ s).drop stop, 0,
            ((cur ++ s).drop stop).isEmpty && ((cur ++ s).take stop).getLast? == some CR, max⟩)
      | none =>
        if (cur ++ s).length > max then
          (.error ⟨max⟩, ⟨cur ++ s, (cur ++ s).length, sp.afterCr && (cur ++ s).isEmpty, max⟩)
        else (.ok none, ⟨cur ++ s, (cur ++ s).length, sp.afterCr && (cur ++ s).isEmpty, max⟩) := by
  obtain ⟨hbuf, hmax, hflag⟩ := sp.skipTail_fields
  rw [h.buf] at hbuf hflag
  rw [h.max] at hmax
  have hscan := h.scan_skipTail
  rw [nextFrame, hscan]
  cases hin : scanIn st s cur.length with
  | some r => simp only [hbuf, hmax]
  | none => simp only [hbuf, hmax, hflag]

theorem Holds.nextFrame_step {b : UInt8} (h : Holds sp max st cur (b :: s))
    (hb : st.ends b = false) :
    ∃ sp', Holds sp' max (.after b) (cur ++ [b]) s ∧ sp.nextFrame = sp'.nextFrame := by
  have hread :
      Holds ⟨cur ++ [b] ++ s, cur.length + 1, false, max⟩ max (.after b) (cur ++ [b]) s := by
    have hrun : LineState.start.run (cur ++ [b]) = .after b := by simp [LineState.run_append]
    exact ⟨rfl, by simp, rfl, hrun ▸ .lastByte (cur ++ [b]) s⟩
  have hfull : (cur ++ [b] ++ s).isEmpty = false := by simp
  have hlen : (cur ++ [b]).length = cur.length + 1 := by simp
  refine ⟨_, hread, ?_⟩
  rw [h.nextFrame_eq, hread.nextFrame_eq, scanIn_step hb, List.append_cons, hfull, hlen]
  simp only [Bool.and_false]

theorem Holds.nextFrame_crlf (h : Holds sp max st cur (CR :: LF :: s)) (hb : st.ends CR = true) :
    ∃ sp', Holds sp' max .start [] s ∧ sp.nextFrame = (.ok (some (cur ++ [CR, LF])), sp') := by
  have hsplit : cur ++ CR :: LF :: s = cur ++ [CR, LF] ++ s := by simp
  have hlen : cur.length + 2 = (cur ++ [CR, LF]).length := by simp
  have hlast : (cur ++ [CR, LF]).getLast? = some LF := by simp
  refine ⟨⟨s, 0, false, max⟩, ⟨rfl, rfl, rfl, .lastByte [] s⟩, ?_⟩
  rw [h.nextFrame_eq, scanIn_crlf hb]
  simp only [hsplit, hlen, List.take_left, List.drop_left, hlast]
  simp [LF_ne_CR]

theorem Holds.nextFrame_one {b : UInt8} (h : Holds sp max st cur (b :: s)) (hb : st.ends b = true)
    (hs : b = CR → s.head? ≠ some LF) :
    ∃ sp', Holds sp' max (.after b) [] s ∧ sp.nextFrame = (.ok (some (cur ++ [b])), sp') := by
  have hsplit : cur ++ b :: s = cur ++ [b] ++ s := by simp
  have hlen : cur.length + 1 = (cur ++ [b]).length := by simp
  have hlast : (cur ++ [b]).getLast? = some b := by simp
  refine ⟨⟨s, 0, s.isEmpty && b == CR, max⟩, ⟨rfl, rfl, rfl, ?_⟩, ?_⟩
  · show Shows (s.isEmpty && b == CR) (.after b) [] s
    rcases LineState.eq_of_ends hb with rfl | rfl
    · cases s with
      | nil => exact .released []
      | cons c s => exact .wentOn (by simp) (hs rfl)
    · have hflag : (s.isEmpty && LF == CR) = false := by simp [LF_ne_CR]
      exact hflag ▸ .lastByte [] s
  · rw [h.nextFrame_eq, scanIn_one hb hs]
    simp only [hsplit, hlen, List.take_left, List.drop_left, hlast]
    simp

theorem Holds.nextFrame_nil (h : Holds sp max st cur []) (hmax : cur.length ≤ max) :
    ∃ sp', Holds sp' max st cur [] ∧ sp.nextFrame = (.ok none, sp') := by
  refine ⟨⟨cur, cur.length, sp.afterCr && cur.isEmpty, max⟩, ⟨by simp, rfl, rfl, ?_⟩, ?_⟩
  · show Shows (sp.afterCr && cur.isEmpty) st cur []
    obtain ⟨buf, scanned, afterCr, limit⟩ := sp
    have hshows : Shows afterCr st cur [] := h.shows
    cases hshows with
    | lastByte => exact .lastByte cur []
    | released => exact .released []
    | wentOn hne => exact absurd rfl hne
  · rw [h.nextFrame_eq, scanIn_nil]
    simp [Nat.not_lt.mpr hmax]

/-- **The frames the splitter hands out for what it holds are those `cut` names.** -/
theorem Holds.drain_eq (h : Holds sp max st cur s) {fuel : Nat} (hfuel : s.length < fuel)
    (hmax : (cut st cur s).2.length ≤ max) :
    ∃ sp', sp.drain fuel = ((cut st cur s).1, none, sp') ∧
      Holds sp' max (st.run s) (cut st cur s).2 [] := by
  induction st, cur, s using cut_induct generalizing sp fuel with
  | nil st cur =>
    obtain ⟨fuel, rfl⟩ : ∃ n, fuel = n + 1 := ⟨fuel - 1, by simp at hfuel; omega⟩
    obtain ⟨sp', hsp', hnext⟩ := h.nextFrame_nil (by simpa using hmax)
    exact ⟨sp', by simp [drain, hnext], by simpa using hsp'⟩
  | step st cur b s hb ih =>
    obtain ⟨sp₁, hsp₁, hnext⟩ := h.nextFrame_step hb
    rw [cut_step hb] at hmax ⊢
    simp only [List.length_cons] at hfuel
    obtain ⟨sp', hdrain, hsp'⟩ := ih hsp₁ (Nat.lt_of_succ_lt hfuel) hmax
    obtain ⟨fuel, rfl⟩ : ∃ n, fuel = n + 1 := ⟨fuel - 1, by omega⟩
    have hsame : sp.drain (fuel + 1) = sp₁.drain (fuel + 1) := by simp only [drain, hnext]
    exact ⟨sp', hsame.trans hdrain, hsp'⟩
  | crlf st cur s hb ih =>
    obtain ⟨sp₁, hsp₁, hnext⟩ := h.nextFrame_crlf hb
    rw [cut_crlf hb] at hmax ⊢
    simp only [List.length_cons] at hfuel
    obtain ⟨fuel, rfl⟩ : ∃ n, fuel = n + 1 := ⟨fuel - 1, by omega⟩
    have hrest : s.length < fuel := by omega
    obtain ⟨sp', hdrain, hsp'⟩ := ih hsp₁ hrest hmax
    exact ⟨sp', by simp only [drain, hnext, hdrain], hsp'⟩
  | one st cur b s hb hs ih =>
    obtain ⟨sp₁, hsp₁, hnext⟩ := h.nextFrame_one hb hs
    rw [cut_one hb cur hs] at hmax ⊢
    simp only [List.length_cons] at hfuel
    obtain ⟨fuel, rfl⟩ : ∃ n, fuel = n + 1 := ⟨fuel - 1, by omega⟩
    have hrest : s.length < fuel := by omega
    obtain ⟨sp', hdrain, hsp'⟩ := ih hsp₁ hrest hmax
    exact ⟨sp', by simp only [drain, hnext, hdrain], hsp'⟩

end SseFrameSplitter

/-- After no chunk is the unfinished frame longer than the bound. -/
def Fits (max : Nat) (st : LineState) (cur : Bytes) (chunks : List Bytes) : Prop :=
  ∀ p ∈ chunks.inits, (cutChunks st cur p).2.length ≤ max

theorem Fits.head {max : Nat} {st : LineState} {cur c : Bytes} {cs : List Bytes}
    (h : Fits max st cur (c :: cs)) : (cut st cur c).2.length ≤ max := by
  have hone : [c] ∈ (c :: cs).inits := by simp
  simpa [cutChunks] using h [c] hone

theorem Fits.tail {max : Nat} {st : LineState} {cur c : Bytes} {cs : List Bytes}
    (h : Fits max st cur (c :: cs)) : Fits max (st.run c) (cut st cur c).2 cs := by
  intro p hp
  have hcons : c :: p ∈ (c :: cs).inits := by simpa [List.inits_cons] using hp
  exact h (c :: p) hcons

/-- **Fed any chunks, the splitter hands out the frames and the remainder of `cutChunks`.** -/
theorem splitChunks_eq {sp : SseFrameSplitter} {max : Nat} {st : LineState} {cur : Bytes}
    (h : sp.Holds max st cur []) {chunks : List Bytes} (hfits : Fits max st cur chunks) :
    splitChunks sp chunks = .ok (cutChunks st cur chunks) := by
  induction chunks generalizing sp st cur with
  | nil =>
    have hbuf : sp.buf = cur := by simpa using h.buf
    simp [splitChunks, cutChunks, SseFrameSplitter.takeRest, hbuf]
  | cons c cs ih =>
    have hpush := h.push c
    have hfuel : c.length < (sp.push c).buf.length + 1 := by
      rw [hpush.buf, List.length_append]; omega
    obtain ⟨sp', hdrain, hsp'⟩ := hpush.drain_eq hfuel hfits.head
    have hframes : (sp.push c).frames = ((cut st cur c).1, none, sp') := hdrain
    simp only [splitChunks, hframes, ih hsp' hfits.tail]
    rfl

end Sse
end Aisix
