import Aisix.Sse.Splitter
import Aisix.Sse.Fields

/-!
# Aisix.Sse.Decoder

The decoder of the provider bridges, which reads the frames of its splitter, and what a stream's
framing owes to the way its bytes arrive: the place of the line feed of a cut `\r\n`, and nothing
else (`framing_of_chunks`).
-/

namespace Aisix
namespace Sse

def replacementCharacter : Char := Char.ofNat 0xFFFD

/-- The continuation bytes a lead byte asks for, the range of the first of them, and the lead's own
bits. -/
def leadByte (b : UInt8) : Option (Nat × UInt8 × UInt8 × Nat) :=
  if 0xC2 ≤ b ∧ b ≤ 0xDF then some (1, 0x80, 0xBF, b.toNat - 0xC0)
  else if b = 0xE0 then some (2, 0xA0, 0xBF, 0)
  else if b = 0xED then some (2, 0x80, 0x9F, 0xD)
  else if 0xE1 ≤ b ∧ b ≤ 0xEF then some (2, 0x80, 0xBF, b.toNat - 0xE0)
  else if b = 0xF0 then some (3, 0x90, 0xBF, 0)
  else if 0xF1 ≤ b ∧ b ≤ 0xF3 then some (3, 0x80, 0xBF, b.toNat - 0xF0)
  else if b = 0xF4 then some (3, 0x80, 0x8F, 4)
  else none

/-- `String::from_utf8_lossy`, with `need` continuation bytes owed, the next of them in `lo..=hi`,
and the bits read so far. Every maximal part of an ill-formed sequence becomes one U+FFFD. -/
def lossyFrom : Nat → UInt8 → UInt8 → Nat → Bytes → List Char
  | 0, _, _, _, [] => []
  | _ + 1, _, _, _, [] => [replacementCharacter]
  | need, lo, hi, bits, b :: rest =>
    if 0 < need ∧ lo ≤ b ∧ b ≤ hi then
      let bits := bits * 64 + (b.toNat - 0x80)
      if need = 1 then Char.ofNat bits :: lossyFrom 0 0 0 0 rest
      else lossyFrom (need - 1) 0x80 0xBF bits rest
    else
      -- a sequence cut short; the byte is read again as a lead
      (if 0 < need then [replacementCharacter] else []) ++
        if b < 0x80 then Char.ofNat b.toNat :: lossyFrom 0 0 0 0 rest
        else
          match leadByte b with
          | some (need, lo, hi, bits) => lossyFrom need lo hi bits rest
          | none => replacementCharacter :: lossyFrom 0 0 0 0 rest

def fromUtf8Lossy (bytes : Bytes) : List Char := lossyFrom 0 0 0 0 bytes

/-- Unicode `White_Space`. -/
def isWhitespace (c : Char) : Bool :=
  let n := c.toNat
  (0x09 ≤ n && n ≤ 0x0D) || n == 0x20 || n == 0x85 || n == 0xA0 || n == 0x1680 ||
    (0x2000 ≤ n && n ≤ 0x200A) || n == 0x2028 || n == 0x2029 || n == 0x202F || n ==
      0x205F || n == 0x3000

def trim (text : List Char) : List Char :=
  ((text.dropWhile isWhitespace).reverse.dropWhile isWhitespace).reverse

inductive SseEvent where
  | data (text : String)
  | done
  deriving DecidableEq, Repr

def decodeEvent (frame : Bytes) : Option SseEvent :=
  match (parseFrame frame).data with
  | none => none
  | some data =>
    if data = [] then none
    else
      let text := fromUtf8Lossy data
      some (if trim text = "[DONE]".toList then .done else .data (String.ofList text))

structure SseDecoder where
  frames : SseFrameSplitter
  overflow : Option SseFrameTooLarge
  deriving DecidableEq, Repr

namespace SseDecoder

def withMaxFrameBytes (maxFrameBytes : Nat) : SseDecoder := ⟨.new maxFrameBytes, none⟩

def feed (d : SseDecoder) (bytes : Bytes) : Except SseFrameTooLarge (List SseEvent) × SseDecoder :=
  match d.overflow with
  | some err => (.error err, d)
  | none =>
    match (d.frames.push bytes).frames with
    | (frames, none, sp) => (.ok (frames.filterMap decodeEvent), { d with frames := sp })
    | (frames, some err, sp) =>
      -- the frames before the one that is too large are answered first
      let d := { d with frames := sp.takeRest.2 }
      let events := frames.filterMap decodeEvent
      if events.isEmpty then (.error err, d) else (.ok events, { d with overflow := some err })

def finish (d : SseDecoder) : Except SseFrameTooLarge (Option SseEvent) :=
  match d.overflow with
  | some err => .error err
  | none => .ok (decodeEvent d.frames.takeRest.1)

/-- Every event of the chunks, fed one by one, and of the finish. -/
def decodeChunks (d : SseDecoder) : List Bytes → Except SseFrameTooLarge (List SseEvent)
  | [] => d.finish.map Option.toList
  | c :: cs =>
    match d.feed c with
    | (.ok events, d) => (decodeChunks d cs).map (events ++ ·)
    | (.error err, _) => .error err

/-- **Fed any chunks that fit, the decoder answers the events of the splitter's pieces.** -/
theorem decodeChunks_eq {sp : SseFrameSplitter} {max : Nat} {st : LineState} {cur : Bytes}
    (h : sp.Holds max st cur []) {chunks : List Bytes} (hfits : Fits max st cur chunks) :
    decodeChunks ⟨sp, none⟩ chunks =
      .ok ((pieces (cutChunks st cur chunks)).filterMap decodeEvent) := by
  induction chunks generalizing sp st cur with
  | nil =>
    have hbuf : sp.buf = cur := by simpa using h.buf
    simp only [decodeChunks, finish, SseFrameSplitter.takeRest, hbuf, cutChunks, pieces_nil]
    cases hevent : decodeEvent cur <;> simp [hevent, Except.map]
  | cons c cs ih =>
    have hpush := h.push c
    have hfuel : c.length < (sp.push c).buf.length + 1 := by
      rw [hpush.buf, List.length_append]; omega
    obtain ⟨sp', hdrain, hsp'⟩ := hpush.drain_eq hfuel hfits.head
    have hframes : (sp.push c).frames = ((cut st cur c).1, none, sp') := hdrain
    have hpieces : pieces (cutChunks st cur (c :: cs)) =
        (cut st cur c).1 ++ pieces (cutChunks (st.run c) (cut st cur c).2 cs) := by
      simp [cutChunks, pieces]
    simp only [decodeChunks, feed, hframes, ih hsp' hfits.tail, hpieces, List.filterMap_append]
    rfl

end SseDecoder

theorem filterMap_decodeEvent {ps qs : List Bytes} (h : ps.map parseFrame = qs.map parseFrame) :
    ps.filterMap decodeEvent = qs.filterMap decodeEvent := by
  have hmap : ∀ l : List Bytes, l.filterMap decodeEvent = (l.map parseFrame).filterMap fun f =>
      match f.data with
      | none => none
      | some data =>
        if data = [] then none
        else some (if trim (fromUtf8Lossy data) = "[DONE]".toList then .done
          else .data (String.ofList (fromUtf8Lossy data))) := by
    intro l
    rw [List.filterMap_map]
    rfl
  rw [hmap, hmap, h]

theorem Fits.flatten {max : Nat} {chunks : List Bytes} (h : Fits max .start [] chunks) :
    Fits max .start [] [chunks.flatten] := by
  intro p hp
  have hp' : p = [] ∨ p = [chunks.flatten] := by simpa using hp
  rcases hp' with rfl | rfl
  · exact Nat.zero_le max
  · have hall := h chunks (by simp)
    have hle := (length_rest_cutChunks .start [] chunks).1
    simpa [cutChunks] using hle.trans hall

/-- **Two ways for a stream to arrive.** When no unfinished frame passes the bound neither way
fails, no byte is lost, and the frames differ only where a chunk ended inside the `\r\n` of a blank
line: its line feed opens the next piece. Unless a byte-order mark stands behind such a pair, every
piece keeps its fields and the decoder answers the same events. -/
theorem framing_of_chunks (max : Nat) (chunks : List Bytes) (hfits : Fits max .start [] chunks) :
    ∃ frames rest frames' rest',
      splitChunks (.new max) chunks = .ok (frames, rest) ∧
      splitChunks (.new max) [chunks.flatten] = .ok (frames', rest') ∧
      frames.flatten ++ rest = chunks.flatten ∧ frames'.flatten ++ rest' = chunks.flatten ∧
      glue (frames ++ [rest]) = frames' ++ [rest'] ∧
      ((frames' ++ [rest']).IsChain (fun f g => ¬BomAfterPair f g) →
        (frames ++ [rest]).map parseFrame = (frames' ++ [rest']).map parseFrame ∧
        ∃ events, (SseDecoder.withMaxFrameBytes max).decodeChunks chunks = .ok events ∧
          (SseDecoder.withMaxFrameBytes max).decodeChunks [chunks.flatten] = .ok events) := by
  have hnew := SseFrameSplitter.holds_new max
  have hwhole : cutChunks .start [] [chunks.flatten] = cut .start [] chunks.flatten := by
    simp [cutChunks]
  have hglue : glue (pieces (cutChunks .start [] chunks)) = pieces (cut .start [] chunks.flatten) :=
    (glue_cutChunks .start [] chunks).trans (glue_cut .start [] chunks.flatten)
  have hbytes := flatten_cutChunks .start [] chunks
  have hbytes' := flatten_cut .start [] chunks.flatten
  rw [flatten_pieces, List.nil_append] at hbytes hbytes'
  refine ⟨_, _, (cut .start [] chunks.flatten).1, (cut .start [] chunks.flatten).2,
    splitChunks_eq hnew hfits, hwhole ▸ splitChunks_eq hnew hfits.flatten, hbytes,
    hbytes', hglue, ?_⟩
  intro hbom
  have hfields : (pieces (cutChunks .start [] chunks)).map parseFrame =
      (pieces (cut .start [] chunks.flatten)).map parseFrame := by
    rw [← hglue]
    exact (map_parseFrame_glue (hglue ▸ hbom)).symm
  refine ⟨hfields, _, SseDecoder.decodeChunks_eq hnew hfits, ?_⟩
  rw [filterMap_decodeEvent hfields, ← hwhole]
  exact SseDecoder.decodeChunks_eq hnew hfits.flatten

def ascii (text : String) : Bytes := text.toList.map fun c => .ofNat c.toNat

/-- A blank line's `\r\n` cut in the middle, an empty chunk, and a second event. -/
def cutPair : List Bytes := [ascii "data: a\r\n\r", [], ascii "\ndata: b\r\r", ascii "id: 7"]

theorem framing_of_chunks_cutPair :
    Fits 32 .start [] cutPair ∧
      ∃ frames rest, splitChunks (.new 32) cutPair = .ok (frames, rest) ∧
        frames.flatten ++ rest = cutPair.flatten ∧
        glue (frames ++ [rest]) = [ascii "data: a\r\n\r\n", ascii "data: b\r\r", ascii "id: 7"] ∧
        ∃ events, (SseDecoder.withMaxFrameBytes 32).decodeChunks cutPair = .ok events ∧
          (SseDecoder.withMaxFrameBytes 32).decodeChunks [cutPair.flatten] = .ok events := by
  have hfits : Fits 32 .start [] cutPair := by unfold Fits; decide +kernel
  obtain ⟨frames, rest, frames', rest', hcut, hone, hbytes, -, hglue, hevents⟩ :=
    framing_of_chunks 32 cutPair hfits
  have hwhole : splitChunks (.new 32) [cutPair.flatten] =
      .ok ([ascii "data: a\r\n\r\n", ascii "data: b\r\r"], ascii "id: 7") := by decide +kernel
  obtain ⟨rfl, rfl⟩ : frames' = [ascii "data: a\r\n\r\n", ascii "data: b\r\r"] ∧
      rest' = ascii "id: 7" := by
    simpa using hone.symm.trans hwhole
  have hbom : ([ascii "data: a\r\n\r\n", ascii "data: b\r\r"] ++ [ascii "id: 7"]).IsChain
      fun f g => ¬BomAfterPair f g := by
    unfold BomAfterPair
    decide +kernel
  exact ⟨hfits, frames, rest, hcut, hbytes, hglue, (hevents hbom).2⟩

/-- The line feed of a pair that a chunk ends in the middle of belongs to another frame. -/
theorem frames_of_cut_pair :
    ¬∀ (max : Nat) (chunks : List Bytes), Fits max .start [] chunks →
      splitChunks (.new max) chunks = splitChunks (.new max) [chunks.flatten] := by
  intro h
  have hfits : Fits 32 .start [] cutPair := by unfold Fits; decide +kernel
  have hdiffer : splitChunks (.new 32) cutPair ≠ splitChunks (.new 32) [cutPair.flatten] := by
    decide +kernel
  exact hdiffer (h 32 cutPair hfits)

end Sse
end Aisix
