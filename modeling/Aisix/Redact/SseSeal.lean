import Aisix.Redact.SseFrames
import Mathlib.Data.List.Chain

/-!
# Aisix.Redact.SseSeal

Sealing a buffered event stream, so that every frame of it can be read: the fragment at its end is
completed or dropped, and then the frames nothing can read are cut out. `sealed_iff` says for which
buffers the result is what it is meant to be: a cut may bring a carriage return and a line feed
together that were apart, or leave the buffer ending as only the first of the two passes would have
mended.
-/

namespace Aisix
namespace Redact

open Json Sse

inductive SseTailSeal where
  | terminated
  | completed (padded : Nat)
  | dropped (dropped : Nat)
  deriving DecidableEq, Repr

structure BufferedSseSeal where
  tail : SseTailSeal
  excised : List (List Char)
  excisedBytes : Nat
  deriving DecidableEq, Repr

/-- What of its terminator a fragment still lacks, in the style of the frames before it. -/
def missingTerminator (before frag : Sse.Bytes) : Sse.Bytes :=
  let crlfStream := [CR, LF, CR, LF].isSuffixOf before
  let crStream := [CR, CR].isSuffixOf before
  if [CR, LF].isSuffixOf frag then [CR, LF]
  else if [CR].isSuffixOf frag && crlfStream then [LF, CR, LF]
  else if [CR].isSuffixOf frag then [CR]
  else if [LF].isSuffixOf frag then [LF]
  else if crlfStream then [CR, LF, CR, LF]
  else if crStream then [CR, CR]
  else [LF, LF]

section Seal

variable (parse : List Char → Option Value)

def sealSseTail (buf : Sse.Bytes) : SseTailSeal × Sse.Bytes :=
  let stop := lastFrameEnd buf
  if stop = buf.length then
    if [CR, LF, CR].isSuffixOf buf then (.completed 1, buf ++ [LF]) else (.terminated, buf)
  else if (framePayload (buf.drop stop)).all (payloadScannable parse) then
    let pad := missingTerminator (buf.take stop) (buf.drop stop)
    (.completed pad.length, buf ++ pad)
  else (.dropped (buf.length - stop), buf.take stop)

def unscannable (frame : Sse.Bytes) : Bool :=
  (framePayload frame).any fun p => !payloadScannable parse p

/-- The payload of a frame that is cut out. -/
def excisedPayload (frame : Sse.Bytes) : Option (List Char) :=
  (framePayload frame).filter fun p => !payloadScannable parse p

def exciseUnscannableFrames (buf : Sse.Bytes) : (List (List Char) × Nat) × Sse.Bytes :=
  let frames := (terminated buf).1
  if frames.any fun f => unscannable parse f.1 then
    let out := frames.filter fun f => unscannable parse f.1
    let kept := frames.filter fun f => !unscannable parse f.1
    ((frames.filterMap fun f => excisedPayload parse f.1,
      (out.map fun f => f.1.length + f.2.length).sum), (kept.map fun f => f.1 ++ f.2).flatten ++
      (terminated buf).2)
  else (([], 0), buf)

def sealBufferedSse (buf : Sse.Bytes) : BufferedSseSeal × Sse.Bytes :=
  let tail := sealSseTail parse buf
  let cut := exciseUnscannableFrames parse tail.2
  (⟨tail.1, cut.1.1, cut.1.2⟩, cut.2)

def readable (frame : Sse.Bytes) : Bool := !unscannable parse frame

/-! ### What sealing is for -/

/-- The frames, the last of which may have got the line ends it lacked, when it is the last of the
buffer. -/
inductive Completes (last : Option Sse.Bytes) : List Sse.Bytes → List Sse.Bytes → Prop where
  | same (fs : List Sse.Bytes) : Completes last fs fs
  | last (init : List Sse.Bytes) (f ends : Sse.Bytes) (hlast : last = some f)
      (hends : ∀ b ∈ ends, b = CR ∨ b = LF) :
    Completes last (init ++ [f]) (init ++ [f ++ ends])

/-- What the sealed buffer of `buf` is meant to be. -/
structure Sealed (buf : Sse.Bytes) : Prop where
  boundary : lastFrameEnd (sealBufferedSse parse buf).2 = (sealBufferedSse parse buf).2.length
  scannable : ∀ f ∈ framesOf (sealBufferedSse parse buf).2, readable parse f = true
  frames : Completes (framesOf buf).getLast? ((framesOf buf).filter (readable parse))
    (framesOf (sealBufferedSse parse buf).2)
  excised : (sealBufferedSse parse buf).1.excised = (terminated buf).1.filterMap fun f =>
    excisedPayload parse f.1
  settled :
    sealBufferedSse parse (sealBufferedSse parse buf).2 =
    (⟨.terminated, [], 0⟩, (sealBufferedSse parse buf).2)
  bytes : (splitSseFrames parse (sealBufferedSse parse buf).2).map (fun f => f.raw ++ f.term) =
    framesOf (sealBufferedSse parse buf).2
  payloads :
    (splitSseFrames parse (sealBufferedSse parse buf).2).filterMap (fun f => framePayload f.raw) =
    sseFramePayloads (sealBufferedSse parse buf).2

/-- What is cut out leaves its neighbours as they are: no frame that ends in a carriage return
stands before a lone line feed, and what is kept ends in `\r\n\r` only where the buffer does, on a
frame that is kept. -/
structure Undisturbed (buf : Sse.Bytes) : Prop where
  apart : ((framesOf buf).filter (readable parse)).IsChain Apart
  settled : [CR, LF, CR] <:+ ((framesOf buf).filter (readable parse)).flatten →
    [CR, LF, CR] <:+ buf ∧ ∀ f, (framesOf buf).getLast? = some f → readable parse f = true

end Seal

section

variable {parse : List Char → Option Value} {buf f r : Sse.Bytes} {fs : List Sse.Bytes}

theorem unscannable_append (f : Sse.Bytes) {ends : Sse.Bytes} (h : ∀ b ∈ ends, b = CR ∨ b = LF) :
    unscannable parse (f ++ ends) = unscannable parse f := by
  unfold unscannable
  rw [framePayload_append f h]

theorem readable_append (f : Sse.Bytes) {ends : Sse.Bytes} (h : ∀ b ∈ ends, b = CR ∨ b = LF) :
    readable parse (f ++ ends) = readable parse f := by
  unfold readable
  rw [unscannable_append f h]

theorem excisedPayload_append (f : Sse.Bytes) {ends : Sse.Bytes} (h : ∀ b ∈ ends, b = CR ∨ b = LF) :
    excisedPayload parse (f ++ ends) = excisedPayload parse f := by
  unfold excisedPayload
  rw [framePayload_append f h]

theorem excisedPayload_of_readable (h : readable parse f = true) :
    excisedPayload parse f = none := by
  unfold readable unscannable at h
  unfold excisedPayload
  cases hpayload : framePayload f with
  | none => rfl
  | some p =>
    rw [hpayload, Option.any_some, Bool.not_not] at h
    rw [Option.filter_some, h]
    rfl

theorem readable_eq_all (f : Sse.Bytes) :
    readable parse f = (framePayload f).all (payloadScannable parse) := by
  unfold readable unscannable
  cases framePayload f with
  | none => rfl
  | some p => exact Bool.not_not _

theorem lineEnd_of_terminated {p : Sse.Bytes × Sse.Bytes} (h : p ∈ (terminated buf).1) :
    ∀ b ∈ p.2, b = CR ∨ b = LF :=
  lineEnd_of_separator ((terminated_eq buf).2.2 p h)

theorem excise_bytes (h : cut .start [] buf = (fs, [])) :
    (exciseUnscannableFrames parse buf).2 = (fs.filter (readable parse)).flatten := by
  obtain ⟨hframes, hrest, -⟩ := terminated_eq buf
  rw [h] at hframes hrest
  dsimp only at hframes hrest
  have hflat := flatten_cut .start [] buf
  rw [h, flatten_pieces, List.append_nil, List.nil_append] at hflat
  dsimp only at hflat
  unfold exciseUnscannableFrames
  dsimp only
  split
  · dsimp only
    rw [hrest, List.append_nil, ← hframes, List.filter_map]
    congr 2
    refine List.filter_congr ?_
    intro p hp
    exact (readable_append p.1 (lineEnd_of_terminated hp)).symm
  · next hnone =>
    have hall : fs.filter (readable parse) = fs := by
      rw [List.filter_eq_self, ← hframes]
      intro f hf
      obtain ⟨p, hp, rfl⟩ := List.mem_map.mp hf
      have hp' := List.any_eq_false.mp (Bool.eq_false_iff.mpr hnone) p hp
      rw [readable_append p.1 (lineEnd_of_terminated hp)]
      exact Bool.not_eq_true' _ ▸ Bool.eq_false_iff.mpr hp'
    rw [hall, hflat]

theorem excise_excised (buf : Sse.Bytes) : (exciseUnscannableFrames parse buf).1.1 =
    (cut .start [] buf).1.filterMap (excisedPayload parse) := by
  obtain ⟨hframes, -, -⟩ := terminated_eq buf
  have hcontent : (terminated buf).1.filterMap (fun p => excisedPayload parse p.1) =
      (cut .start [] buf).1.filterMap (excisedPayload parse) := by
    rw [← hframes, List.filterMap_map]
    refine List.filterMap_congr ?_
    intro p hp
    exact (excisedPayload_append p.1 (lineEnd_of_terminated hp)).symm
  unfold exciseUnscannableFrames
  dsimp only
  split
  · exact hcontent
  · next hnone =>
    rw [← hcontent]
    symm
    rw [List.filterMap_eq_nil_iff]
    intro p hp
    have hp' := List.any_eq_false.mp (Bool.eq_false_iff.mpr hnone) p hp
    exact excisedPayload_of_readable (Bool.not_eq_true' _ ▸ Bool.eq_false_iff.mpr hp')

theorem excise_of_readable (h : ∀ f ∈ (cut .start [] buf).1, readable parse f = true) :
    exciseUnscannableFrames parse buf = (([], 0), buf) := by
  obtain ⟨hframes, -, -⟩ := terminated_eq buf
  unfold exciseUnscannableFrames
  refine if_neg ?_
  rw [Bool.not_eq_true, List.any_eq_false]
  intro p hp
  have hread := h (p.1 ++ p.2) (hframes ▸ List.mem_map.mpr ⟨p, hp, rfl⟩)
  rw [readable_append p.1 (lineEnd_of_terminated hp)] at hread
  exact Bool.eq_false_iff.mp (Bool.not_eq_true' _ ▸ hread)

/-! ### The fragment at the end -/

theorem suffix_concat_iff {α : Type} {b c : α} {x : List α} : [c] <:+ x ++ [b] ↔ c = b := by
  constructor
  · rintro ⟨t, ht⟩
    exact List.singleton_injective (List.append_inj' ht rfl).2
  · rintro rfl
    exact ⟨x, rfl⟩

theorem not_suffix_LF (y : Sse.Bytes) : ¬[CR, LF, CR] <:+ y ++ [LF] := by
  rintro ⟨t, ht⟩
  have hlast : (t ++ [CR, LF] ++ [CR]) = y ++ [LF] := by
    rw [List.append_assoc]
    exact ht
  exact CR_ne_LF (List.singleton_injective (List.append_inj' hlast rfl).2)

theorem not_suffix_CR_CR (y : Sse.Bytes) : ¬[CR, LF, CR] <:+ y ++ [CR, CR] := by
  rintro ⟨t, ht⟩
  have hlast : (t ++ [CR] ++ [LF, CR]) = y ++ [CR, CR] := by
    rw [List.append_assoc]
    exact ht
  exact LF_ne_CR (List.cons.inj (List.append_inj' hlast rfl).2).1

theorem missingTerminator_cases (before x : Sse.Bytes) (b : UInt8) :
    (b = CR ∧
      (missingTerminator before (x ++ [b]) = [LF, CR, LF] ∨
      missingTerminator before (x ++ [b]) = [CR])) ∨
      (b = LF ∧
        (missingTerminator before (x ++ [b]) = [CR, LF] ∨
        missingTerminator before (x ++ [b]) = [LF])) ∨
      (b ≠ CR ∧ b ≠ LF ∧ (missingTerminator before (x ++ [b]) = [CR, LF, CR, LF] ∨
        missingTerminator before (x ++ [b]) = [CR, CR] ∨
          missingTerminator before (x ++ [b]) = [LF, LF])) := by
  have hpair : [CR, LF].isSuffixOf (x ++ [b]) = true → b = LF := by
    intro h
    obtain ⟨t, ht⟩ := List.isSuffixOf_iff_suffix.mp h
    have hlast : t ++ [CR] ++ [LF] = x ++ [b] := by
      rw [List.append_assoc]
      exact ht
    exact (List.singleton_injective (List.append_inj' hlast rfl).2).symm
  have hone : ∀ c : UInt8, [c].isSuffixOf (x ++ [b]) = decide (c = b) := by
    intro c
    rw [Bool.eq_iff_iff, List.isSuffixOf_iff_suffix, suffix_concat_iff, decide_eq_true_iff]
  unfold missingTerminator
  dsimp only
  rw [hone, hone]
  by_cases hcr : b = CR
  · subst hcr
    have hnot : [CR, LF].isSuffixOf (x ++ [CR]) = false :=
      Bool.eq_false_iff.mpr fun h => CR_ne_LF (hpair h)
    left
    rw [hnot, decide_eq_true rfl]
    cases [CR, LF, CR, LF].isSuffixOf before with
    | true => exact ⟨rfl, .inl rfl⟩
    | false => exact ⟨rfl, .inr rfl⟩
  · by_cases hlf : b = LF
    · subst hlf
      right
      left
      rw [decide_eq_false CR_ne_LF, decide_eq_true rfl]
      cases [CR, LF].isSuffixOf (x ++ [LF]) with
      | true => exact ⟨rfl, .inl rfl⟩
      | false => exact ⟨rfl, .inr rfl⟩
    · have hnot : [CR, LF].isSuffixOf (x ++ [b]) = false :=
        Bool.eq_false_iff.mpr fun h => hlf (hpair h)
      right
      right
      rw [hnot, decide_eq_false (Ne.symm hcr), decide_eq_false (Ne.symm hlf)]
      refine ⟨hcr, hlf, ?_⟩
      cases [CR, LF, CR, LF].isSuffixOf before with
      | true => exact .inl rfl
      | false =>
        cases [CR, CR].isSuffixOf before with
        | true => exact .inr (.inl rfl)
        | false => exact .inr (.inr rfl)

theorem run_concat (x : Sse.Bytes) (b : UInt8) : LineState.start.run (x ++ [b]) = .after b := by
  rw [LineState.run_append, LineState.run_cons, LineState.run_nil]

theorem whole_completed {before : Sse.Bytes} (h : cut .start [] r = ([], r)) (hr : r ≠ []) :
    Whole (r ++ missingTerminator before r) := by
  rcases List.eq_nil_or_concat' r with rfl | ⟨x, b, rfl⟩
  · exact absurd rfl hr
  unfold Whole
  rw [cut_append_of_nil (by rw [h]), run_concat, List.nil_append]
  rcases missingTerminator_cases before x b with ⟨rfl, hpad | hpad⟩ | ⟨rfl, hpad | hpad⟩ |
    ⟨hcr, hlf, hpad | hpad | hpad⟩
  all_goals rw [hpad]
  · rw [LineState.after_CR, cut_step LineState.afterCr_ends_LF, LineState.after_LF,
      cut_crlf rfl, cut_nil, List.append_assoc]
    rfl
  · rw [LineState.after_CR]
    rfl
  · rw [LineState.after_LF, cut_crlf rfl, cut_nil]
  · rw [LineState.after_LF]
    rfl
  all_goals
    have hinside : LineState.after b = .inside := by
      unfold LineState.after
      rw [if_neg hcr, if_neg hlf]
    rw [hinside, cut_step rfl]
  · rw [LineState.after_CR, cut_step LineState.afterCr_ends_LF, LineState.after_LF,
      cut_crlf rfl, cut_nil, List.append_assoc, List.append_assoc]
    rfl
  · rw [LineState.after_CR, List.append_cons _ CR [CR]]
    rfl
  · rw [LineState.after_LF, List.append_cons _ LF [LF]]
    rfl

theorem lineEnd_of_missing {before : Sse.Bytes} (hr : r ≠ []) :
    ∀ b ∈ missingTerminator before r, b = CR ∨ b = LF := by
  have hlineEnd : ∀ pad : Sse.Bytes, pad.all isLineEnd = true → ∀ b ∈ pad, b = CR ∨ b = LF := by
    intro pad hall b hb
    have hends := List.all_eq_true.mp hall b hb
    unfold isLineEnd at hends
    rwa [Bool.or_eq_true, beq_iff_eq, beq_iff_eq] at hends
  rcases List.eq_nil_or_concat' r with rfl | ⟨x, b, rfl⟩
  · exact absurd rfl hr
  refine hlineEnd _ ?_
  rcases missingTerminator_cases before x b with ⟨-, hpad | hpad⟩ | ⟨-, hpad | hpad⟩ |
    ⟨-, -, hpad | hpad | hpad⟩
  all_goals
    rw [hpad]
    decide

theorem settled_completed {before : Sse.Bytes} (hr : r ≠ []) (x : Sse.Bytes) :
    ¬[CR, LF, CR] <:+ x ++ (r ++ missingTerminator before r) := by
  have hLF : ∀ front : Sse.Bytes, ¬[CR, LF, CR] <:+ x ++ (r ++ (front ++ [LF])) := by
    intro front
    rw [← List.append_assoc, ← List.append_assoc]
    exact not_suffix_LF _
  rcases List.eq_nil_or_concat' r with rfl | ⟨y, b, rfl⟩
  · exact absurd rfl hr
  rcases missingTerminator_cases before y b with ⟨rfl, hpad | hpad⟩ | ⟨rfl, hpad | hpad⟩ |
    ⟨hcr, hlf, hpad | hpad | hpad⟩
  all_goals rw [hpad]
  · exact hLF [LF, CR]
  · rw [List.append_assoc, ← List.append_assoc]
    exact not_suffix_CR_CR _
  · exact hLF [CR]
  · exact hLF []
  · exact hLF [CR, LF, CR]
  · rw [← List.append_assoc]
    exact not_suffix_CR_CR _
  · exact hLF [LF]

theorem settled_rest (h : cut .start [] r = ([], r)) (hr : r ≠ []) (x : Sse.Bytes) :
    ¬[CR, LF, CR] <:+ x ++ r := by
  rintro ⟨t, ht⟩
  rcases List.eq_nil_or_concat' r with rfl | ⟨y, b, rfl⟩
  · exact hr rfl
  have hsplit : t ++ [CR, LF] ++ [CR] = x ++ y ++ [b] := by
    rw [List.append_assoc, List.append_assoc]
    exact ht
  obtain ⟨hfront, hlast⟩ := List.append_inj' hsplit rfl
  obtain rfl : CR = b := List.singleton_injective hlast
  have hends : (LineState.start.run y).ends CR = false :=
    ends_of_nil (t := []) (show (cut .start [] (y ++ [CR])).1 = [] by rw [h])
  rcases List.eq_nil_or_concat' y with rfl | ⟨z, c, rfl⟩
  · cases hends
  · have hpair : t ++ [CR] ++ [LF] = x ++ z ++ [c] := by
      rw [List.append_assoc, List.append_assoc]
      exact hfront
    obtain rfl : LF = c := List.singleton_injective (List.append_inj' hpair rfl).2
    rw [run_concat] at hends
    cases hends

/-- What the first pass leaves of the frames. -/
inductive TailSealed (parse : List Char → Option Value) (buf : Sse.Bytes) :
    List Sse.Bytes → Prop where
  | terminated (hbuf : ¬[CR, LF, CR] <:+ buf) : TailSealed parse buf (framesOf buf)
  | completed (init : List Sse.Bytes) (last ends : Sse.Bytes)
      (hframes : framesOf buf = init ++ [last]) (hne : last ≠ [])
    (hends : ∀ b ∈ ends, b = CR ∨ b = LF)
    (hlast : [CR, LF, CR] <:+ buf ∨ readable parse last = true ∧ ∀ x, ¬[CR, LF, CR] <:+ x ++ last)
    (hsettled : ∀ x, ¬[CR, LF, CR] <:+ x ++ (last ++ ends)) :
      TailSealed parse buf (init ++ [last ++ ends])
  | dropped (init : List Sse.Bytes) (last : Sse.Bytes) (hframes : framesOf buf = init ++ [last])
    (hlast : readable parse last = false) : TailSealed parse buf init

theorem flatten_of_cut (h : cut .start [] buf = (fs, r)) : buf = fs.flatten ++ r := by
  have hflat := flatten_cut .start [] buf
  rw [h, flatten_pieces, List.nil_append] at hflat
  exact hflat.symm

theorem sealSseTail_of_nil (h : cut .start [] buf = (fs, [])) :
    sealSseTail parse buf =
      if [CR, LF, CR].isSuffixOf buf then (.completed 1, buf ++ [LF]) else (.terminated, buf) := by
  have hstop : lastFrameEnd buf = buf.length := by
    rw [lastFrameEnd_eq h]
    conv => rhs; rw [flatten_of_cut h, List.append_nil]
  unfold sealSseTail
  exact if_pos hstop

theorem sealSseTail_of_ne (h : cut .start [] buf = (fs, r)) (hr : r ≠ []) :
    sealSseTail parse buf =
      if readable parse r then
        (.completed (missingTerminator fs.flatten r).length, buf ++ missingTerminator fs.flatten r)
      else (.dropped r.length, fs.flatten) := by
  have hbuf := flatten_of_cut h
  have hlen : buf.length = fs.flatten.length + r.length := by
    rw [hbuf, List.length_append]
  have hpos : 0 < r.length := List.length_pos_of_ne_nil hr
  have hdrop : buf.drop fs.flatten.length = r := by
    rw [hbuf, List.drop_left]
  have htake : buf.take fs.flatten.length = fs.flatten := by
    rw [hbuf, List.take_left]
  unfold sealSseTail
  rw [lastFrameEnd_eq h]
  dsimp only
  rw [if_neg (by omega), hdrop, htake, ← readable_eq_all, hlen, Nat.add_sub_cancel_left]

theorem tailSealed (buf : Sse.Bytes) :
    ∃ fs', cut .start [] (sealSseTail parse buf).2 = (fs', []) ∧ TailSealed parse buf fs' ∧
      fs'.filterMap (excisedPayload parse) = (cut .start [] buf).1.filterMap
        (excisedPayload parse) := by
  cases hcut : cut .start [] buf with
  | mk fs r =>
    have hbuf := flatten_of_cut hcut
    have hframes := framesOf_eq hcut
    by_cases hr : r = []
    · subst hr
      rw [List.isEmpty_nil, if_pos rfl, List.append_nil] at hframes
      rw [List.append_nil] at hbuf
      rw [sealSseTail_of_nil hcut]
      by_cases hsuffix : [CR, LF, CR] <:+ buf
      · rw [if_pos (List.isSuffixOf_iff_suffix.mpr hsuffix)]
        obtain ⟨t, ht⟩ := hsuffix
        rcases List.eq_nil_or_concat' fs with rfl | ⟨init, last, rfl⟩
        · rw [hbuf] at ht
          exact absurd (List.append_eq_nil_iff.mp ht).2 (List.cons_ne_nil _ _)
        have hwhole : Whole last := by
          refine whole_of_mem (s := buf) ?_
          rw [hcut]
          exact List.mem_append_right _ List.mem_cons_self
        have hcr : last.getLast? = some CR := by
          have hlast := congrArg List.getLast? ht
          rw [List.getLast?_append, hbuf, List.flatten_append, List.flatten_singleton,
            List.getLast?_append] at hlast
          obtain ⟨y, b, hyb⟩ := (List.eq_nil_or_concat' last).resolve_left hwhole.ne_nil
          rw [hyb, List.getLast?_concat, Option.some_or] at hlast
          rw [hyb, List.getLast?_concat]
          exact hlast.symm
        have hends : ∀ b ∈ [LF], b = CR ∨ b = LF := fun b hb => .inr (List.mem_singleton.mp hb)
        refine ⟨init ++ [last ++ [LF]], cut_concat_LF hcut hcr, ?_, ?_⟩
        · refine .completed init last [LF] hframes hwhole.ne_nil hends (.inl ⟨t, ht⟩) ?_
          intro x
          rw [← List.append_assoc]
          exact not_suffix_LF _
        · rw [List.filterMap_append, List.filterMap_append]
          congr 1
          rw [List.filterMap_cons, List.filterMap_cons, excisedPayload_append last hends]
      · rw [if_neg (fun h => hsuffix (List.isSuffixOf_iff_suffix.mp h))]
        refine ⟨fs, hcut, ?_, rfl⟩
        rw [← hframes]
        exact .terminated hsuffix
    · have hrest := cut_rest hcut
      have hempty : r.isEmpty = false := List.isEmpty_eq_false_iff.mpr hr
      rw [hempty, if_neg Bool.false_ne_true] at hframes
      rw [sealSseTail_of_ne hcut hr]
      split
      · next hread =>
        have hwhole : Whole (r ++ missingTerminator fs.flatten r) := whole_completed hrest hr
        unfold Whole at hwhole
        refine ⟨fs ++ [r ++ missingTerminator fs.flatten r], ?_, ?_, ?_⟩
        · rw [cut_append_rest hcut hr, hwhole]
        · exact .completed fs r _ hframes hr (lineEnd_of_missing hr)
            (.inr ⟨hread, settled_rest hrest hr⟩) (settled_completed hr)
        · rw [List.filterMap_append, List.filterMap_cons,
            excisedPayload_append r (lineEnd_of_missing hr), excisedPayload_of_readable hread]
          exact List.append_nil _
      · next hread =>
        refine ⟨fs, ?_, .dropped fs r hframes (Bool.eq_false_iff.mpr hread), rfl⟩
        exact (cut_flatten fun f hf => whole_of_mem (s := buf) (by rw [hcut]; exact hf)).trans (by
          rw [runTogether_eq_self (isChain_of_cut hcut)])

theorem filter_concat_of_readable {init : List Sse.Bytes} (h : readable parse f = true) :
    (init ++ [f]).filter (readable parse) = init.filter (readable parse) ++ [f] := by
  rw [List.filter_append, List.filter_cons_of_pos h, List.filter_nil]

theorem filter_concat_of_not {init : List Sse.Bytes} (h : readable parse f = false) :
    (init ++ [f]).filter (readable parse) = init.filter (readable parse) := by
  have hnot : ¬readable parse f = true := Bool.eq_false_iff.mp h
  rw [List.filter_append, List.filter_cons_of_neg hnot, List.filter_nil, List.append_nil]

theorem TailSealed.completes (h : TailSealed parse buf fs) :
    Completes (framesOf buf).getLast? ((framesOf buf).filter (readable parse))
      (fs.filter (readable parse)) := by
  cases h with
  | terminated hbuf => exact .same _
  | completed init last ends hframes hne hends hlast hsettled =>
    rw [hframes]
    cases hread : readable parse last with
    | true =>
      rw [filter_concat_of_readable hread,
        filter_concat_of_readable ((readable_append last hends).trans hread)]
      exact .last _ last ends List.getLast?_concat hends
    | false =>
      rw [filter_concat_of_not hread,
        filter_concat_of_not ((readable_append last hends).trans hread)]
      exact .same _
  | dropped init last hframes hlast =>
    rw [hframes, filter_concat_of_not hlast]
    exact .same _

theorem TailSealed.isChain_iff (h : TailSealed parse buf fs) :
    (fs.filter (readable parse)).IsChain Apart ↔
    ((framesOf buf).filter (readable parse)).IsChain Apart := by
  cases h with
  | terminated hbuf => exact Iff.rfl
  | completed init last ends hframes hne hends hlast hsettled =>
    rw [hframes]
    cases hread : readable parse last with
    | true =>
      rw [filter_concat_of_readable hread,
        filter_concat_of_readable ((readable_append last hends).trans hread), List.isChain_append,
        List.isChain_append]
      have hhead : (last ++ ends).head? = last.head? := List.head?_append_of_ne_nil _ hne
      have hapart : ∀ x, Apart x (last ++ ends) ↔ Apart x last := by
        intro x
        unfold Apart
        rw [hhead]
      simp only [List.head?_cons, Option.mem_some_iff, forall_eq', hapart, List.isChain_singleton]
    | false =>
      rw [filter_concat_of_not hread,
        filter_concat_of_not ((readable_append last hends).trans hread)]
  | dropped init last hframes hlast =>
    rw [hframes, filter_concat_of_not hlast]

theorem TailSealed.settled_iff (h : TailSealed parse buf fs) :
    ¬[CR, LF, CR] <:+ (fs.filter (readable parse)).flatten ↔
      ([CR, LF, CR] <:+ ((framesOf buf).filter (readable parse)).flatten →
        [CR, LF, CR] <:+ buf ∧ ∀ f, (framesOf buf).getLast? = some f →
        readable parse f = true) := by
  cases h with
  | terminated hbuf =>
    constructor
    · intro hnot hsuffix
      exact absurd hsuffix hnot
    · intro himp hsuffix
      exact hbuf (himp hsuffix).1
  | completed init last ends hframes hne hends hlast hsettled =>
    rw [hframes, List.getLast?_concat]
    cases hread : readable parse last with
    | true =>
      rw [filter_concat_of_readable hread,
        filter_concat_of_readable ((readable_append last hends).trans hread), List.flatten_append,
        List.flatten_append, List.flatten_singleton, List.flatten_singleton]
      constructor
      · intro _ hsuffix
        refine ⟨?_, ?_⟩
        · exact hlast.resolve_right fun h => h.2 _ hsuffix
        · intro f hf
          obtain rfl := Option.some.inj hf
          exact hread
      · intro _
        exact hsettled _
    | false =>
      rw [filter_concat_of_not hread,
        filter_concat_of_not ((readable_append last hends).trans hread)]
      constructor
      · intro hnot hsuffix
        exact absurd hsuffix hnot
      · intro himp hsuffix
        exact Bool.false_ne_true (hread.symm.trans ((himp hsuffix).2 last rfl))
  | dropped init last hframes hlast =>
    rw [hframes, List.getLast?_concat, filter_concat_of_not hlast]
    constructor
    · intro hnot hsuffix
      exact absurd hsuffix hnot
    · intro himp hsuffix
      exact Bool.false_ne_true (hlast.symm.trans ((himp hsuffix).2 last rfl))

/-! ### The sealed buffer -/

theorem readable_runTogether (h : ∀ f ∈ fs, readable parse f = true) :
    ∀ f ∈ runTogether fs, readable parse f = true := by
  induction fs using runTogether.induct with
  | case1 => exact h
  | case2 f => exact h
  | case3 f g fs hpair ih =>
    rw [runTogether, if_pos hpair]
    obtain ⟨hf, hrest⟩ := List.forall_mem_cons.mp h
    refine List.forall_mem_cons.mpr ⟨?_, ih (List.forall_mem_cons.mp hrest).2⟩
    rw [readable_append f fun b hb => .inr (List.mem_singleton.mp hb), hf]
  | case4 f g fs hpair ih =>
    rw [runTogether, if_neg hpair]
    obtain ⟨hf, hrest⟩ := List.forall_mem_cons.mp h
    exact List.forall_mem_cons.mpr ⟨hf, ih hrest⟩

theorem sealed_cut (buf : Sse.Bytes) :
    ∃ fs, TailSealed parse buf fs ∧
      (sealBufferedSse parse buf).2 = (fs.filter (readable parse)).flatten ∧ cut .start []
      (sealBufferedSse parse buf).2 = (runTogether (fs.filter (readable parse)), []) ∧
      (sealBufferedSse parse buf).1.excised = (terminated buf).1.filterMap fun f =>
      excisedPayload parse f.1 := by
  obtain ⟨fs, hcut, htail, hexcised⟩ := @tailSealed parse buf
  have hbytes : (sealBufferedSse parse buf).2 = (fs.filter (readable parse)).flatten :=
    excise_bytes hcut
  refine ⟨fs, htail, hbytes, ?_, ?_⟩
  · rw [hbytes]
    refine cut_flatten ?_
    intro f hf
    refine whole_of_mem (s := (sealSseTail parse buf).2) ?_
    rw [hcut]
    exact (List.mem_filter.mp hf).1
  · have hall : (sealBufferedSse parse buf).1.excised = fs.filterMap (excisedPayload parse) := by
      refine (excise_excised (sealSseTail parse buf).2).trans ?_
      rw [hcut]
    rw [hall, hexcised, ← (terminated_eq buf).1, List.filterMap_map]
    refine List.filterMap_congr ?_
    intro p hp
    exact excisedPayload_append p.1 (lineEnd_of_terminated hp)

theorem Completes.length {last : Option Sse.Bytes} {gs : List Sse.Bytes}
    (h : Completes last fs gs) : gs.length = fs.length := by
  cases h with
  | same => rfl
  | last init f ends =>
    rw [List.length_append, List.length_append, List.length_singleton, List.length_singleton]

/-- A buffer of readable frames is left alone, unless it ends as half a `\r\n\r\n`. -/
theorem seal_of_readable (h : cut .start [] buf = (fs, []))
    (hread : ∀ f ∈ fs, readable parse f = true) (hsuffix : ¬[CR, LF, CR] <:+ buf) :
    sealBufferedSse parse buf = (⟨.terminated, [], 0⟩, buf) := by
  have htail : sealSseTail parse buf = (.terminated, buf) := by
    rw [sealSseTail_of_nil h, if_neg fun hs => hsuffix (List.isSuffixOf_iff_suffix.mp hs)]
  have hnone : exciseUnscannableFrames parse buf = (([], 0), buf) := by
    refine excise_of_readable ?_
    rw [h]
    exact hread
  unfold sealBufferedSse
  rw [htail]
  dsimp only
  rw [hnone]

/-- **The sealed buffer is what it is meant to be if and only if what is cut out leaves its
neighbours as they are.** -/
theorem sealed_iff (parse : List Char → Option Value) (buf : Sse.Bytes) :
    Sealed parse buf ↔ Undisturbed parse buf := by
  obtain ⟨fs, htail, hbytes, hcut, hexcised⟩ := @sealed_cut parse buf
  have hframes :
      framesOf (sealBufferedSse parse buf).2 = runTogether (fs.filter (readable parse)) := by
    rw [framesOf_eq hcut]
    exact List.append_nil _
  have hread : ∀ f ∈ runTogether (fs.filter (readable parse)), readable parse f = true :=
    readable_runTogether fun f hf => (List.mem_filter.mp hf).2
  constructor
  · intro h
    constructor
    · -- run together, there would be fewer frames than were kept
      have hlength := h.frames.length
      rw [hframes, ← htail.completes.length] at hlength
      exact htail.isChain_iff.mp (isChain_of_length hlength)
    · refine htail.settled_iff.mp ?_
      intro hsuffix
      have hsettled := congrArg (fun r => r.1.tail) h.settled
      have hpos : [CR, LF, CR].isSuffixOf (sealBufferedSse parse buf).2 = true := by
        rw [hbytes]
        exact List.isSuffixOf_iff_suffix.mpr hsuffix
      have htailOnce : (sealSseTail parse (sealBufferedSse parse buf).2).1 = .completed 1 := by
        rw [sealSseTail_of_nil hcut, if_pos hpos]
      exact absurd (htailOnce.symm.trans hsettled) SseTailSeal.noConfusion
  · intro h
    have hchain := htail.isChain_iff.mpr h.apart
    have hsettled := htail.settled_iff.mpr h.settled
    rw [← hbytes] at hsettled
    refine ⟨?_, ?_, ?_, hexcised, seal_of_readable hcut hread hsettled,
      splitSseFrames_bytes parse _, splitSseFrames_payloads parse _⟩
    · rw [lastFrameEnd_eq hcut]
      conv => rhs; rw [flatten_of_cut hcut, List.append_nil]
    · rw [hframes]
      exact hread
    · rw [hframes, runTogether_eq_self hchain]
      exact htail.completes

/-- `data: {}\r\n\r` and an event of plain text: the text is cut out, and a second sealing completes
what the first did not. -/
theorem seal_not_settled :
    ¬∀ (parse : List Char → Option Value) (buf : Sse.Bytes), Sealed parse buf := by
  intro h
  have hsettled := (h (fun t => if t = "{}".toList then some (.object []) else none)
    ("data: {}\r\n\rdata: x\n\n".toUTF8.data.toList)).settled
  have htail := congrArg (fun r => r.1.tail) hsettled
  revert htail
  decide

end

end Redact
end Aisix
