import Aisix.WindowScan.Channels
import Aisix.WindowScan.Later

/-!
# Aisix.WindowScan.Coverage

The relay under a window policy whose caps are never outgrown: whatever is released was scanned
first, up to the overlap that is kept (`Stands`), through every chunk and the end of the stream, and
so what a chain lets through was read by a scan first.
-/

namespace Aisix
namespace WindowScan

open ChoiceTexts SlidingTail

/-- The overlap each channel keeps. -/
def Window.keep (w : Window) : Nat := min w.overlapChars (w.sizeChars - 1)

namespace Relay

/-- What the buffers hold of the chunks read: the scans covered the chunks up to some point, and
each channel holds its tail from there with all that came since. -/
structure Reads (keep : Nat) (s : Relay) : Prop where
  covered :
    ∃ chunks, (s.windowScanned = true ∧ Covers keep chunks s.acts ∨
    s.windowScanned = false ∧ chunks = []) ∧
    ∀ key, ∃ since, channelText key s.read = channelText key chunks ++ since ∧
      s.windowBuf.textOf key = tail keep (channelText key chunks) ++ since
  calls : ∀ key, s.toolCallsBuf.textOf key = callText key s.read

/-- A relay that has not stopped. -/
structure Going (w : Window) (chunks : List ChatChunk) (s : Relay) : Prop where
  reads : s.Reads w.keep
  isPrefix : s.read <+: chunks
  below : ∀ i ∈ released s.acts ++ s.pending.map (·.1), i < s.read.length
  clean : Clean s.acts
  holds : s.capReleased = false
  fits : s.toolCallsOverflowed = false
  bounded : s.windowBuf.Bounded

/-- The invariant of the relay. -/
structure Stands (w : Window) (chunks : List ChatChunk) (s : Relay) : Prop where
  safe : Safe w.keep chunks s.acts
  ascending : (released s.acts ++ s.pending.map (·.1)).Pairwise (· < ·)
  going : s.errored = false → s.Going w chunks

/-! ### What is read -/

theorem collectCalls_eq {s : Relay} {es : List (Key × List Char × List Char)}
    (h : (s.collectCalls es).toolCallsOverflowed = false) :
    s.collectCalls es =
      { s with toolCallsBuf := s.toolCallsBuf.pushAll (es.flatMap callPushes) } := by
  induction es generalizing s with
  | nil => rfl
  | cons e es ih =>
    obtain ⟨key, name, args⟩ := e
    simp only [collectCalls] at h ⊢
    split at h
    · cases h
    · next hfits =>
      rw [if_neg hfits, ih h]
      rfl

theorem readChunk_eq {s : Relay} {chunk : ChatChunk} (hholds : s.capReleased = false)
    (h : (s.readChunk chunk).toolCallsOverflowed = false) :
    s.readChunk chunk = { s with
      read := s.read ++ [chunk]
      windowBuf := s.windowBuf.pushAll (chunkTexts chunk)
      toolCallsBuf := s.toolCallsBuf.pushAll ((callTexts chunk).flatMap callPushes) } := by
  simp only [readChunk, collect, hholds, Bool.false_eq_true, if_false] at h ⊢
  split at h
  · next hover => rw [hover] at h; cases h
  · next hfits =>
    rw [if_neg hfits]
    exact collectCalls_eq h

theorem Reads.readChunk {keep : Nat} {s : Relay} (h : s.Reads keep) {chunk : ChatChunk}
    (hholds : s.capReleased = false) (hfits : (s.readChunk chunk).toolCallsOverflowed = false) :
    (s.readChunk chunk).Reads keep := by
  rw [readChunk_eq hholds hfits]
  constructor
  · obtain ⟨chunks, hchunks, hsince⟩ := h.covered
    refine ⟨chunks, hchunks, fun key => ?_⟩
    obtain ⟨since, hread, hheld⟩ := hsince key
    refine ⟨since ++ channelText key [chunk], ?_, ?_⟩
    · rw [channelText_append, hread, List.append_assoc]
    · simp only [textOf_pushAll, hheld, channelText, List.flatMap_singleton, List.append_assoc]
  · intro key
    simp only [textOf_pushAll, h.calls key, callText_append]
    simp only [callText, List.flatMap_singleton]

/-! ### What a scan reads -/

theorem windowBuf_infix_scanText (s : Relay) (key : Key) :
    s.windowBuf.textOf key <:+: s.scanText := by
  refine (textOf_infix_joined s.windowBuf key).trans ?_
  simp only [scanText]
  split
  · exact List.infix_rfl
  · split
    · next hnil => rw [hnil]; exact List.nil_infix
    · exact (List.prefix_append _ _).isInfix

theorem toolCallsBuf_infix_scanText (s : Relay) (key : Key) :
    s.toolCallsBuf.textOf key <:+: s.scanText := by
  refine (textOf_infix_joined s.toolCallsBuf key).trans ?_
  simp only [scanText]
  split
  · next hnil => rw [hnil]; exact List.nil_infix
  · split
    · exact List.infix_rfl
    · exact ((List.suffix_cons _ _).trans (List.suffix_append _ _)).isInfix

theorem Reads.infix_cases {keep : Nat} {s : Relay} (h : s.Reads keep) {key : Key} {p : List Char}
    (hp : p <:+: channelText key s.read) (hlength : p.length ≤ keep + 1) :
    Scanned s.acts p ∨ p <:+: s.windowBuf.textOf key := by
  obtain ⟨chunks, hchunks, hsince⟩ := h.covered
  obtain ⟨since, hread, hheld⟩ := hsince key
  rw [hread] at hp
  rcases SlidingTail.infix_cases hp hlength with hp | hp
  · rcases hchunks with ⟨-, hcovers⟩ | ⟨-, rfl⟩
    · exact .inl (hcovers.channels key p hp hlength)
    · rw [List.infix_nil.mp hp]
      exact .inr List.nil_infix
  · exact .inr (hheld ▸ hp)

theorem Reads.covers_scan {keep : Nat} {s : Relay} (h : s.Reads keep) (verdict : Verdict) :
    Covers keep s.read (s.acts ++ [.scan s.scanText verdict]) where
  channels key p hp hlength := by
    rcases h.infix_cases hp hlength with hp | hp
    · exact hp.append _
    · exact ⟨s.scanText, verdict, by simp, hp.trans (s.windowBuf_infix_scanText key)⟩
  calls key := by
    rw [← h.calls key]
    exact ⟨s.scanText, verdict, by simp, s.toolCallsBuf_infix_scanText key⟩

theorem Reads.covers_of_scanText_nil {keep : Nat} {s : Relay} (h : s.Reads keep)
    (hnil : s.scanText = []) (hscanned : s.windowScanned = true) : Covers keep s.read s.acts := by
  have hsome : Scanned s.acts [] := by
    obtain ⟨chunks, hchunks, -⟩ := h.covered
    rcases hchunks with ⟨-, hcovers⟩ | ⟨hnone, -⟩
    · exact (hcovers.calls (toLex (0, 0))).within List.nil_infix
    · rw [hscanned] at hnone
      cases hnone
  constructor
  · intro key p hp hlength
    rcases h.infix_cases hp hlength with hp | hp
    · exact hp
    · have hempty := s.windowBuf_infix_scanText key
      rw [hnil, List.infix_nil] at hempty
      rw [hempty, List.infix_nil] at hp
      rwa [hp]
  · intro key
    have hempty := s.toolCallsBuf_infix_scanText key
    rw [hnil, List.infix_nil, h.calls key] at hempty
    rwa [hempty]

/-! ### One chunk -/

theorem take_start {chunks cs : List ChatChunk} (h : cs <+: chunks) {i : Nat} (hi : i < cs.length) :
    chunks.take (i + 1) <+: cs := by
  have htake : chunks.take (i + 1) <+: chunks := List.take_prefix _ _
  exact List.prefix_of_prefix_length_le htake h (by rw [List.length_take]; omega)

theorem Stands.readChunk {w : Window} {chunks : List ChatChunk} {s : Relay} (h : s.Stands w chunks)
    (hgoing : s.errored = false) {chunk : ChatChunk} (hread : s.read ++ [chunk] <+: chunks)
    (hfits : (s.readChunk chunk).toolCallsOverflowed = false) :
    (s.readChunk chunk).Stands w chunks := by
  have g := h.going hgoing
  have hreads := g.reads.readChunk g.holds hfits
  rw [readChunk_eq g.holds hfits] at hreads ⊢
  refine ⟨h.safe, h.ascending, fun _ => ?_⟩
  exact {
    reads := hreads
    isPrefix := hread
    below := fun i hi => by
      have hlt := g.below i hi
      simp only [List.length_append, List.length_singleton]
      omega
    clean := g.clean
    holds := g.holds
    fits := g.fits
    bounded := g.bounded.pushAll _ }

theorem Stands.pend {w : Window} {chunks : List ChatChunk} {s : Relay} (h : s.Stands w chunks)
    (c : Context) {position : Nat} (chunk : ChatChunk)
    (hnew : ∀ i ∈ released s.acts ++ s.pending.map (·.1), i < position)
    (hread : position < s.read.length) : (s.pend c position chunk).Stands w chunks where
  safe := h.safe
  ascending := by
    simp only [Relay.pend, List.map_append, ← List.append_assoc]
    exact List.pairwise_append.mpr ⟨h.ascending, by simp, by simpa using hnew⟩
  going hgoing := by
    have g := h.going hgoing
    exact { g with
      reads := ⟨g.reads.covered, g.reads.calls⟩
      below := fun i hi => by
        simp only [Relay.pend, List.map_append, ← List.append_assoc] at hi
        rcases List.mem_append.mp hi with hi | hi
        · exact g.below i hi
        · rw [List.map_singleton, List.mem_singleton] at hi
          rw [hi]
          exact hread }

theorem Stands.stop {w : Window} {chunks : List ChatChunk} {s : Relay} (h : s.Stands w chunks)
    (more : List Act) (hmore : released more = []) {t : Relay} (hacts : t.acts = s.acts ++ more)
    (hpending : t.pending = s.pending) (hstopped : t.errored = true) : t.Stands w chunks where
  safe := by
    rw [hacts]
    exact h.safe.quiet hmore
  ascending := by
    rw [hacts, hpending, released_append, hmore, List.append_nil]
    exact h.ascending
  going hgoing := by
    rw [hstopped] at hgoing
    cases hgoing

theorem Stands.scanned {w : Window} {chunks : List ChatChunk} {s : Relay} (h : s.Stands w chunks)
    (hgoing : s.errored = false) {verdict : Verdict} (hallow : verdict.isBlock = false) :
    Safe w.keep chunks ((s.acts ++ [.scan s.scanText verdict]) ++ sends s.pending) ∧
      Clean (s.acts ++ [.scan s.scanText verdict]) := by
  have g := h.going hgoing
  have hclean : Clean (s.acts ++ [.scan s.scanText verdict]) := by
    refine g.clean.append fun text verdict' hmem => ?_
    cases List.mem_singleton.mp hmem
    exact hallow
  refine ⟨(h.safe.quiet rfl).send hclean fun e he => ?_, hclean⟩
  have hlt := g.below e.1 (List.mem_append_right _ (List.mem_map_of_mem he))
  exact (g.reads.covers_scan verdict).of_start (take_start g.isPrefix hlt)

theorem Reads.keepTails {w : Window} {s : Relay} (h : s.Reads w.keep) (verdict : Verdict) :
    ((s.scanned verdict).passWindow w).Reads w.keep where
  covered := by
    refine ⟨s.read, .inl ⟨rfl, (h.covers_scan verdict).append _⟩,
      fun key => ⟨[], by rw [List.append_nil]; rfl, ?_⟩⟩
    obtain ⟨chunks, -, hsince⟩ := h.covered
    obtain ⟨since, hread, hheld⟩ := hsince key
    rw [List.append_nil, hread, ← tail_tail_append, ← hheld]
    exact textOf_keepTails _ _ _ _
  calls := h.calls

theorem Stands.passWindow {w : Window} {chunks : List ChatChunk} {s : Relay} (h : s.Stands w chunks)
    (hgoing : s.errored = false) {verdict : Verdict} (hallow : verdict.isBlock = false) :
    ((s.scanned verdict).passWindow w).Stands w chunks := by
  have g := h.going hgoing
  obtain ⟨hsafe, hclean⟩ := h.scanned hgoing hallow
  have hreleased : released ((s.scanned verdict).passWindow w).acts ++ [] = released s.acts ++
      s.pending.map (·.1) := by
    change released ((s.acts ++ [.scan s.scanText verdict]) ++ sends s.pending) ++ [] = _
    rw [released_append, released_append, released_sends, List.append_nil]
    exact congrArg (· ++ _) (List.append_nil _)
  refine ⟨hsafe, hreleased ▸ h.ascending, fun _ => ?_⟩
  exact {
    reads := g.reads.keepTails verdict
    isPrefix := g.isPrefix
    below := fun i hi => g.below i (hreleased ▸ hi)
    clean := hclean.append (clean_sends _)
    holds := g.holds
    fits := g.fits
    bounded := bounded_keepTails _ _ _ }

theorem Stands.scanWindow {w : Window} {chunks : List ChatChunk} {s : Relay} (h : s.Stands w chunks)
    (hgoing : s.errored = false) (c : Context) : (s.scanWindow c w).Stands w chunks := by
  simp only [Relay.scanWindow]
  generalize c.checkOutput s.scans s.scanText = verdict
  cases verdict with
  | block guardrailName unavailable =>
    exact h.stop [.scan s.scanText _, .refused guardrailName unavailable]
      rfl (List.append_assoc _ _ _) rfl rfl
  | allow => exact h.passWindow hgoing rfl
  | bypass => exact h.passWindow hgoing rfl

theorem callsOverflow_eq {s : Relay} (h : s.toolCallsOverflowed = false) : s.callsOverflow = s := by
  cases hcap : s.windowToolCallsCap <;> simp only [callsOverflow, h, hcap]

theorem holdOverflow_eq {w : Window} {s : Relay} (h : ¬ (s.holdOverflow w).Overflowed) :
    s.holdOverflow w = s := by
  unfold holdOverflow at h ⊢
  split at h
  · exfalso
    refine h (.inr ?_)
    split
    · exact ⟨.overflow true, by simp [act, releaseAll], rfl⟩
    · exact ⟨.overflow false, by simp [act, refuse], rfl⟩
  · next hheld => rw [if_neg hheld]

theorem hold_eq {c : Context} {w : Window} {s : Relay} {position : Nat} {chunk : ChatChunk}
    (h : ¬ (s.hold c w position chunk).Overflowed) :
    s.hold c w position chunk =
      if s.windowBuf.windowFull w.sizeChars then (s.pend c position chunk).scanWindow c w
      else s.pend c position chunk := by
  simp only [hold] at h ⊢
  have hbuf : (s.pend c position chunk).windowBuf = s.windowBuf := rfl
  rw [hbuf] at h ⊢
  generalize (if s.windowBuf.windowFull w.sizeChars =
    true then (s.pend c position chunk).scanWindow c w else s.pend c position chunk) = t at h ⊢
  split at h
  · next herrored => rw [if_pos herrored]
  · next hgoing => rw [if_neg hgoing, holdOverflow_eq h]

theorem Stands.hold {w : Window} {chunks : List ChatChunk} {s : Relay} (h : s.Stands w chunks)
    (hgoing : s.errored = false) {c : Context} {position : Nat} {chunk : ChatChunk}
    (hnew : ∀ i ∈ released s.acts ++ s.pending.map (·.1), i < position)
    (hread : position < s.read.length) (hcap : ¬ (s.hold c w position chunk).Overflowed) :
    (s.hold c w position chunk).Stands w chunks := by
  have hpend := h.pend c chunk hnew hread
  rw [hold_eq hcap]
  split
  · exact hpend.scanWindow hgoing c
  · exact hpend

/-- A relay that goes on within its caps reads its chunk whole and holds it, unless it only reports
usage. -/
theorem step_eq {w : Window} {chunks : List ChatChunk} {s : Relay} (g : s.Going w chunks)
    (hgoing : s.errored = false) {c : Context} {chunk : ChatChunk}
    (hcap : ¬ (s.step c w chunk).Overflowed) :
    (s.readChunk chunk).toolCallsOverflowed = false ∧
      s.step c w chunk =
        if usageOnly chunk then s.readChunk chunk
        else (s.readChunk chunk).hold c w s.read.length (withoutUsage chunk) := by
  have hstep : s.step c w chunk = (s.readChunk chunk).forward c w s.read.length chunk := by
    unfold Relay.step
    rw [hgoing]
    rfl
  rw [hstep] at hcap ⊢
  have hfits : (s.readChunk chunk).toolCallsOverflowed = false := by
    refine Bool.eq_false_iff.mpr fun hover => hcap ?_
    exact (later_forward c w _ _ _).overflowed (.inl hover)
  refine ⟨hfits, ?_⟩
  have hheld : (s.readChunk chunk).errored = false ∧ (s.readChunk chunk).capReleased = false := by
    rw [readChunk_eq g.holds hfits]
    exact ⟨hgoing, g.holds⟩
  simp only [forward, callsOverflow_eq hfits, hheld, Bool.false_eq_true, if_false]

theorem Stands.step {w : Window} {chunks : List ChatChunk} {s : Relay} (h : s.Stands w chunks)
    (hgoing : s.errored = false) {c : Context} {chunk : ChatChunk}
    (hread : s.read ++ [chunk] <+: chunks)
    (hcap : ¬ (s.step c w chunk).Overflowed) : (s.step c w chunk).Stands w chunks := by
  have g := h.going hgoing
  obtain ⟨hfits, hstep⟩ := step_eq g hgoing hcap
  have hstands := h.readChunk hgoing hread hfits
  rw [hstep] at hcap ⊢
  split at hcap
  · next husage =>
    rw [if_pos husage]
    exact hstands
  · next hpayload =>
    rw [if_neg hpayload]
    rw [readChunk_eq g.holds hfits] at hcap hstands ⊢
    exact hstands.hold hgoing g.below (by simp) hcap

theorem read_scanWindow (c : Context) (w : Window) (s : Relay) :
    (s.scanWindow c w).read = s.read := by
  simp only [Relay.scanWindow]
  split <;> rfl

theorem read_step {w : Window} {chunks : List ChatChunk} {s : Relay} (h : s.Stands w chunks)
    (hgoing : s.errored = false) {c : Context} {chunk : ChatChunk}
    (hcap : ¬ (s.step c w chunk).Overflowed) :
    (s.step c w chunk).read = s.read ++ [chunk] := by
  have g := h.going hgoing
  obtain ⟨hfits, hstep⟩ := step_eq g hgoing hcap
  have hread : (s.readChunk chunk).read = s.read ++ [chunk] := by rw [readChunk_eq g.holds hfits]
  rw [hstep] at hcap ⊢
  split at hcap
  · next husage => rw [if_pos husage, hread]
  · next hpayload =>
    rw [if_neg hpayload, hold_eq hcap]
    split
    · rw [read_scanWindow]
      exact hread
    · exact hread

/-! ### The text kept -/

/-- No channel keeps more than a window. -/
def Small (w : Window) (s : Relay) : Prop :=
  s.errored = false → ∀ key, (s.windowBuf.textOf key).length ≤ w.sizeChars

theorem small_passWindow (w : Window) (s : Relay) : (s.passWindow w).Small w := by
  intro _ key
  have hkept : (s.passWindow w).windowBuf = s.windowBuf.keepTails w.overlapChars w.sizeChars := rfl
  rw [hkept, textOf_keepTails, length_tail]
  omega

theorem small_scanWindow (c : Context) (w : Window) (s : Relay) : (s.scanWindow c w).Small w := by
  simp only [Relay.scanWindow]
  generalize c.checkOutput s.scans s.scanText = verdict
  cases verdict with
  | block guardrailName unavailable =>
    intro hgoing
    cases hgoing
  | allow => exact small_passWindow w _
  | bypass => exact small_passWindow w _

theorem Stands.small_hold {w : Window} {chunks : List ChatChunk} {s : Relay} (h : s.Stands w chunks)
    (hgoing : s.errored = false) {c : Context} {position : Nat} {chunk : ChatChunk}
    (hcap : ¬ (s.hold c w position chunk).Overflowed) : (s.hold c w position chunk).Small w := by
  rw [hold_eq hcap]
  split
  · exact small_scanWindow c w _
  · next hfull =>
    intro _ key
    exact Nat.le_of_lt ((h.going hgoing).bounded.length_lt (Bool.eq_false_iff.mpr hfull) key)

theorem chunkTexts_of_usageOnly {chunk : ChatChunk} (h : usageOnly chunk = true) :
    chunkTexts chunk = [] := by
  simp only [usageOnly, hasNoPayload, Bool.and_eq_true, Option.isNone_iff_eq_none,
    List.isEmpty_iff] at h
  obtain ⟨-, hpayload⟩ := h
  simp [chunkTexts, hpayload]

theorem Small.step {w : Window} {chunks : List ChatChunk} {s : Relay} (hsmall : s.Small w)
    (h : s.Stands w chunks) (hgoing : s.errored = false) {c : Context} {chunk : ChatChunk}
    (hread : s.read ++ [chunk] <+: chunks)
    (hcap : ¬ (s.step c w chunk).Overflowed) : (s.step c w chunk).Small w := by
  have g := h.going hgoing
  obtain ⟨hfits, hstep⟩ := step_eq g hgoing hcap
  have hstands := h.readChunk hgoing hread hfits
  rw [hstep] at hcap ⊢
  rw [readChunk_eq g.holds hfits] at hcap hstands ⊢
  split at hcap
  · next husage =>
    rw [if_pos husage, chunkTexts_of_usageOnly husage]
    exact hsmall
  · next hpayload =>
    rw [if_neg hpayload]
    exact hstands.small_hold hgoing hcap

/-! ### A whole run -/

theorem stands_new (w : Window) (chunks : List ChatChunk) : (new w).Stands w chunks where
  safe := safe_nil _ _
  ascending := List.Pairwise.nil
  going _ := {
    reads :=
      ⟨⟨[], .inr ⟨rfl, rfl⟩, fun _ => ⟨[], rfl, by simp [new, channelText, pushed]⟩⟩, fun _ => rfl⟩
    isPrefix := List.nil_prefix
    below := fun _ hi => nomatch hi
    clean := fun _ _ hmem => nomatch hmem
    holds := rfl
    fits := rfl
    bounded := bounded_new }

/-- The chunks of a prefix keep the invariant, and are all read where nothing stopped the relay. -/
theorem stands_foldl {c : Context} {w : Window} {chunks cs : List ChatChunk} (hcs : cs <+: chunks)
    (hcap : ¬ (cs.foldl (step c w) (new w)).Overflowed) :
    (cs.foldl (step c w) (new w)).Stands w chunks ∧ (cs.foldl (step c w) (new w)).Small w ∧
      ((cs.foldl (step c w) (new w)).errored = false →
      (cs.foldl (step c w) (new w)).read = cs) := by
  induction cs using List.reverseRecOn with
  | nil => exact ⟨stands_new w chunks, fun _ _ => Nat.zero_le _, fun _ => rfl⟩
  | append_singleton cs chunk ih =>
    rw [List.foldl_append, List.foldl_cons, List.foldl_nil] at hcap ⊢
    have hbefore : ¬ (cs.foldl (Relay.step c w) (new w)).Overflowed :=
      fun hover => hcap ((later_step c w _ _).overflowed hover)
    obtain ⟨hstands, hsmall, hread⟩ := ih ((List.prefix_append _ _).trans hcs) hbefore
    generalize cs.foldl (Relay.step c w) (new w) = s at *
    cases hgoing : s.errored with
    | true =>
      have hstep : s.step c w chunk = s := by
        unfold Relay.step
        rw [hgoing]
        rfl
      rw [hstep]
      exact ⟨hstands, hsmall, fun herrored => by rw [hgoing] at herrored; cases herrored⟩
    | false =>
      have hread := hread hgoing
      subst hread
      exact ⟨hstands.step hgoing hcs hcap, hsmall.step hstands hgoing hcs hcap,
        fun _ => read_step hstands hgoing hcap⟩

/-! ### The end of the stream -/

/-- What the end of the stream keeps: a safe log, and what is held behind what was released. -/
structure Ending (w : Window) (chunks : List ChatChunk) (s : Relay) : Prop where
  safe : Safe w.keep chunks s.acts
  ascending : (released s.acts ++ s.pending.map (·.1)).Pairwise (· < ·)

theorem Ending.quiet {w : Window} {chunks : List ChatChunk} {s : Relay} (h : s.Ending w chunks)
    (more : List Act) (hmore : released more = []) {t : Relay} (hacts : t.acts = s.acts ++ more)
    (hpending : t.pending.map (·.1) = s.pending.map (·.1)) : t.Ending w chunks where
  safe := by
    rw [hacts]
    exact h.safe.quiet hmore
  ascending := by
    rw [hacts, hpending, released_append, hmore, List.append_nil]
    exact h.ascending

theorem Ending.releaseAll {w : Window} {chunks : List ChatChunk} {s : Relay} (h : s.Ending w chunks)
    (hclean : Clean s.acts) (hcovers : Covers w.keep chunks s.acts) :
    s.releaseAll.Ending w chunks where
  safe := h.safe.send hclean fun e _ => by
    have htake : chunks.take (e.1 + 1) <+: chunks := List.take_prefix _ _
    exact hcovers.of_start htake
  ascending := by
    have hreleased : released s.releaseAll.acts = released s.acts ++ s.pending.map (·.1) := by
      change released (s.acts ++ sends s.pending) = _
      rw [released_append, released_sends]
    have hnone : s.releaseAll.pending = [] := rfl
    rw [hreleased, hnone, List.map_nil, List.append_nil]
    exact h.ascending

theorem map_fst_edit (s : Relay) (f : Nat → ChatChunk → ChatChunk) :
    (s.edit f).pending.map (·.1) = s.pending.map (·.1) := by
  refine List.ext_getElem? fun i => ?_
  simp [edit, Function.comp_def]

theorem Ending.scanLast {w : Window} {chunks : List ChatChunk} {s : Relay} (h : s.Ending w chunks)
    (hreads : s.Reads w.keep) (hread : s.read = chunks) (hclean : Clean s.acts) (c : Context) :
    (s.scanLast c).Ending w chunks ∧
      ((s.scanLast c).errored = false → Clean (s.scanLast c).acts ∧
      Covers w.keep chunks (s.scanLast c).acts) := by
  simp only [Relay.scanLast]
  split
  · next hnil => exact ⟨h, fun _ => ⟨hclean, hread ▸ hreads.covers_of_scanText_nil hnil.1 hnil.2⟩⟩
  · generalize s.judgeLast c = judged
    obtain ⟨verdict, f⟩ := judged
    have hquiet : ((s.edit f).scanned verdict).Ending w chunks :=
      h.quiet [_] rfl rfl (map_fst_edit s f)
    have hcovers : Covers w.keep chunks ((s.edit f).scanned verdict).acts :=
      hread ▸ hreads.covers_scan verdict
    have hallowed : verdict.isBlock = false → Clean ((s.edit f).scanned verdict).acts :=
      fun hallow =>
      hclean.append fun text verdict' hmem => by
        cases List.mem_singleton.mp hmem
        exact hallow
    cases verdict with
    | block guardrailName unavailable =>
      exact ⟨hquiet.quiet [_] rfl rfl rfl, fun hgoing => by cases hgoing⟩
    | allow => exact ⟨hquiet, fun _ => ⟨hallowed rfl, hcovers⟩⟩
    | bypass => exact ⟨hquiet, fun _ => ⟨hallowed rfl, hcovers⟩⟩

theorem Ending.releaseLast {w : Window} {chunks : List ChatChunk} {s : Relay}
    (h : s.Ending w chunks) (hclean : Clean s.acts) (hcovers : Covers w.keep chunks s.acts)
    (c : Context) :
    (s.releaseLast c).Ending w chunks := by
  simp only [Relay.releaseLast]
  have hedit : (s.edit (c.redact (s.pending.map (·.2))).2).Ending w chunks :=
    h.quiet [] rfl (List.append_nil _).symm (map_fst_edit s _)
  split
  · exact hedit.quiet [_] rfl rfl rfl
  · exact hedit.releaseAll hclean hcovers

theorem Ending.flush {w : Window} {chunks : List ChatChunk} {s : Relay} (h : s.Ending w chunks)
    (hreads : s.Reads w.keep) (hread : s.read = chunks) (hclean : Clean s.acts) (c : Context) :
    (s.flush c).Ending w chunks := by
  obtain ⟨hscan, hcovered⟩ := h.scanLast hreads hread hclean c
  simp only [Relay.flush]
  split
  · exact hscan
  · next hgoing =>
    obtain ⟨hclean, hcovers⟩ := hcovered (Bool.eq_false_iff.mpr hgoing)
    exact hscan.releaseLast hclean hcovers c

theorem reportUsage_eq {s : Relay} (hholds : s.capReleased = false) (c : Context) :
    ∃ more, (more = [] ∨ ∃ chunk, more = [(s.read.length, chunk)]) ∧
      s.reportUsage c = { s with pending := s.pending ++ more } := by
  unfold reportUsage
  cases c.usageChunk s.read with
  | none => exact ⟨[], .inl rfl, by rw [List.append_nil]⟩
  | some chunk => exact ⟨_, .inr ⟨chunk, rfl⟩, by simp [hholds]⟩

theorem Stands.ending_finish {w : Window} {chunks : List ChatChunk} {s : Relay}
    (h : s.Stands w chunks) (hgoing : s.errored = false) (hread : s.read = chunks) (c : Context) :
    (s.finish c).Ending w chunks := by
  have g := h.going hgoing
  obtain ⟨more, hmore, husage⟩ := reportUsage_eq g.holds c
  have hending : Ending w chunks { s with pending := s.pending ++ more } := by
    refine ⟨h.safe, ?_⟩
    rw [List.map_append, ← List.append_assoc]
    refine List.pairwise_append.mpr ⟨h.ascending, ?_, fun i hi j hj => ?_⟩
    · rcases hmore with rfl | ⟨chunk, rfl⟩ <;> simp
    · rcases hmore with rfl | ⟨chunk, rfl⟩
      · cases hj
      · cases List.mem_singleton.mp hj
        exact g.below i hi
  have hreads : Reads w.keep { s with pending := s.pending ++ more } :=
    ⟨g.reads.covered, g.reads.calls⟩
  have hflush := hending.flush hreads hread g.clean c
  have hfinish : s.finish c =
      if (flush c { s with pending := s.pending ++ more }).errored then flush c
        { s with pending := s.pending ++ more }
      else (flush c { s with pending := s.pending ++ more }).act [.done] := by
    unfold finish
    rw [husage, hgoing, g.holds]
    rfl
  rw [hfinish]
  split
  · exact hflush
  · exact hflush.quiet [.done] rfl rfl rfl

theorem ending_run {c : Context} {w : Window} {chunks : List ChatChunk} {failed : Bool}
    (hcap : ¬ (run c w chunks failed).Overflowed) : (run c w chunks failed).Ending w chunks := by
  have hfold : ¬ (chunks.foldl (Relay.step c w) (new w)).Overflowed := fun hover =>
    hcap ((later_run c w chunks failed).overflowed hover)
  obtain ⟨hstands, -, hread⟩ := stands_foldl List.prefix_rfl hfold
  simp only [run]
  generalize chunks.foldl (Relay.step c w) (new w) = s at *
  have hending : s.Ending w chunks := ⟨hstands.safe, hstands.ascending⟩
  split
  · exact hending
  · next hgoing =>
    have hgoing := Bool.eq_false_iff.mpr hgoing
    split
    · exact hending.quiet [.upstreamError] rfl rfl rfl
    · exact hstands.ending_finish hgoing (hread hgoing) c
end Relay

/-! ## A chain of members -/

open Relay

/-- Within the caps, a text of a channel that is at most one character longer than the overlap of a
member, as far as the folded window keeps it, is scanned before the chunk that completes it goes
out; so is every tool call. -/
theorem window_scan_no_gap (c : Context) (w : Window) (members : List Member)
    (chunks : List ChatChunk) (failed : Bool)
    (hfold : streamOutputPolicy members =
      .window w.sizeChars w.overlapChars w.maxBufferBytes w.onExceededFailOpen)
    (hcap : ¬ (run c w chunks failed).Overflowed) :
    (∀ before position chunk after, (run c w chunks failed).acts = before ++
      .release position chunk :: after →
      (∀ m ∈ members, m.runsOnOutput = true → ∀ size overlap cap failOpen,
        m.policy = .window size overlap cap failOpen → ∀ key p,
          p <:+: channelText key (chunks.take (position + 1)) →
            p.length ≤ min overlap (w.sizeChars - 1) + 1 →
          Scanned before p) ∧
      (∀ key, Scanned before (callText key (chunks.take (position + 1)))) ∧ Clean before) ∧
    (released (run c w chunks failed).acts).Pairwise (· < ·) ∧
    ∀ n, ((chunks.take n).foldl (step c w) (new w)).errored = false →
      ∀ key, (((chunks.take n).foldl (step c w) (new w)).windowBuf.textOf key).length ≤
        w.sizeChars := by
  have hending := ending_run hcap
  refine ⟨fun before position chunk after hacts => ?_, ?_, fun n => ?_⟩
  · obtain ⟨hcovers, hclean⟩ := hending.safe before position chunk after hacts
    refine ⟨fun m hm hout size overlap cap failOpen hpolicy key p hp hlength => ?_,
      hcovers.calls, hclean⟩
    have hwithin := within_streamOutputPolicy hfold hm hout
    rw [hpolicy] at hwithin
    have hoverlap : overlap ≤ w.overlapChars := hwithin.2
    refine hcovers.channels key p hp ?_
    unfold Window.keep
    omega
  · exact (List.pairwise_append.mp hending.ascending).1
  · have hlater : ((chunks.take n).foldl (step c w) (new w)).Later (run c w chunks failed) := by
      have hrest := later_foldl c w ((chunks.take n).foldl (step c w) (new w)) (chunks.drop n)
      rw [← List.foldl_append, List.take_append_drop] at hrest
      exact hrest.trans (later_run c w chunks failed)
    have htake : chunks.take n <+: chunks := List.take_prefix n chunks
    exact (stands_foldl htake fun hover => hcap (hlater.overflowed hover)).2.1

/-! ### One chain -/

/-- A chunk of choice 0. -/
def deltaChunk (delta : ChatDelta) : ChatChunk := ⟨"", "", 0, delta, none, none, none, none, none⟩

def contentChunk (text : String) : ChatChunk :=
  deltaChunk { ChatDelta.default with content := some text }

/-- A chunk with a fragment of a tool call. -/
def callChunk (name arguments : String) : ChatChunk :=
  deltaChunk { ChatDelta.default with
    toolCalls := some [.object [("function",
      .object [("name", .string name), ("arguments", .string arguments)])]] }

/-- Two windows, of which the smaller keeps no overlap. -/
def twoWindows : List Member := [⟨true, .window 4 2 65536 false⟩, ⟨true, .window 2 0 65536 false⟩]

def foldedWindow : Window := ⟨2, 2, 65536, false⟩

def allowAll : Context where
  checkOutput _ _ := .allow
  checkOutputNonSegment _ _ := .allow
  moderate verdict _ _ := (verdict, fun _ chunk => chunk)
  redact _ := (false, fun _ chunk => chunk)
  raw _ := 1
  usageChunk _ := none

theorem fold_twoWindows : streamOutputPolicy twoWindows =
    .window foldedWindow.sizeChars foldedWindow.overlapChars foldedWindow.maxBufferBytes
      foldedWindow.onExceededFailOpen := by
  decide +kernel

/-- Content cut behind the first window. -/
def splitContent : Relay := run allowAll foldedWindow [contentChunk "ab", contentChunk "c"] false

/-- A call whose name comes with each fragment. -/
def renamedCall : Relay := run allowAll foldedWindow [callChunk "f" "a", callChunk "f" "b"] false

theorem splitContent_fits : ¬ splitContent.Overflowed := by decide +kernel

/-- Both windows go out, in order. -/
theorem window_scan_no_gap_twoWindows :
    released splitContent.acts = [0, 1] ∧ (released splitContent.acts).Pairwise (· < ·) :=
  ⟨by decide +kernel,
    (window_scan_no_gap allowAll foldedWindow twoWindows _ false fold_twoWindows
      splitContent_fits).2.1⟩

/-- The overlap of a member can be longer than what the folded window keeps: three characters cross
the cut though the member keeps two. And where the name of a call comes twice, the second stands
between its arguments. -/
theorem overlap_beyond_folded_window :
    (⟨true, .window 4 2 65536 false⟩ ∈ twoWindows ∧ ¬ splitContent.Overflowed ∧
      "abc".toList <:+: channelText (toLex (0, CONTENT)) [contentChunk "ab", contentChunk "c"] ∧
      "abc".toList.length = 2 + 1 ∧ released splitContent.acts = [0, 1] ∧
      ¬ Scanned splitContent.acts "abc".toList) ∧
    (¬ renamedCall.Overflowed ∧ released renamedCall.acts = [0, 1] ∧
      ¬ Scanned renamedCall.acts "ff".toList ∧ ¬ Scanned renamedCall.acts "ab".toList) := by
  decide +kernel

end WindowScan
end Aisix
