import Aisix.WindowScan.Relay

/-!
# Aisix.WindowScan.Later

A run of the relay only adds to its acts, and a cap once outgrown stays outgrown.
-/

namespace Aisix
namespace WindowScan
namespace Relay

/-- A cap was outgrown. -/
def Overflowed (s : Relay) : Prop :=
  s.toolCallsOverflowed = true ∨ ∃ a ∈ s.acts, a.isOverflow = true

instance (s : Relay) : Decidable s.Overflowed := inferInstanceAs (Decidable (_ ∨ _))

/-- `t` comes later in a run than `s`: nothing done is undone, nor is an overflow forgotten. -/
structure Later (s t : Relay) : Prop where
  acts : s.acts <+: t.acts
  calls : s.toolCallsOverflowed = true → t.toolCallsOverflowed = true

namespace Later

theorem refl (s : Relay) : s.Later s := ⟨List.prefix_rfl, id⟩

theorem trans {s t u : Relay} (h : s.Later t) (h' : t.Later u) : s.Later u :=
  ⟨h.acts.trans h'.acts, h'.calls ∘ h.calls⟩

theorem overflowed {s t : Relay} (h : s.Later t) (hs : s.Overflowed) : t.Overflowed := by
  rcases hs with hs | ⟨a, ha, hs⟩
  · exact .inl (h.calls hs)
  · exact .inr ⟨a, h.acts.subset ha, hs⟩

end Later

theorem later_act (s : Relay) (acts : List Act) : s.Later (s.act acts) :=
  ⟨List.prefix_append _ _, id⟩

theorem later_releaseAll (s : Relay) : s.Later s.releaseAll := ⟨List.prefix_append _ _, id⟩

theorem later_refuse (s : Relay) (guardrailName unavailable : Option String) :
    s.Later (s.refuse guardrailName unavailable) := ⟨List.prefix_append _ _, id⟩

theorem later_collectCalls (s : Relay) (es : List (Key × List Char × List Char)) :
    s.Later (s.collectCalls es) := by
  induction es generalizing s with
  | nil => exact .refl s
  | cons e es ih =>
    obtain ⟨key, name, args⟩ := e
    simp only [collectCalls]
    split
    · exact ⟨List.prefix_rfl, fun _ => rfl⟩
    · have hrest := ih { s with toolCallsBuf := (s.toolCallsBuf.push key name).push key args }
      exact ⟨hrest.acts, hrest.calls⟩

theorem later_collect (s : Relay) (chunk : ChatChunk) : s.Later (s.collect chunk) := by
  simp only [collect]
  split
  · exact .refl s
  · split
    · exact ⟨List.prefix_rfl, id⟩
    · have hcalls :=
        later_collectCalls { s with windowBuf := s.windowBuf.pushAll (chunkTexts chunk) }
          (callTexts chunk)
      exact ⟨hcalls.acts, hcalls.calls⟩

theorem later_callsOverflow (s : Relay) : s.Later s.callsOverflow := by
  unfold callsOverflow
  split
  · split
    · exact ⟨List.prefix_append _ _, id⟩
    · exact (later_act s _).trans (later_refuse _ _ _)
  · exact .refl s

theorem later_scanned (s : Relay) (verdict : Verdict) : s.Later (s.scanned verdict) :=
  ⟨List.prefix_append _ _, id⟩

theorem later_passWindow (w : Window) (s : Relay) : s.Later (s.passWindow w) :=
  ⟨List.prefix_append _ _, id⟩

theorem later_scanWindow (c : Context) (w : Window) (s : Relay) : s.Later (s.scanWindow c w) := by
  simp only [scanWindow]
  generalize c.checkOutput s.scans s.scanText = verdict
  have hscan := later_scanned s verdict
  cases verdict with
  | block guardrailName unavailable => exact hscan.trans (later_refuse _ _ _)
  | allow => exact hscan.trans (later_passWindow w _)
  | bypass => exact hscan.trans (later_passWindow w _)

theorem later_holdOverflow (w : Window) (s : Relay) : s.Later (s.holdOverflow w) := by
  unfold holdOverflow
  split
  · split
    · exact (later_act s _).trans ⟨List.prefix_append _ _, id⟩
    · exact (later_act s _).trans (later_refuse _ _ _)
  · exact .refl s

theorem later_pend (c : Context) (s : Relay) (position : Nat) (chunk : ChatChunk) :
    s.Later (s.pend c position chunk) := ⟨List.prefix_rfl, id⟩

theorem later_hold (c : Context) (w : Window) (s : Relay) (position : Nat) (chunk : ChatChunk) :
    s.Later (s.hold c w position chunk) := by
  simp only [hold]
  have hpend := later_pend c s position chunk
  have hscan := hpend.trans (later_scanWindow c w _)
  split
  · split
    · exact hscan
    · exact hscan.trans (later_holdOverflow w _)
  · split
    · exact hpend
    · exact hpend.trans (later_holdOverflow w _)

theorem later_readChunk (s : Relay) (chunk : ChatChunk) : s.Later (s.readChunk chunk) := by
  have hcollect := later_collect { s with read := s.read ++ [chunk] } chunk
  exact ⟨hcollect.acts, hcollect.calls⟩

theorem later_forward (c : Context) (w : Window) (s : Relay) (position : Nat) (chunk : ChatChunk) :
    s.Later (s.forward c w position chunk) := by
  simp only [forward]
  have hcalls := later_callsOverflow s
  split
  · exact .refl _
  · split
    · exact hcalls
    · split
      · exact hcalls.trans (later_act _ _)
      · exact hcalls.trans (later_hold c w _ _ _)

theorem later_step (c : Context) (w : Window) (s : Relay) (chunk : ChatChunk) :
    s.Later (s.step c w chunk) := by
  unfold step
  split
  · exact .refl s
  · exact (later_readChunk s chunk).trans (later_forward c w _ _ _)

theorem later_foldl (c : Context) (w : Window) (s : Relay) (chunks : List ChatChunk) :
    s.Later (chunks.foldl (step c w) s) := by
  induction chunks generalizing s with
  | nil => exact .refl s
  | cons chunk chunks ih => exact (later_step c w s chunk).trans (ih _)

theorem later_reportUsage (c : Context) (s : Relay) : s.Later (s.reportUsage c) := by
  unfold reportUsage
  split
  · exact .refl s
  · split
    · exact later_act s _
    · exact ⟨List.prefix_rfl, id⟩

theorem later_scanLast (c : Context) (s : Relay) : s.Later (s.scanLast c) := by
  simp only [scanLast]
  split
  · exact .refl s
  · generalize s.judgeLast c = judged
    obtain ⟨verdict, f⟩ := judged
    have hedit : s.Later (s.edit f) := ⟨List.prefix_rfl, id⟩
    have hscan := hedit.trans (later_scanned _ verdict)
    cases verdict with
    | block guardrailName unavailable => exact hscan.trans (later_refuse _ _ _)
    | allow => exact hscan
    | bypass => exact hscan

theorem later_releaseLast (c : Context) (s : Relay) : s.Later (s.releaseLast c) := by
  simp only [releaseLast]
  have hedit : s.Later (s.edit (c.redact (s.pending.map (·.2))).2) := ⟨List.prefix_rfl, id⟩
  split
  · exact hedit.trans (later_refuse _ _ _)
  · exact hedit.trans (later_releaseAll _)

theorem later_flush (c : Context) (s : Relay) : s.Later (s.flush c) := by
  simp only [flush]
  split
  · exact later_scanLast c s
  · exact (later_scanLast c s).trans (later_releaseLast c _)

theorem later_finish (c : Context) (s : Relay) : s.Later (s.finish c) := by
  simp only [finish]
  have husage := later_reportUsage c s
  have hflush := husage.trans (later_flush c _)
  split
  · exact .refl s
  · split
    · split
      · exact husage
      · exact husage.trans (later_act _ _)
    · split
      · exact hflush
      · exact hflush.trans (later_act _ _)

theorem later_run (c : Context) (w : Window) (chunks : List ChatChunk) (failed : Bool) :
    Later (chunks.foldl (step c w) (new w)) (run c w chunks failed) := by
  simp only [run]
  split
  · exact .refl _
  · split
    · exact later_act _ _
    · exact later_finish c _

end Relay
end WindowScan
end Aisix
