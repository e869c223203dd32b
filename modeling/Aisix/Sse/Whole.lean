import Aisix.Sse.Splitter
import Aisix.Sse.Fields

/-!
# Aisix.Sse.Whole

Frames on their own and put together again.

* `cut_cons`        — what a first frame is, and what is left behind it.
* `cut_flatten`     — frames put together are cut as before, but for a line feed that runs into a
  carriage return.
* `Whole.scan`      — where the scan finds the end of a frame.
-/

namespace Aisix
namespace Sse

/-- A frame, and nothing else. -/
def Whole (f : Bytes) : Prop := cut .start [] f = ([f], [])

/-- No pair is made where `g` comes behind `f`. -/
def Apart (f g : Bytes) : Prop := f.getLast? = some CR → g.head? ≠ some LF

variable {st : LineState} {cur s t f r : Bytes} {fs : List Bytes}

theorem Apart.append_right (h : Apart f s) (hs : s ≠ []) : Apart f (s ++ t) := by
  intro hlast
  rw [List.head?_append_of_ne_nil _ hs]
  exact h hlast

theorem eq_nil_of_cut (h : cut st [] s = ([], [])) : s = [] := by
  have hflat := flatten_cut st [] s
  rw [h] at hflat
  exact hflat.symm

theorem cut_append_of_nil (h : (cut st cur s).1 = []) :
    cut st cur (s ++ t) = cut (st.run s) (cur ++ s) t := by
  induction st, cur, s using cut_induct with
  | nil st cur =>
    rw [List.append_nil]
    rfl
  | step st cur b s hb ih =>
    rw [cut_step hb] at h
    rw [List.cons_append, cut_step hb, ih h, LineState.run_cons, List.append_assoc]
    rfl
  | crlf st cur s hb ih =>
    rw [cut_crlf hb] at h
    cases h
  | one st cur b s hb hs ih =>
    rw [cut_one hb cur hs] at h
    cases h

theorem cut_cons_state (h : cut st cur s = (f :: fs, r)) :
    ∃ t s', s = t ++ s' ∧ cut st cur t = ([f], []) ∧ Apart f s' ∧ cut .start [] s' = (fs, r) := by
  induction st, cur, s using cut_induct with
  | nil st cur =>
    rw [cut_nil] at h
    cases h
  | step st cur b s hb ih =>
    rw [cut_step hb] at h
    obtain ⟨t, s', rfl, hfirst, hapart, hrest⟩ := ih h
    refine ⟨b :: t, s', rfl, ?_, hapart, hrest⟩
    rw [cut_step hb, hfirst]
  | crlf st cur s hb ih =>
    rw [cut_crlf hb] at h
    cases h
    refine ⟨[CR, LF], s, rfl, ?_, ?_, rfl⟩
    · rw [cut_crlf hb, cut_nil]
    · intro hlast
      simp [LF_ne_CR] at hlast
  | one st cur b s hb hs ih =>
    rw [cut_one hb cur hs] at h
    cases h
    refine ⟨[b], s, rfl, ?_, ?_, ?_⟩
    · rw [cut_one hb cur (fun _ => Option.some_ne_none _ ∘ Eq.symm), cut_nil]
    · intro hlast
      rw [List.getLast?_append, List.getLast?_singleton, Option.some_or] at hlast
      exact hs (Option.some.inj hlast)
    · rcases LineState.eq_of_ends hb with rfl | rfl
      · rw [LineState.after_CR, cut_afterCr [] (hs rfl)]
      · rfl

theorem cut_cons (h : cut .start [] s = (f :: fs, r)) :
    ∃ s', s = f ++ s' ∧ Whole f ∧ Apart f s' ∧ cut .start [] s' = (fs, r) := by
  obtain ⟨t, s', rfl, hfirst, hapart, hrest⟩ := cut_cons_state h
  have hflat := flatten_cut .start [] t
  rw [hfirst, flatten_pieces, List.flatten_singleton, List.append_nil, List.nil_append] at hflat
  subst hflat
  exact ⟨s', rfl, hfirst, hapart, hrest⟩

theorem whole_of_mem (h : f ∈ (cut .start [] s).1) : Whole f := by
  cases hcut : cut .start [] s with
  | mk fs r =>
    rw [hcut] at h
    induction fs generalizing s with
    | nil => cases h
    | cons g fs ih =>
      obtain ⟨s', rfl, hg, -, hrest⟩ := cut_cons hcut
      rcases List.mem_cons.mp h with rfl | hmem
      · exact hg
      · exact ih hmem hrest

theorem Whole.ne_nil (h : Whole f) : f ≠ [] := by
  rintro rfl
  cases h

theorem Whole.eq_LF (h : Whole f) (hf : f.head? = some LF) : f = [LF] := by
  obtain ⟨s, rfl⟩ := List.head?_eq_some_iff.mp hf
  have hone := cut_one LineState.start_ends_LF [] (s := s) (fun hcr => absurd hcr LF_ne_CR)
  unfold Whole at h
  rw [h] at hone
  exact (List.cons.inj (Prod.mk.inj hone).1).1

theorem cut_append_apart (h : cut st cur t = ([f], [])) (hs : Apart f s) :
    cut st cur (t ++ s) = (f :: (cut .start [] s).1, (cut .start [] s).2) := by
  induction st, cur, t using cut_induct with
  | nil st cur =>
    rw [cut_nil] at h
    cases h
  | step st cur b t hb ih =>
    rw [cut_step hb] at h
    rw [List.cons_append, cut_step hb, ih h]
  | crlf st cur t hb ih =>
    rw [cut_crlf hb] at h
    obtain ⟨hframes, hrest⟩ := Prod.mk.inj h
    obtain ⟨rfl, hnone⟩ := List.cons.inj hframes
    obtain rfl := eq_nil_of_cut (Prod.ext hnone hrest)
    exact cut_crlf hb cur s
  | one st cur b t hb ht ih =>
    rw [cut_one hb cur ht] at h
    obtain ⟨hframes, hrest⟩ := Prod.mk.inj h
    obtain ⟨rfl, hnone⟩ := List.cons.inj hframes
    obtain rfl := eq_nil_of_cut (Prod.ext hnone hrest)
    have hlast : (cur ++ [b]).getLast? = some b := List.getLast?_concat
    have hlone : b = CR → s.head? ≠ some LF := by
      rintro rfl
      exact hs hlast
    rw [List.singleton_append, cut_one hb cur hlone]
    rcases LineState.eq_of_ends hb with rfl | rfl
    · rw [LineState.after_CR, cut_afterCr [] (hlone rfl)]
    · rfl

theorem cut_append_LF (h : cut st cur t = ([f], [])) (hf : f.getLast? = some CR) :
    cut st cur (t ++ LF :: s) = ((f ++ [LF]) :: (cut .start [] s).1, (cut .start [] s).2) := by
  induction st, cur, t using cut_induct with
  | nil st cur =>
    rw [cut_nil] at h
    cases h
  | step st cur b t hb ih =>
    rw [cut_step hb] at h
    rw [List.cons_append, cut_step hb, ih h]
  | crlf st cur t hb ih =>
    rw [cut_crlf hb] at h
    obtain ⟨rfl, -⟩ := List.cons.inj (Prod.mk.inj h).1
    simp [LF_ne_CR] at hf
  | one st cur b t hb ht ih =>
    rw [cut_one hb cur ht] at h
    obtain ⟨hframes, hrest⟩ := Prod.mk.inj h
    obtain ⟨rfl, hnone⟩ := List.cons.inj hframes
    obtain rfl := eq_nil_of_cut (Prod.ext hnone hrest)
    obtain rfl : b = CR := by
      rw [List.getLast?_concat] at hf
      exact Option.some.inj hf
    rw [List.singleton_append, cut_crlf hb, List.append_assoc]
    rfl

/-! ### What is left over -/

theorem ends_of_nil {b : UInt8} (h : (cut st cur (s ++ b :: t)).1 = []) :
    (st.run s).ends b = false := by
  induction s generalizing st cur with
  | nil =>
    rw [List.nil_append] at h
    rw [LineState.run_nil]
    cases hb : st.ends b with
    | false => rfl
    | true =>
      by_cases hpair : b = CR ∧ t.head? = some LF
      · obtain ⟨rfl, hlf⟩ := hpair
        obtain ⟨u, rfl⟩ := List.head?_eq_some_iff.mp hlf
        rw [cut_crlf hb] at h
        cases h
      · rw [cut_one hb cur fun hcr hlf => hpair ⟨hcr, hlf⟩] at h
        cases h
  | cons c s ih =>
    rw [List.cons_append] at h
    cases hc : st.ends c with
    | false =>
      rw [cut_step hc] at h
      rw [LineState.run_cons, ih h]
    | true =>
      by_cases hpair : c = CR ∧ (s ++ b :: t).head? = some LF
      · obtain ⟨rfl, hlf⟩ := hpair
        obtain ⟨u, hu⟩ := List.head?_eq_some_iff.mp hlf
        rw [hu, cut_crlf hc] at h
        cases h
      · rw [cut_one hc cur fun hcr hlf => hpair ⟨hcr, hlf⟩] at h
        cases h

theorem cut_rest (h : cut .start [] s = (fs, r)) : cut .start [] r = ([], r) := by
  induction fs generalizing s with
  | nil =>
    have hflat := flatten_cut .start [] s
    rw [h, flatten_pieces, List.flatten_nil, List.nil_append, List.nil_append] at hflat
    dsimp only at hflat
    subst hflat
    exact h
  | cons f fs ih =>
    obtain ⟨s', -, -, -, hrest⟩ := cut_cons h
    exact ih hrest

theorem cut_append_rest (h : cut .start [] s = (fs, r)) (hr : r ≠ []) :
    cut .start [] (s ++ t) = (fs ++ (cut .start [] (r ++ t)).1, (cut .start [] (r ++ t)).2) := by
  induction fs generalizing s with
  | nil =>
    have hflat := flatten_cut .start [] s
    rw [h, flatten_pieces, List.flatten_nil, List.nil_append, List.nil_append] at hflat
    dsimp only at hflat
    subst hflat
    rfl
  | cons f fs ih =>
    obtain ⟨s', rfl, hwhole, hapart, hrest⟩ := cut_cons h
    have hs' : s' ≠ [] := by
      rintro rfl
      rw [cut_nil] at hrest
      exact hr (Prod.mk.inj hrest).2.symm
    rw [List.append_assoc, cut_append_apart hwhole (hapart.append_right hs'), ih hrest,
      List.cons_append]

theorem cut_concat_LF {init : List Bytes} (h : cut .start [] s = (init ++ [f], []))
    (hf : f.getLast? = some CR) : cut .start [] (s ++ [LF]) = (init ++ [f ++ [LF]], []) := by
  induction init generalizing s with
  | nil =>
    obtain ⟨s', rfl, hwhole, -, hrest⟩ := cut_cons h
    obtain rfl := eq_nil_of_cut hrest
    rw [List.append_nil, cut_append_LF hwhole hf, cut_nil]
    rfl
  | cons g init ih =>
    obtain ⟨s', rfl, hwhole, hapart, hrest⟩ := cut_cons h
    have hs' : s' ≠ [] := by
      rintro rfl
      rw [cut_nil] at hrest
      exact List.append_ne_nil_of_right_ne_nil init (List.cons_ne_nil f [])
        (Prod.mk.inj hrest).1.symm
    rw [List.append_assoc, cut_append_apart hwhole (hapart.append_right hs'), ih hrest]
    rfl

/-! ### Frames put together -/

/-- The frames of frames put together: a lone line feed behind a carriage return is part of the
frame before it. -/
def runTogether : List Bytes → List Bytes
  | [] => []
  | [f] => [f]
  | f :: g :: fs =>
    if f.getLast? = some CR ∧ g.head? = some LF then (f ++ [LF]) :: runTogether fs
    else f :: runTogether (g :: fs)

theorem cut_flatten (h : ∀ f ∈ fs, Whole f) : cut .start [] fs.flatten = (runTogether fs, []) := by
  induction fs using runTogether.induct with
  | case1 => rfl
  | case2 f =>
    rw [List.flatten_singleton]
    exact h f List.mem_cons_self
  | case3 f g fs hpair ih =>
    have hf := h f List.mem_cons_self
    have hg := (h g (List.mem_cons_of_mem _ List.mem_cons_self)).eq_LF hpair.2
    have hrest := ih fun f hf => h f (List.mem_cons_of_mem _ (List.mem_cons_of_mem _ hf))
    subst hg
    rw [List.flatten_cons, List.flatten_cons, List.singleton_append, cut_append_LF hf hpair.1,
      hrest, runTogether, if_pos hpair]
  | case4 f g fs hpair ih =>
    have hf := h f List.mem_cons_self
    have hg := h g (List.mem_cons_of_mem _ List.mem_cons_self)
    have hrest := ih fun f hf => h f (List.mem_cons_of_mem _ hf)
    have hapart : Apart f (g :: fs).flatten := by
      intro hlast hhead
      obtain ⟨b, g', rfl⟩ := List.exists_cons_of_ne_nil hg.ne_nil
      exact hpair ⟨hlast, hhead⟩
    rw [List.flatten_cons, cut_append_apart hf hapart, hrest, runTogether, if_neg hpair]

theorem runTogether_eq_self (h : fs.IsChain Apart) : runTogether fs = fs := by
  induction fs using runTogether.induct with
  | case1 => rfl
  | case2 f => rfl
  | case3 f g fs hpair ih => exact absurd hpair.2 ((List.isChain_cons_cons.mp h).1 hpair.1)
  | case4 f g fs hpair ih => rw [runTogether, if_neg hpair, ih (List.isChain_cons_cons.mp h).2]

theorem length_runTogether_le (fs : List Bytes) : (runTogether fs).length ≤ fs.length := by
  induction fs using runTogether.induct with
  | case1 => exact Nat.le_refl _
  | case2 f => exact Nat.le_refl _
  | case3 f g fs hpair ih =>
    rw [runTogether, if_pos hpair, List.length_cons, List.length_cons, List.length_cons]
    omega
  | case4 f g fs hpair ih =>
    rw [runTogether, if_neg hpair, List.length_cons, List.length_cons]
    exact Nat.succ_le_succ ih

theorem isChain_of_length (h : (runTogether fs).length = fs.length) : fs.IsChain Apart := by
  induction fs using runTogether.induct with
  | case1 => exact .nil
  | case2 f => exact .singleton f
  | case3 f g fs hpair ih =>
    have hle := length_runTogether_le fs
    rw [runTogether, if_pos hpair, List.length_cons, List.length_cons, List.length_cons] at h
    omega
  | case4 f g fs hpair ih =>
    rw [runTogether, if_neg hpair, List.length_cons, List.length_cons] at h
    exact List.isChain_cons_cons.mpr ⟨fun hlast hhead => hpair ⟨hlast, hhead⟩, ih (Nat.succ.inj h)⟩

theorem isChain_of_cut (h : cut .start [] s = (fs, r)) : fs.IsChain Apart := by
  induction fs generalizing s with
  | nil => exact .nil
  | cons f fs ih =>
    obtain ⟨s', -, -, hapart, hrest⟩ := cut_cons h
    cases fs with
    | nil => exact .singleton f
    | cons g fs =>
      obtain ⟨u, hu, hwhole, -, -⟩ := cut_cons hrest
      refine List.isChain_cons_cons.mpr ⟨?_, ih hrest⟩
      intro hlast
      have hhead := hapart hlast
      rwa [hu, List.head?_append_of_ne_nil _ hwhole.ne_nil] at hhead

/-! ### The scan of a frame -/

/-- The lines of a frame, and the blank line that ends it. -/
structure Ended (f line blank : Bytes) : Prop where
  eq : f = line ++ blank
  spelling : blank = [CR] ∨ blank = [LF] ∨ blank = [CR, LF]
  ends : ∀ b, blank.head? = some b → (LineState.start.run line).ends b = true

theorem scanIn_frame (hst : LineState.start.run cur = st) (h : cut st cur t = ([f], [])) :
    ∃ line blank, Ended f line blank ∧
      (∀ s, Apart f s → scanIn st (t ++ s) cur.length = some (line.length, f.length)) := by
  induction st, cur, t using cut_induct with
  | nil st cur =>
    rw [cut_nil] at h
    cases h
  | step st cur b t hb ih =>
    rw [cut_step hb] at h
    have hafter : LineState.start.run (cur ++ [b]) = .after b := by
      rw [LineState.run_append, LineState.run_cons, LineState.run_nil]
    obtain ⟨line, blank, hended, hscan⟩ := ih hafter h
    refine ⟨line, blank, hended, ?_⟩
    intro s hs
    rw [List.cons_append, scanIn_step hb, ← hscan s hs, List.length_append, List.length_singleton]
  | crlf st cur t hb ih =>
    rw [cut_crlf hb] at h
    obtain ⟨hframes, hrest⟩ := Prod.mk.inj h
    obtain ⟨rfl, hnone⟩ := List.cons.inj hframes
    obtain rfl := eq_nil_of_cut (Prod.ext hnone hrest)
    refine ⟨cur, [CR, LF], ⟨rfl, .inr (.inr rfl), ?_⟩, ?_⟩
    · intro b hhead
      obtain rfl : CR = b := Option.some.inj hhead
      rw [hst, hb]
    · intro s _
      exact (scanIn_crlf hb s cur.length).trans (by rw [List.length_append]; rfl)
  | one st cur b t hb ht ih =>
    rw [cut_one hb cur ht] at h
    obtain ⟨hframes, hrest⟩ := Prod.mk.inj h
    obtain ⟨rfl, hnone⟩ := List.cons.inj hframes
    obtain rfl := eq_nil_of_cut (Prod.ext hnone hrest)
    refine ⟨cur, [b], ⟨rfl, ?_, ?_⟩, ?_⟩
    · rcases LineState.eq_of_ends hb with rfl | rfl
      · exact .inl rfl
      · exact .inr (.inl rfl)
    · intro c hhead
      obtain rfl : b = c := Option.some.inj hhead
      rw [hst, hb]
    · intro s hs
      have hlone : b = CR → s.head? ≠ some LF := by
        rintro rfl
        exact hs List.getLast?_concat
      rw [List.singleton_append, scanIn_one hb hlone, List.length_append, List.length_singleton]

theorem Whole.scan (h : Whole f) :
    ∃ line blank, Ended f line blank ∧ ∀ s, Apart f s →
      scan (f ++ s) 0 = some (line.length, f.length) := by
  obtain ⟨line, blank, hended, hscan⟩ := scanIn_frame (LineState.run_nil .start) h
  refine ⟨line, blank, hended, ?_⟩
  intro s hs
  exact (scan_append [] (f ++ s)).trans (hscan s hs)

theorem scanIn_of_nil (h : (cut st cur s).1 = []) (i : Nat) : scanIn st s i = none := by
  induction st, cur, s using cut_induct generalizing i with
  | nil st cur => exact scanIn_nil st i
  | step st cur b s hb ih =>
    rw [cut_step hb] at h
    rw [scanIn_step hb, ih h]
  | crlf st cur s hb ih =>
    rw [cut_crlf hb] at h
    cases h
  | one st cur b s hb hs ih =>
    rw [cut_one hb cur hs] at h
    cases h

theorem scan_of_nil (h : (cut .start [] s).1 = []) : scan s 0 = none :=
  (scan_append [] s).trans (scanIn_of_nil h 0)

end Sse
end Aisix
