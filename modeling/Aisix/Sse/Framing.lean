import Mathlib.Data.List.Basic

/-!
# Aisix.Sse.Framing

Cutting an event stream into frames, one byte at a time: a line ends in a line feed, a carriage
return or the two together, and a blank line ends a frame. Only the carriage return looks ahead, and
at a chunk's end there is nothing to look at, so the line feed of a cut pair opens the next frame.

* `glue`           — moves every such line feed back behind its carriage return.
* `glue_cutChunks` — glued, the frames are the same however the stream was cut into chunks.
* `glue_cut`       — a stream cut in one piece has nothing to glue.
-/

namespace Aisix
namespace Sse

abbrev Bytes := List UInt8

def CR : UInt8 := 13

def LF : UInt8 := 10

theorem CR_ne_LF : CR ≠ LF := by decide

theorem LF_ne_CR : LF ≠ CR := by decide

/-- Where the next byte stands in its line. -/
inductive LineState where
  | start
  | afterCr
  | inside
  deriving DecidableEq, Repr

/-- The state after a byte does not depend on the state before it. -/
def LineState.after (b : UInt8) : LineState :=
  if b = CR then .afterCr else if b = LF then .start else .inside

/-- Whether `b` completes a blank line. A line feed after a carriage return completes nothing. -/
def LineState.ends : LineState → UInt8 → Bool
  | .start, b => b == CR || b == LF
  | .afterCr, b => b == CR
  | .inside, _ => false

def LineState.run (st : LineState) (s : Bytes) : LineState := s.foldl (fun _ b => .after b) st

@[simp] theorem LineState.run_nil (st : LineState) : st.run [] = st := rfl

@[simp] theorem LineState.run_cons (st : LineState) (b : UInt8) (s : Bytes) :
    st.run (b :: s) = (LineState.after b).run s := rfl

theorem LineState.run_append (st : LineState) (s t : Bytes) :
    st.run (s ++ t) = (st.run s).run t := by
  simp [LineState.run]

@[simp] theorem LineState.after_CR : LineState.after CR = .afterCr := rfl

@[simp] theorem LineState.after_LF : LineState.after LF = .start := rfl

@[simp] theorem LineState.afterCr_ends_LF : LineState.afterCr.ends LF = false := rfl

@[simp] theorem LineState.start_ends_LF : LineState.start.ends LF = true := rfl

theorem LineState.eq_of_ends {st : LineState} {b : UInt8} (h : st.ends b = true) :
    b = CR ∨ b = LF := by
  cases st with
  | start => simpa [LineState.ends] using h
  | afterCr => exact .inl (by simpa [LineState.ends] using h)
  | inside => simp [LineState.ends] at h

/-- The frames that end among the bytes `s`, and the unfinished frame, which already holds `cur`. -/
def cut : LineState → Bytes → Bytes → List Bytes × Bytes
  | _, cur, [] => ([], cur)
  | st, cur, [b] => if st.ends b then ([cur ++ [b]], []) else ([], cur ++ [b])
  | st, cur, b :: c :: s =>
    if st.ends b then
      if b = CR ∧ c = LF then
        let r := cut .start [] s
        ((cur ++ [CR, LF]) :: r.1, r.2)
      else
        let r := cut (.after b) [] (c :: s)
        ((cur ++ [b]) :: r.1, r.2)
    else cut (.after b) (cur ++ [b]) (c :: s)

@[simp] theorem cut_nil (st : LineState) (cur : Bytes) : cut st cur [] = ([], cur) := by
  simp [cut]

theorem cut_step {st : LineState} {b : UInt8} (h : st.ends b = false) (cur s : Bytes) :
    cut st cur (b :: s) = cut (.after b) (cur ++ [b]) s := by
  cases s <;> simp [cut, h]

theorem cut_crlf {st : LineState} (h : st.ends CR = true) (cur s : Bytes) :
    cut st cur (CR :: LF :: s) =
      ((cur ++ [CR, LF]) :: (cut .start [] s).1, (cut .start [] s).2) := by
  simp [cut, h]

theorem cut_one {st : LineState} {b : UInt8} (h : st.ends b = true) (cur : Bytes) {s : Bytes}
    (hs : b = CR → s.head? ≠ some LF) :
    cut st cur (b :: s) = ((cur ++ [b]) :: (cut (.after b) [] s).1, (cut (.after b) [] s).2) := by
  cases s with
  | nil => simp [cut, h]
  | cons c s =>
    have hbc : ¬(b = CR ∧ c = LF) := fun ⟨hb, hc⟩ => hs hb (by simp [hc])
    simp [cut, h, hbc]

/-- A byte inside a frame, a frame that ends in the pair, a frame that ends in one byte. -/
theorem cut_induct {motive : LineState → Bytes → Bytes → Prop} (nil : ∀ st cur, motive st cur [])
    (step : ∀ st cur b s, st.ends b = false → motive (.after b) (cur ++ [b]) s →
      motive st cur (b :: s))
    (crlf : ∀ st cur s, st.ends CR = true → motive .start [] s → motive st cur (CR :: LF :: s))
    (one : ∀ st cur b s, st.ends b = true → (b = CR → s.head? ≠ some LF) → motive (.after b) [] s →
      motive st cur (b :: s))
    (st : LineState) (cur s : Bytes) : motive st cur s := by
  induction hn : s.length using Nat.strongRecOn generalizing st cur s with
  | _ n ih =>
    cases s with
    | nil => exact nil st cur
    | cons b s =>
      simp only [List.length_cons] at hn
      cases hb : st.ends b with
      | false => exact step st cur b s hb (ih s.length (by omega) _ _ s rfl)
      | true =>
        by_cases hpair : b = CR ∧ s.head? = some LF
        · obtain ⟨rfl, hlf⟩ := hpair
          obtain ⟨t, rfl⟩ := List.head?_eq_some_iff.mp hlf
          simp only [List.length_cons] at hn
          exact crlf st cur t hb (ih t.length (by omega) _ _ t rfl)
        · exact one st cur b s hb (fun hcr hlf => hpair ⟨hcr, hlf⟩)
            (ih s.length (by omega) _ _ s rfl)

/-- The frames, then the unfinished one. -/
def pieces (r : List Bytes × Bytes) : List Bytes := r.1 ++ [r.2]

@[simp] theorem pieces_cons (f : Bytes) (fs : List Bytes) (r : Bytes) :
    pieces (f :: fs, r) = f :: pieces (fs, r) := rfl

@[simp] theorem pieces_nil (r : Bytes) : pieces ([], r) = [r] := rfl

theorem flatten_pieces (r : List Bytes × Bytes) : (pieces r).flatten = r.1.flatten ++ r.2 := by
  simp [pieces]

theorem flatten_cut (st : LineState) (cur s : Bytes) :
    (pieces (cut st cur s)).flatten = cur ++ s := by
  induction st, cur, s using cut_induct with
  | nil st cur => simp
  | step st cur b s hb ih => rw [cut_step hb, ih]; simp
  | crlf st cur s hb ih => rw [cut_crlf hb, pieces_cons, List.flatten_cons, ih]; simp
  | one st cur b s hb hs ih => rw [cut_one hb cur hs, pieces_cons, List.flatten_cons, ih]; simp

theorem pieces_cut_append (st : LineState) (x cur s : Bytes) :
    pieces (cut st (x ++ cur) s) = (pieces (cut st cur s)).modifyHead (x ++ ·) := by
  induction st, cur, s using cut_induct with
  | nil st cur => simp
  | step st cur b s hb ih => rw [cut_step hb, cut_step hb, ← ih, List.append_assoc]
  | crlf st cur s hb ih => simp [cut_crlf hb]
  | one st cur b s hb hs ih => simp [cut_one hb _ hs]

theorem cut_afterCr (cur : Bytes) {s : Bytes} (hs : s.head? ≠ some LF) :
    cut .afterCr cur s = cut .start cur s := by
  cases s with
  | nil => simp
  | cons b s =>
    have hb : b ≠ LF := fun h => hs (by simp [h])
    have hsame : LineState.afterCr.ends b = LineState.start.ends b := by simp [LineState.ends, hb]
    cases hend : LineState.start.ends b with
    | false => rw [cut_step (hsame.trans hend), cut_step hend]
    | true =>
      by_cases hpair : b = CR ∧ s.head? = some LF
      · obtain ⟨rfl, hlf⟩ := hpair
        obtain ⟨t, rfl⟩ := List.head?_eq_some_iff.mp hlf
        rw [cut_crlf (hsame.trans hend), cut_crlf hend]
      · have hlone : b = CR → s.head? ≠ some LF := fun hcr hlf => hpair ⟨hcr, hlf⟩
        rw [cut_one (hsame.trans hend) cur hlone, cut_one hend cur hlone]

theorem cut_afterCr_LF (s : Bytes) : cut .afterCr [] (LF :: s) = cut .start [LF] s := by
  rw [cut_step LineState.afterCr_ends_LF]
  rfl

/-! ### Moving the line feed of a cut pair back -/

/-- Puts `f` before the pieces, and behind it the line feed that completes its last carriage return.
-/
def attach (f : Bytes) : List Bytes → List Bytes
  | [] => [f]
  | g :: ps =>
    if f.getLast? = some CR ∧ g.head? = some LF then (f ++ [LF]) :: g.tail :: ps else f :: g :: ps

def glue (ps : List Bytes) : List Bytes := ps.foldr attach []

@[simp] theorem glue_cons (f : Bytes) (ps : List Bytes) : glue (f :: ps) = attach f (glue ps) := rfl

theorem attach_of_getLast? {f : Bytes} (h : f.getLast? ≠ some CR) (ps : List Bytes) :
    attach f ps = f :: ps := by
  cases ps <;> simp [attach, h]

theorem glue_append_congr (fs : List Bytes) {ps qs : List Bytes} (h : glue ps = glue qs) :
    glue (fs ++ ps) = glue (fs ++ qs) := by
  induction fs with
  | nil => simpa using h
  | cons f fs ih => simp only [List.cons_append, glue_cons, ih]

theorem glue_modifyHead (ps : List Bytes) :
    glue (ps.modifyHead (LF :: ·)) = (glue ps).modifyHead (LF :: ·) := by
  cases ps with
  | nil => rfl
  | cons p ps =>
    have hlast : (LF :: p).getLast? = some CR ↔ p.getLast? = some CR := by
      cases p with
      | nil => simp [LF_ne_CR]
      | cons b p => simp [List.getLast?_cons_cons]
    rw [List.modifyHead_cons, glue_cons, glue_cons]
    cases hrest : glue ps with
    | nil => rfl
    | cons g gs => simp only [attach, hlast]; split <;> rfl

theorem glue_ne_nil {ps : List Bytes} (h : ps ≠ []) : glue ps ≠ [] := by
  cases ps with
  | nil => exact absurd rfl h
  | cons p ps =>
    rw [glue_cons]
    cases glue ps with
    | nil => simp [attach]
    | cons g gs => simp only [attach]; split <;> simp

/-- The two halves of a cut pair: the carriage return ended its frame, and the line feed came first
in the next chunk. -/
theorem attach_cut_LF (cur t : Bytes) :
    attach (cur ++ [CR]) (glue (pieces (cut .afterCr [] (LF :: t)))) =
      (cur ++ [CR, LF]) :: glue (pieces (cut .start [] t)) := by
  have hhead : pieces (cut .start [LF] t) = (pieces (cut .start [] t)).modifyHead (LF :: ·) :=
    pieces_cut_append .start [LF] [] t
  rw [cut_afterCr_LF, hhead, glue_modifyHead]
  cases hrest : glue (pieces (cut .start [] t)) with
  | nil => exact absurd hrest (glue_ne_nil (by simp [pieces]))
  | cons g gs => simp [attach]

/-- **Glued, the frames of two chunks are those of the two in one.** -/
theorem glue_cut_append (st : LineState) (cur s t : Bytes) :
    glue ((cut st cur s).1 ++ pieces (cut (st.run s) (cut st cur s).2 t)) =
      glue (pieces (cut st cur (s ++ t))) := by
  induction st, cur, s using cut_induct with
  | nil st cur => simp
  | step st cur b s hb ih => rw [cut_step hb, List.cons_append, cut_step hb, LineState.run_cons, ih]
  | crlf st cur s hb ih =>
    simp only [cut_crlf hb, List.cons_append, LineState.run_cons, LineState.after_LF, glue_cons,
      pieces_cons, ih]
  | one st cur b s hb hs ih =>
    rw [cut_one hb cur hs, LineState.run_cons, List.cons_append, List.cons_append, glue_cons, ih]
    by_cases hpair : b = CR ∧ (s ++ t).head? = some LF
    · -- the chunk ended between the two bytes of the pair
      obtain ⟨rfl, hlf⟩ := hpair
      have hnil : s = [] := by
        cases s with
        | nil => rfl
        | cons c s => exact absurd (by simpa using hlf) (hs rfl)
      subst hnil
      obtain ⟨u, rfl⟩ := List.head?_eq_some_iff.mp hlf
      have hlast : (cur ++ [CR, LF]).getLast? ≠ some CR := by simp [LF_ne_CR]
      rw [List.nil_append, LineState.after_CR, attach_cut_LF, cut_crlf hb, pieces_cons, glue_cons,
        attach_of_getLast? hlast]
    · rw [cut_one hb cur fun hcr hlf => hpair ⟨hcr, hlf⟩, pieces_cons, glue_cons]

/-- The frames of a stream that arrives in chunks. -/
def cutChunks : LineState → Bytes → List Bytes → List Bytes × Bytes
  | _, cur, [] => ([], cur)
  | st, cur, c :: cs =>
    let r := cut st cur c
    let r' := cutChunks (st.run c) r.2 cs
    (r.1 ++ r'.1, r'.2)

/-- **However the stream arrives in chunks, the glued frames are those of the stream in one piece.**
-/
theorem glue_cutChunks (st : LineState) (cur : Bytes) (cs : List Bytes) :
    glue (pieces (cutChunks st cur cs)) = glue (pieces (cut st cur cs.flatten)) := by
  induction cs generalizing st cur with
  | nil => simp [cutChunks]
  | cons c cs ih =>
    have hpieces : pieces (cutChunks st cur (c :: cs)) =
        (cut st cur c).1 ++ pieces (cutChunks (st.run c) (cut st cur c).2 cs) := by
      simp [cutChunks, pieces]
    rw [hpieces, glue_append_congr _ (ih _ _), glue_cut_append, List.flatten_cons]

theorem head?_of_pieces {st : LineState} {s g : Bytes} {ps : List Bytes}
    (h : pieces (cut st [] s) = g :: ps) {b : UInt8} (hg : g.head? = some b) :
    s.head? = some b := by
  obtain ⟨g, rfl⟩ := List.head?_eq_some_iff.mp hg
  have hflat := flatten_cut st [] s
  rw [h, List.flatten_cons, List.nil_append] at hflat
  rw [← hflat, List.cons_append, List.head?_cons]

/-- **In a stream cut as one chunk every pair already stands together.** -/
theorem glue_cut (st : LineState) (cur s : Bytes) :
    glue (pieces (cut st cur s)) = pieces (cut st cur s) := by
  induction st, cur, s using cut_induct with
  | nil st cur => simp [glue, attach]
  | step st cur b s hb ih => rw [cut_step hb, ih]
  | crlf st cur s hb ih =>
    have hlast : (cur ++ [CR, LF]).getLast? ≠ some CR := by simp [LF_ne_CR]
    rw [cut_crlf hb, pieces_cons, glue_cons, ih, attach_of_getLast? hlast]
  | one st cur b s hb hs ih =>
    rw [cut_one hb cur hs, pieces_cons, glue_cons, ih]
    cases hrest : pieces (cut (.after b) [] s) with
    | nil => rfl
    | cons g ps =>
      have hapart : ¬((cur ++ [b]).getLast? = some CR ∧ g.head? = some LF) := fun ⟨hcr, hlf⟩ =>
        hs (by simpa using hcr) (head?_of_pieces hrest hlf)
      simp only [attach, hapart, if_false]

theorem glue_concat (fs : List Bytes) (r : Bytes) :
    ∃ gs r', glue (fs ++ [r]) = gs ++ [r'] ∧ (gs = [] → r' = r) ∧
      r'.length ≤ r.length ∧ r.length ≤ r'.length + 1 := by
  induction fs with
  | nil => exact ⟨[], r, rfl, fun _ => rfl, by omega, by omega⟩
  | cons f fs ih =>
    obtain ⟨gs, r', hglue, hsame, hle, hge⟩ := ih
    rw [List.cons_append, glue_cons, hglue]
    cases gs with
    | nil =>
      obtain rfl := hsame rfl
      by_cases hpair : f.getLast? = some CR ∧ r'.head? = some LF
      · refine ⟨[f ++ [LF]], r'.tail, by simp [attach, hpair], by simp, ?_, ?_⟩
        · rw [List.length_tail]; omega
        · rw [List.length_tail]; omega
      · exact ⟨[f], r', by simp [attach, hpair], by simp, by omega, by omega⟩
    | cons g gs =>
      by_cases hpair : f.getLast? = some CR ∧ g.head? = some LF
      · exact ⟨(f ++ [LF]) :: g.tail :: gs, r', by simp [attach, hpair], by simp, hle, hge⟩
      · exact ⟨f :: g :: gs, r', by simp [attach, hpair], by simp, hle, hge⟩

/-- The chunks leave the remainder of the whole stream, or that and the line feed of a cut pair. -/
theorem length_rest_cutChunks (st : LineState) (cur : Bytes) (cs : List Bytes) :
    (cut st cur cs.flatten).2.length ≤ (cutChunks st cur cs).2.length ∧
      (cutChunks st cur cs).2.length ≤ (cut st cur cs.flatten).2.length + 1 := by
  obtain ⟨gs, r', hglue, -, hle, hge⟩ := glue_concat (cutChunks st cur cs).1 (cutChunks st cur cs).2
  have hwhole : (cut st cur cs.flatten).1 ++ [(cut st cur cs.flatten).2] = gs ++ [r'] :=
    (glue_cut st cur cs.flatten).symm.trans ((glue_cutChunks st cur cs).symm.trans hglue)
  obtain ⟨-, hrest⟩ := List.append_inj' hwhole rfl
  obtain rfl : (cut st cur cs.flatten).2 = r' := by simpa using hrest
  exact ⟨hle, hge⟩

theorem flatten_cutChunks (st : LineState) (cur : Bytes) (cs : List Bytes) :
    (pieces (cutChunks st cur cs)).flatten = cur ++ cs.flatten := by
  induction cs generalizing st cur with
  | nil => simp [cutChunks]
  | cons c cs ih =>
    have hrest := ih (st.run c) (cut st cur c).2
    have hfirst := flatten_cut st cur c
    rw [flatten_pieces] at hrest hfirst ⊢
    simp only [cutChunks, List.flatten_append, List.flatten_cons, List.append_assoc]
    rw [hrest, ← List.append_assoc, hfirst, List.append_assoc]

end Sse
end Aisix
