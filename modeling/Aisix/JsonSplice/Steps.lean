import Aisix.JsonSplice.Rewritten
import Aisix.JsonSplice.Tokens

/-!
# Aisix.JsonSplice.Steps

One turn of the scanner for each way a document goes on, and turns composed.

* `Steps v input c c'` — the scanner comes from `c` to `c'`.
* `Written input rest splices out` — what was read, with the replacements put in, is `out`.
* `Passes` — both, as a relation that composes.
-/

namespace Aisix
namespace JsonSplice

open Json Json.Syntax

variable {σ : Type} {v : Visitor σ} {input : List Char}

/-! ### What was written -/

/-- The text before `rest` has become `out`. -/
def Written (input rest : List Char) (splices : List ((Nat × Nat) × String)) (out : List Char) :
    Prop :=
  ∃ t, input = t ++ rest ∧ (∀ x ∈ splices, x.1.1 ≤ t.length ∧ x.1.2 ≤ t.length) ∧
    spliced t 0 splices = out

theorem spliced_append {t u : List Char} {splices : List ((Nat × Nat) × String)} :
    ∀ {copied : Nat}, copied ≤ t.length → (∀ x ∈ splices, x.1.1 ≤ t.length ∧ x.1.2 ≤ t.length) →
      spliced (t ++ u) copied splices = spliced t copied splices ++ u := by
  induction splices with
  | nil =>
    intro copied hcopied _
    exact List.drop_append_of_le_length hcopied
  | cons x splices ih =>
    intro copied hcopied hall
    obtain ⟨⟨start, stop⟩, new⟩ := x
    obtain ⟨⟨hstart, hstop⟩, hall⟩ := List.forall_mem_cons.mp hall
    have htake : start - copied ≤ (t.drop copied).length := by
      rw [List.length_drop]
      exact Nat.sub_le_sub_right hstart copied
    rw [spliced, spliced, ih hstop hall, List.drop_append_of_le_length hcopied,
      List.take_append_of_le_length htake, List.append_assoc, List.append_assoc]

theorem spliced_concat {t token : List Char} {new : String}
    {splices : List ((Nat × Nat) × String)} :
    ∀ {copied : Nat}, copied ≤ t.length → (∀ x ∈ splices, x.1.1 ≤ t.length ∧ x.1.2 ≤ t.length) →
      spliced (t ++ token) copied (splices ++ [((t.length, (t ++ token).length), new)]) =
        spliced t copied splices ++ quote new := by
  induction splices with
  | nil =>
    intro copied hcopied _
    have htake : t.length - copied = (t.drop copied).length := List.length_drop.symm
    rw [List.nil_append, spliced, spliced, spliced, List.drop_length, List.append_nil,
      List.drop_append_of_le_length hcopied, htake, List.take_left]
  | cons x splices ih =>
    intro copied hcopied hall
    obtain ⟨⟨start, stop⟩, old⟩ := x
    obtain ⟨⟨hstart, hstop⟩, hall⟩ := List.forall_mem_cons.mp hall
    have htake : start - copied ≤ (t.drop copied).length := by
      rw [List.length_drop]
      exact Nat.sub_le_sub_right hstart copied
    rw [List.cons_append, spliced, spliced, ih hstop hall, List.drop_append_of_le_length hcopied,
      List.take_append_of_le_length htake, List.append_assoc, List.append_assoc]

theorem written_start (input : List Char) : Written input input [] [] :=
  ⟨[], rfl, by simp, rfl⟩

theorem Written.keep {u rest out : List Char} {splices : List ((Nat × Nat) × String)}
    (h : Written input (u ++ rest) splices out) : Written input rest splices (out ++ u) := by
  obtain ⟨t, rfl, hall, rfl⟩ := h
  refine ⟨t ++ u, (List.append_assoc t u rest).symm, ?_, spliced_append (Nat.zero_le _) hall⟩
  intro x hx
  have hle := hall x hx
  rw [List.length_append]
  omega

theorem Written.replace {token rest out : List Char} {splices : List ((Nat × Nat) × String)}
    (new : String) (h : Written input (token ++ rest) splices out) :
    Written input rest (splices ++ [((Cfg.pos input (token ++ rest), Cfg.pos input rest), new)])
      (out ++ quote new) := by
  obtain ⟨t, rfl, hall, rfl⟩ := h
  have hstart : Cfg.pos (t ++ (token ++ rest)) (token ++ rest) = t.length := by simp [Cfg.pos]
  have hstop : Cfg.pos (t ++ (token ++ rest)) rest = (t ++ token).length := by
    simp only [Cfg.pos, List.length_append]
    omega
  refine ⟨t ++ token, (List.append_assoc t token rest).symm, ?_, ?_⟩
  · intro x hx
    rw [hstart, hstop] at hx
    rcases List.mem_append.mp hx with hx | hx
    · have hle := hall x hx
      rw [List.length_append]
      omega
    · rw [List.mem_singleton.mp hx, List.length_append]
      exact ⟨Nat.le_add_right _ _, Nat.le_refl _⟩
  · rw [hstart, hstop]
    exact spliced_concat (Nat.zero_le _) hall

theorem Written.eq_of_end {out : List Char} {splices : List ((Nat × Nat) × String)}
    (h : Written input [] splices out) : spliced input 0 splices = out := by
  obtain ⟨t, rfl, -, rfl⟩ := h
  rw [List.append_nil]

/-! ### Turns composed -/

inductive Steps (v : Visitor σ) (input : List Char) : Cfg σ → Cfg σ → Prop where
  | refl {c : Cfg σ} : Steps v input c c
  | cons {c c' c'' : Cfg σ} : c.step v input = .ok (.next c') → Steps v input c' c'' →
      Steps v input c c''

namespace Steps

theorem single {c c' : Cfg σ} (h : c.step v input = .ok (.next c')) : Steps v input c c' :=
  .cons h .refl

theorem trans {c c' c'' : Cfg σ} (h : Steps v input c c') (h' : Steps v input c' c'') :
    Steps v input c c'' := by
  induction h with
  | refl => exact h'
  | cons hs _ ih => exact .cons hs (ih h')

end Steps

/-- The scanner comes from `c` to `c'`, and the text between them becomes `out`. -/
structure Passes (v : Visitor σ) (input : List Char) (c c' : Cfg σ) (out : List Char)
    (changed : Bool) : Prop where
  steps : Steps v input c c'
  written : ∀ before, Written input c.rest c.splices before →
    Written input c'.rest c'.splices (before ++ out)
  splices : c'.splices = [] ↔ c.splices = [] ∧ changed = false

namespace Passes

theorem trans {c c' c'' : Cfg σ} {out out' : List Char} {changed changed' : Bool}
    (h : Passes v input c c' out changed) (h' : Passes v input c' c'' out' changed') :
    Passes v input c c'' (out ++ out') (changed || changed') where
  steps := h.steps.trans h'.steps
  written := by
    intro before hbefore
    rw [← List.append_assoc]
    exact h'.written _ (h.written _ hbefore)
  splices := by rw [h'.splices, h.splices, Bool.or_eq_false_iff, and_assoc]

theorem keep {c c' : Cfg σ} {u : List Char} (h : c.step v input = .ok (.next c'))
    (hrest : c.rest = u ++ c'.rest)
    (hsplices : c'.splices = c.splices) : Passes v input c c' u false where
  steps := .single h
  written := by
    intro before hbefore
    rw [hrest] at hbefore
    rw [hsplices]
    exact hbefore.keep
  splices := by simp [hsplices]

theorem cast {c c' : Cfg σ} {out out' : List Char} {changed changed' : Bool}
    (h : Passes v input c c' out changed)
    (hout : out = out') (hchanged : changed = changed') : Passes v input c c' out' changed' := by
  rw [← hout, ← hchanged]
  exact h

end Passes

/-! ### One turn each -/

/-- What may stand behind a value that is neither a string nor a container. -/
def Stops (r : List Char) : Prop := ∀ c t, r = c :: t → isTokenChar c = false

theorem stops_cons {c : Char} (hc : isTokenChar c = false) (r : List Char) : Stops (c :: r) := by
  rintro d t ⟨⟩
  exact hc

theorem stops_ws (w : Ws) {r : List Char} (hr : Stops r) : Stops (w.text ++ r) := by
  obtain ⟨text, blank⟩ := w
  cases text with
  | nil => exact hr
  | cons c text =>
    refine stops_cons ?_ _
    have hc := blank c List.mem_cons_self
    simp only [isWhitespace, Bool.or_eq_true, beq_iff_eq] at hc
    rcases hc with ((rfl | rfl) | rfl) | rfl <;> decide

/-- The first character of a value. -/
def ValueLead (c : Char) : Prop := c = '\x7b' ∨ c = '[' ∨ c = '\"' ∨ ScalarLead c

theorem exists_valueLead (n : Node) : ∃ c t, n.text = c :: t ∧ ValueLead c := by
  cases n with
  | scalar t =>
    obtain ⟨c, r, hcr, hc⟩ := exists_scalarLead t
    exact ⟨c, r, hcr, .inr (.inr (.inr hc))⟩
  | string t => exact ⟨'\"', _, rfl, .inr (.inr (.inl rfl))⟩
  | emptyArray ws => exact ⟨'[', _, rfl, .inr (.inl rfl)⟩
  | array lead first rest trail => exact ⟨'[', _, by rw [Node.text], .inr (.inl rfl)⟩
  | emptyObject ws => exact ⟨'\x7b', _, rfl, .inl rfl⟩
  | object lead name first rest trail => exact ⟨'\x7b', _, by rw [Node.text], .inl rfl⟩

theorem not_scalarLead {c : Char} (h : isTokenChar c = false) : ¬ ScalarLead c := by
  rintro (rfl | hdigit | rfl | rfl | rfl)
  · cases h
  · rw [isTokenChar_of_isDigit hdigit] at h
    cases h
  · cases h
  · cases h
  · cases h

theorem ValueLead.not_ws {c : Char} (h : ValueLead c) : isWhitespace c = false := by
  rw [Bool.eq_false_iff]
  intro hws
  simp only [isWhitespace, Bool.or_eq_true, beq_iff_eq] at hws
  rcases hws with ((rfl | rfl) | rfl) | rfl <;>
    (rcases h with h | h | h | h <;> first | exact absurd h (by decide) |
      exact not_scalarLead (by decide) h)

theorem ValueLead.ne_bracket {c : Char} (h : ValueLead c) : c ≠ ']' := by
  rintro rfl
  rcases h with h | h | h | h
  · exact absurd h (by decide)
  · exact absurd h (by decide)
  · exact absurd h (by decide)
  · exact not_scalarLead (by decide) h

theorem skipWs_node (w : Ws) (n : Node) (r : List Char) :
    skipWs (w.text ++ (n.text ++ r)) = n.text ++ r := by
  obtain ⟨c, t, hct, hc⟩ := exists_valueLead n
  rw [hct]
  exact skipWs_ws_cons w _ hc.not_ws

variable {path : List PathSeg} {frames : List Frame} {splices : List ((Nat × Nat) × String)} {s : σ}

theorem step_scalar (w : Ws) (t : Scalar) {r : List Char} (hr : Stops r) :
    Cfg.step v input ⟨.value, w.text ++ (t.text ++ r), path, frames, splices, s⟩ =
      .ok (.next ⟨.after, r, path, frames, splices, s⟩) := by
  obtain ⟨c, l, hcl, hlead⟩ := exists_scalarLead t
  have hskip : skipWs (w.text ++ (t.text ++ r)) = c :: (l ++ r) := by
    have h := skipWs_node w (.scalar t) r
    rw [Node.text] at h
    rw [h, hcl]
    rfl
  have hbrace : c ≠ '\x7b' := by rintro rfl; exact not_scalarLead (by decide) hlead
  have hbracket : c ≠ '[' := by rintro rfl; exact not_scalarLead (by decide) hlead
  have hquote : c ≠ '\"' := by rintro rfl; exact not_scalarLead (by decide) hlead
  have hrun := takeWhile_append_of_stop (isTokenChar_scalar t) hr
  rw [hcl, List.cons_append] at hrun
  have hscalar : isScalar (c :: l) = true := isScalar_iff.mpr ⟨t, hcl⟩
  simp only [Cfg.step, Cfg.valueStep, hskip, if_neg hbrace, if_neg hbracket, if_neg hquote]
  rw [if_pos (show c = '-' ∨ c.isDigit = true ∨ c = 't' ∨ c = 'f' ∨ c = 'n' from hlead)]
  simp only [Cfg.scanScalar, hrun.1, hrun.2, hscalar, if_true]

theorem step_emptyArray (w ws : Ws) (r : List Char) (hroom : frames.length + 1 ≤ MAX_JSON_DEPTH) :
    Cfg.step v input ⟨.value, w.text ++ ((Node.emptyArray ws).text ++ r), path,
      frames, splices, s⟩ = .ok (.next ⟨.after, r, path, frames, splices, s⟩) := by
  have hskip : skipWs (ws.text ++ ']' :: r) = ']' :: r := skipWs_ws_cons ws r (by decide)
  have hlimit : ¬ MAX_JSON_DEPTH < frames.length + 1 := by omega
  simp only [Cfg.step, Cfg.valueStep, skipWs_node]
  simp [Node.text, Cfg.openArray, hlimit, hskip]

theorem step_emptyObject (w ws : Ws) (r : List Char) (hroom : frames.length + 1 ≤ MAX_JSON_DEPTH) :
    Cfg.step v input ⟨.value, w.text ++ ((Node.emptyObject ws).text ++ r), path,
      frames, splices, s⟩ = .ok (.next ⟨.after, r, path, frames, splices, s⟩) := by
  have hskip : skipWs (ws.text ++ '\x7d' :: r) = '\x7d' :: r := skipWs_ws_cons ws r (by decide)
  have hlimit : ¬ MAX_JSON_DEPTH < frames.length + 1 := by omega
  simp only [Cfg.step, Cfg.valueStep, skipWs_node]
  simp [Node.text, Cfg.openObject, hlimit, hskip]

theorem step_openArray (w lead : Ws) (first : Node) (r : List Char)
    (hroom : frames.length + 1 ≤ MAX_JSON_DEPTH) :
    Cfg.step v input ⟨.value, w.text ++ '[' :: (lead.text ++ (first.text ++ r)), path,
      frames, splices, s⟩ =
      .ok (.next ⟨.value, first.text ++ r, .index 0 :: path, .array :: frames, splices, s⟩) := by
  have hlimit : ¬ MAX_JSON_DEPTH < frames.length + 1 := by omega
  have hskip := skipWs_node lead first r
  obtain ⟨c, t, hct, hc⟩ := exists_valueLead first
  rw [hct, List.cons_append] at hskip ⊢
  have hne : ¬ (c = ']') := hc.ne_bracket
  simp only [Cfg.step, Cfg.valueStep, skipWs_ws_cons w _ (by decide : isWhitespace '[' = false)]
  simp [Cfg.openArray, hlimit, hskip, hne]

theorem step_openObject (w lead : Ws) {name : Name} {key : String}
    (hkey : name.key.decode = some key) (r : List Char)
    (hroom : frames.length + 1 ≤ MAX_JSON_DEPTH) :
    Cfg.step v input ⟨.value, w.text ++ '\x7b' :: (lead.text ++ (name.upToColon ++ r)), path,
      frames, splices, s⟩ =
      .ok (.next ⟨.value, r, .key key :: path, .object :: frames, splices, s⟩) := by
  have hskip : skipWs (lead.text ++ (name.upToColon ++ r)) = name.upToColon ++ r :=
    skipWs_ws_cons lead _ (by decide : isWhitespace '\"' = false)
  have hlimit : ¬ MAX_JSON_DEPTH < frames.length + 1 := by omega
  have hhead : ¬ (name.upToColon ++ r).head? = some '\x7d' := by
    intro h
    exact absurd (Option.some.inj h) (by decide)
  simp only [Cfg.step, Cfg.valueStep, skipWs_ws_cons w _ (by decide : isWhitespace '\x7b' = false),
    if_true]
  simp only [Cfg.openObject, hlimit, if_false, hskip, hhead, scanName_name hkey, bind, Except.bind]

theorem step_nextItem {w : Ws} {i : Nat} (r : List Char) :
    Cfg.step v input ⟨.after, w.text ++ ',' :: r, .index i :: path, .array :: frames, splices, s⟩ =
      .ok (.next ⟨.value, r, .index (i + 1) :: path, .array :: frames, splices, s⟩) := by
  simp [Cfg.step, Cfg.afterStep, skipWs_ws_cons w _ (by decide : isWhitespace ',' = false)]

theorem step_closeArray {w : Ws} {seg : PathSeg} (r : List Char) :
    Cfg.step v input ⟨.after, w.text ++ ']' :: r, seg :: path, .array :: frames, splices, s⟩ =
      .ok (.next ⟨.after, r, path, frames, splices, s⟩) := by
  simp [Cfg.step, Cfg.afterStep, skipWs_ws_cons w _ (by decide : isWhitespace ']' = false)]

theorem step_nextMember (sep : Sep) {name : Name} {key : String} (hkey : name.key.decode = some key)
    {seg : PathSeg} (r : List Char) :
    Cfg.step v input ⟨.after, sep.text ++ (name.upToColon ++ r), seg :: path,
      .object :: frames, splices, s⟩ =
      .ok (.next ⟨.value, r, .key key :: path, .object :: frames, splices, s⟩) := by
  have hcomma :
      skipWs (sep.text ++ (name.upToColon ++ r)) = ',' ::
      (sep.after.text ++ (name.upToColon ++ r)) := by
    rw [Sep.text, List.append_assoc, List.cons_append]
    exact skipWs_ws_cons sep.before _ (by decide)
  have hskip : skipWs (sep.after.text ++ (name.upToColon ++ r)) = name.upToColon ++ r :=
    skipWs_ws_cons sep.after _ (by decide : isWhitespace '\"' = false)
  simp only [Cfg.step, Cfg.afterStep, hcomma, List.head?_cons, if_true, List.tail_cons, hskip,
    scanName_name hkey, bind, Except.bind]

theorem step_closeObject {w : Ws} {seg : PathSeg} (r : List Char) :
    Cfg.step v input ⟨.after, w.text ++ '\x7d' :: r, seg :: path, .object :: frames, splices, s⟩ =
      .ok (.next ⟨.after, r, path, frames, splices, s⟩) := by
  simp [Cfg.step, Cfg.afterStep, skipWs_ws_cons w _ (by decide : isWhitespace '\x7d' = false)]

theorem step_done (w : Ws) :
    Cfg.step v input ⟨.after, w.text, path, [], splices, s⟩ = .ok .done := by
  simp [Cfg.step, Cfg.afterStep, skipWs_ws]

end JsonSplice
end Aisix
