import Mathlib.Algebra.Order.Ring.Nat

/-!
# Aisix.Lts

Runs of a labelled step function, independent of what the steps do.

* `run step s as`        — the state after the labels `as`, or `none` when one is not enabled.
* `Meets step cond s as` — every step of that run meets the condition `cond` on its start state.
* `runOut step s as`     — the outputs of a total step function that answers every label.

`run_invariant` and `run_invariant_of_meets` are the induction every safety result goes through;
`runOut_eq_of_sim` is the lockstep simulation for two components that answer the same labels.
-/

namespace Aisix
namespace Lts

section Run

variable {σ α : Type*} {step : σ → α → Option σ} {cond : σ → α → Prop} {I : σ → Prop}

/-- The state after the labels `as`; `none` when some label is not enabled where it is taken. -/
def run (step : σ → α → Option σ) : σ → List α → Option σ
  | s, [] => some s
  | s, a :: as => (step s a).bind fun s' => run step s' as

/-- Every step of the run of `as` from `s` starts in a state that meets `cond` with its label. -/
def Meets (step : σ → α → Option σ) (cond : σ → α → Prop) : σ → List α → Prop
  | _, [] => True
  | s, a :: as => cond s a ∧ ∀ s' ∈ step s a, Meets step cond s' as

instance decidableMeets [∀ s a, Decidable (cond s a)] :
    (s : σ) → (as : List α) → Decidable (Meets step cond s as)
  | _, [] => inferInstanceAs (Decidable True)
  | s, a :: as =>
    have := fun s' => decidableMeets s' as
    inferInstanceAs (Decidable (cond s a ∧ ∀ s' ∈ step s a, Meets step cond s' as))

@[simp] theorem run_nil (s : σ) : run step s [] = some s := rfl

theorem run_cons_some {s s'' : σ} {a : α} {as : List α} (h : run step s (a :: as) = some s'') :
    ∃ s', step s a = some s' ∧ run step s' as = some s'' := by
  simpa [run, Option.bind_eq_some_iff] using h

theorem run_append (s : σ) (as bs : List α) :
    run step s (as ++ bs) = (run step s as).bind fun s' => run step s' bs := by
  induction as generalizing s with
  | nil => simp
  | cons a as ih =>
    cases h : step s a with
    | none => simp [run, h]
    | some s' => simp [run, h, ih]

theorem Meets.of_append {as bs : List α} :
    ∀ {s s' : σ}, Meets step cond s (as ++ bs) → run step s as = some s' →
      Meets step cond s as ∧ Meets step cond s' bs := by
  induction as with
  | nil =>
    intro s s' hm hr
    obtain rfl := Option.some.inj hr
    exact ⟨trivial, hm⟩
  | cons a as ih =>
    intro s s'' hm hr
    obtain ⟨s', hs, hr'⟩ := run_cons_some hr
    have hrest := ih (hm.2 s' hs) hr'
    refine ⟨⟨hm.1, fun t ht => ?_⟩, hrest.2⟩
    obtain rfl : s' = t := Option.some.inj (hs.symm.trans ht)
    exact hrest.1

theorem Meets.of_forall {p : α → Prop} {as : List α} (h : ∀ a ∈ as, p a) :
    ∀ s : σ, Meets step (fun _ a => p a) s as := by
  induction as with
  | nil => intro s; trivial
  | cons a as ih =>
    obtain ⟨ha, has⟩ := List.forall_mem_cons.1 h
    intro s
    exact ⟨ha, fun s' _ => ih has s'⟩

/-- What each step meeting `cond` preserves holds after a run whose steps all meet `cond`. -/
theorem run_invariant_of_meets
    (hstep : ∀ s a s', I s → cond s a → step s a = some s' → I s') {as : List α} :
    ∀ {s s' : σ}, I s → Meets step cond s as → run step s as = some s' → I s' := by
  induction as with
  | nil =>
    intro s s' hI _ hr
    simpa [run] using (show s = s' by simpa [run] using hr) ▸ hI
  | cons a as ih =>
    intro s s'' hI hm hr
    obtain ⟨s', hs, hr'⟩ := run_cons_some hr
    exact ih (hstep s a s' hI hm.1 hs) (hm.2 s' hs) hr'

theorem run_invariant (hstep : ∀ s a s', I s → step s a = some s' → I s') {as : List α} {s s' : σ}
    (hI : I s) (hr : run step s as = some s') : I s' := by
  have hm : Meets step (fun _ _ => True) s as := Meets.of_forall (fun _ _ => trivial) s
  exact run_invariant_of_meets (fun s a s' hI _ hs => hstep s a s' hI hs) hI hm hr

end Run

section Outputs

variable {σ τ α β : Type*}

/-- The outputs and the final state of a component that answers every label. -/
def runOut (step : σ → α → β × σ) : σ → List α → List β × σ
  | s, [] => ([], s)
  | s, a :: as =>
    let (b, s') := step s a
    let (bs, s'') := runOut step s' as
    (b :: bs, s'')

/-- Every step of the joint run of two components starts in a pair of states meeting `cond`. -/
def MeetsOut (f : σ → α → β × σ) (g : τ → α → β × τ) (cond : σ → τ → α → Prop) :
    σ → τ → List α → Prop
  | _, _, [] => True
  | s, t, a :: as => cond s t a ∧ MeetsOut f g cond (f s a).2 (g t a).2 as

theorem runOut_eq_of_sim {f : σ → α → β × σ} {g : τ → α → β × τ} {R : σ → τ → Prop}
    {cond : σ → τ → α → Prop}
    (hstep : ∀ s t a, R s t → cond s t a → (f s a).1 = (g t a).1 ∧ R (f s a).2 (g t a).2)
    {as : List α} :
    ∀ {s : σ} {t : τ}, R s t → MeetsOut f g cond s t as →
      (runOut f s as).1 = (runOut g t as).1 := by
  induction as with
  | nil => intro s t _ _; rfl
  | cons a as ih =>
    intro s t hR hm
    obtain ⟨hout, hR'⟩ := hstep s t a hR hm.1
    simp only [runOut, hout, ih hR' hm.2]

end Outputs

end Lts
end Aisix
