import Aisix.Lts

/-!
# Aisix.Tasks

Tasks that share a state, each running a body of its own one call at a time, in any order.

* `Prog`    — a body: calls `i` with answers `ρ i`, and a result. A monad, so that bodies read as
  the code does.
* `System`  — what a call does to the shared state, what else may happen to it, and the body of each
  job.
* `Rules`   — an invariant of the shared state, and what each task relies on the others to leave
  alone.
* `Safe`    — whatever the others do within the rules, every call keeps to them and the result meets
  `Q`.

`run_safe` carries `Safe` through every interleaving; `Safe.done`, `Safe.op` and `Safe.bind` are the
rules by which a body is shown safe. `run_refines` replaces the shared state by one that answers the
same.
-/

namespace Aisix

/-- A body of a task. -/
inductive Prog (ι : Type) (ρ : ι → Type) (α : Type) where
  | done (a : α)
  | call (i : ι) (next : ρ i → Prog ι ρ α)

namespace Prog

variable {ι : Type} {ρ : ι → Type} {α β : Type}

def bind : Prog ι ρ α → (α → Prog ι ρ β) → Prog ι ρ β
  | done a, f => f a
  | call i next, f => call i fun r => (next r).bind f

instance : Monad (Prog ι ρ) where
  pure := done
  bind := bind

/-- One call, answered with what it answers. -/
def op (i : ι) : Prog ι ρ (ρ i) := call i done

@[simp] theorem pure_eq (a : α) : (pure a : Prog ι ρ α) = done a := rfl
@[simp] theorem done_bind (a : α) (f : α → Prog ι ρ β) : (done a >>= f : Prog ι ρ β) = f a := rfl
@[simp] theorem call_bind (i : ι) (next : ρ i → Prog ι ρ α) (f : α → Prog ι ρ β) :
    (call i next >>= f : Prog ι ρ β) = call i fun r => next r >>= f := rfl
@[simp] theorem op_bind (i : ι) (f : ρ i → Prog ι ρ β) : (op i >>= f : Prog ι ρ β) = call i f := rfl

end Prog

namespace Tasks

/-- `exec` gives the answer of a call of the task of that number under the choice `χ`; `env` is
everything else. -/
structure System (σ J ι : Type) (ρ : ι → Type) (χ ε α : Type) where
  exec : σ → Nat → (i : ι) → χ → Option (ρ i × σ)
  env : σ → ε → Option σ
  body : J → Prog ι ρ α

/-- The shared state, and each task with its job and what is left of its body. -/
structure World (σ J ι : Type) (ρ : ι → Type) (α : Type) where
  shared : σ
  tasks : List (J × Prog ι ρ α)

inductive Label (J χ ε : Type) where
  | start (j : J)
  | call (n : Nat) (choice : χ)
  | env (e : ε)

variable {σ J ι : Type} {ρ : ι → Type} {χ ε α β : Type}

def World.init (s : σ) : World σ J ι ρ α := ⟨s, []⟩

/-- What a task has come to, if it has. -/
def World.result (w : World σ J ι ρ α) (n : Nat) : Option (J × α) :=
  match w.tasks[n]? with
  | some (j, .done a) => some (j, a)
  | _ => none

def step (sys : System σ J ι ρ χ ε α) (w : World σ J ι ρ α) : Label J χ ε → Option (World σ J ι ρ α)
  | .start j => some { w with tasks := w.tasks ++ [(j, sys.body j)] }
  | .call n choice =>
    match w.tasks[n]? with
    | some (j, .call i next) =>
      (sys.exec w.shared n i choice).map fun out => ⟨out.2, w.tasks.set n (j, next out.1)⟩
    | _ => none
  | .env e => (sys.env w.shared e).map fun s => { w with shared := s }

/-- An invariant, what task `n` relies on, and what holds of task `n` until it starts. -/
structure Rules (σ : Type) where
  Inv : σ → Prop
  Rely : Nat → σ → σ → Prop
  Fresh : Nat → σ → Prop
  refl : ∀ n s, Rely n s s
  trans : ∀ n s t u, Rely n s t → Rely n t u → Rely n s u
  fresh : ∀ n s t, Rely n s t → Fresh n s → Fresh n t

section Rules

variable (exec : σ → Nat → (i : ι) → χ → Option (ρ i × σ)) (r : Rules σ) (n : Nat)

/-- One call keeps the invariant and what the other tasks rely on, and gives `Q`. -/
def Call (i : ι) (Q : ρ i → σ → Prop) (s : σ) : Prop :=
  ∀ t, r.Rely n s t → r.Inv t → ∀ choice a u, exec t n i choice = some (a, u) →
    r.Inv u ∧ (∀ m, m ≠ n → r.Rely m t u) ∧ Q a u

def Safe (Q : α → σ → Prop) : Prog ι ρ α → σ → Prop
  | .done a, s => ∀ t, r.Rely n s t → Q a t
  | .call i next, s => Call exec r n i (fun a u => Safe Q (next a) u) s

end Rules

section Safety

variable {exec : σ → Nat → (i : ι) → χ → Option (ρ i × σ)} {r : Rules σ} {n : Nat}
    {Q : α → σ → Prop}

theorem Safe.rely {p : Prog ι ρ α} {s t : σ} (h : Safe exec r n Q p s) (hst : r.Rely n s t) :
    Safe exec r n Q p t := by
  cases p with
  | done a => exact fun u hu => h u (r.trans n s t u hst hu)
  | call i next => exact fun u hu => h u (r.trans n s t u hst hu)

theorem Safe.result {a : α} {s : σ} (h : Safe exec r n Q (.done a) s) : Q a s := h s (r.refl n s)

theorem Safe.done {a : α} {s : σ} (h : ∀ t, r.Rely n s t → Q a t) : Safe exec r n Q (.done a) s := h

theorem Safe.op {i : ι} {next : ρ i → Prog ι ρ α} {s : σ}
    (h : Call exec r n i (fun a u => Safe exec r n Q (next a) u) s) :
    Safe exec r n Q (.call i next) s := h

theorem Safe.bind {p : Prog ι ρ β} {f : β → Prog ι ρ α} :
    ∀ {s : σ}, Safe exec r n (fun b t => Safe exec r n Q (f b) t) p s →
      Safe exec r n Q (p >>= f) s := by
  induction p with
  | done b => exact fun h => h.result
  | call i next ih =>
    intro s h t hst ht choice a u hexec
    obtain ⟨hu, hothers, hnext⟩ := h t hst ht choice a u hexec
    exact ⟨hu, hothers, ih a hnext⟩

theorem Safe.imp {Q' : α → σ → Prop} {p : Prog ι ρ α} (hQ : ∀ a t, Q a t → Q' a t) :
    ∀ {s : σ}, Safe exec r n Q p s → Safe exec r n Q' p s := by
  induction p with
  | done a => exact fun h t hst => hQ a t (h t hst)
  | call i next ih =>
    intro s h t hst ht choice a u hexec
    obtain ⟨hu, hothers, hnext⟩ := h t hst ht choice a u hexec
    exact ⟨hu, hothers, ih a hnext⟩

end Safety

/-- The invariant holds, and every task is safe where it stands. -/
structure Kept (sys : System σ J ι ρ χ ε α) (r : Rules σ) (Q : J → Nat → α → σ → Prop)
    (w : World σ J ι ρ α) : Prop where
  inv : r.Inv w.shared
  tasks : ∀ n j p, w.tasks[n]? = some (j, p) → Safe sys.exec r n (Q j n) p w.shared
  fresh : ∀ n, w.tasks.length ≤ n → r.Fresh n w.shared

variable {sys : System σ J ι ρ χ ε α} {r : Rules σ} {Q : J → Nat → α → σ → Prop}

theorem Kept.init {s : σ} (hinv : r.Inv s) (hfresh : ∀ n, r.Fresh n s) :
    Kept sys r Q (.init s) where
  inv := hinv
  tasks := by simp [World.init]
  fresh := fun n _ => hfresh n

theorem Kept.start {w : World σ J ι ρ α} (h : Kept sys r Q w)
    (hbody : ∀ j n s, r.Inv s → r.Fresh n s → Safe sys.exec r n (Q j n) (sys.body j) s) (j : J) :
    Kept sys r Q { w with tasks := w.tasks ++ [(j, sys.body j)] } where
  inv := h.inv
  tasks n j' p hn := by
    rcases lt_trichotomy n w.tasks.length with hlt | rfl | hlt
    · exact h.tasks n j' p (by simpa [List.getElem?_append_left hlt] using hn)
    · obtain ⟨rfl, rfl⟩ : j = j' ∧ sys.body j = p := by simpa using hn
      exact hbody j _ _ h.inv (h.fresh _ (le_refl _))
    · rw [List.getElem?_eq_none (by simp; omega)] at hn
      cases hn
  fresh n hn := h.fresh n (by simp only [List.length_append, List.length_singleton] at hn; omega)

theorem Kept.call {w : World σ J ι ρ α} (h : Kept sys r Q w) {n : Nat} {j : J} {i : ι}
    {next : ρ i → Prog ι ρ α} {choice : χ} {a : ρ i} {s : σ}
    (hn : w.tasks[n]? = some (j, .call i next))
    (hexec : sys.exec w.shared n i choice = some (a, s)) :
    Kept sys r Q ⟨s, w.tasks.set n (j, next a)⟩ := by
  obtain ⟨hinv, hothers, hnext⟩ := h.tasks n j _ hn w.shared (r.refl n _) h.inv choice a s hexec
  have hlen : n < w.tasks.length := (List.getElem?_eq_some_iff.1 hn).1
  refine ⟨hinv, fun m j' p hm => ?_, fun m hm => ?_⟩
  · by_cases hmn : m = n
    · subst hmn
      obtain ⟨rfl, rfl⟩ : j = j' ∧ next a = p := by simpa [hlen] using hm
      exact hnext
    · have hm' : w.tasks[m]? = some (j', p) := by
        simpa [List.getElem?_set_ne (fun heq => hmn heq.symm)] using hm
      exact (h.tasks m j' p hm').rely (hothers m hmn)
  · have hm' : w.tasks.length ≤ m := by simpa using hm
    exact r.fresh m _ _ (hothers m (by omega)) (h.fresh m hm')

theorem Kept.env {w : World σ J ι ρ α} (h : Kept sys r Q w) {s : σ} (hinv : r.Inv s)
    (hrely : ∀ n, r.Rely n w.shared s) : Kept sys r Q { w with shared := s } where
  inv := hinv
  tasks := fun n j p hn => (h.tasks n j p hn).rely (hrely n)
  fresh := fun n hn => r.fresh n _ _ (hrely n) (h.fresh n hn)

theorem Kept.step {w w' : World σ J ι ρ α} {l : Label J χ ε} (h : Kept sys r Q w)
    (hbody : ∀ j n s, r.Inv s → r.Fresh n s → Safe sys.exec r n (Q j n) (sys.body j) s)
    (henv : ∀ s e s', r.Inv s → sys.env s e = some s' → r.Inv s' ∧ ∀ n, r.Rely n s s')
    (hstep : step sys w l = some w') :
    Kept sys r Q w' := by
  cases l with
  | start j =>
    obtain rfl := Option.some.inj hstep
    exact h.start hbody j
  | call n choice =>
    simp only [Tasks.step] at hstep
    split at hstep
    · next j i next hn =>
      obtain ⟨⟨a, s⟩, hexec, rfl⟩ := Option.map_eq_some_iff.1 hstep
      exact h.call hn hexec
    · cases hstep
  | env e =>
    obtain ⟨s, hs, rfl⟩ := Option.map_eq_some_iff.1 hstep
    obtain ⟨hinv, hrely⟩ := henv _ _ _ h.inv hs
    exact h.env hinv hrely

/-- Whatever is started and in whatever order the calls are made, the rules are kept. -/
theorem run_safe {s : σ} (hinv : r.Inv s) (hfresh : ∀ n, r.Fresh n s)
    (hbody : ∀ j n s, r.Inv s → r.Fresh n s → Safe sys.exec r n (Q j n) (sys.body j) s)
    (henv : ∀ s e s', r.Inv s → sys.env s e = some s' → r.Inv s' ∧ ∀ n, r.Rely n s s')
    {ls : List (Label J χ ε)} {w : World σ J ι ρ α}
    (hrun : Lts.run (step sys) (.init s) ls = some w) : Kept sys r Q w :=
  Lts.run_invariant (fun _ _ _ h hstep => h.step hbody henv hstep) (Kept.init hinv hfresh) hrun

theorem Kept.result {w : World σ J ι ρ α} (h : Kept sys r Q w) {n : Nat} {j : J} {a : α}
    (hn : w.result n = some (j, a)) : Q j n a w.shared := by
  unfold World.result at hn
  split at hn
  · next j' a' htask =>
    obtain ⟨rfl, rfl⟩ := Prod.mk.inj (Option.some.inj hn)
    exact (h.tasks n _ _ htask).result
  · cases hn

/-! ## Replacing the shared state -/

section Refinement

variable {τ χ' ε' : Type} {abs : System τ J ι ρ χ' ε' α} {R : σ → τ → Prop}

theorem step_env {t' : τ} {tasks : List (J × Prog ι ρ α)} :
    ∀ {es : List ε'} {t : τ}, Lts.run abs.env t es = some t' →
      Lts.run (step abs) ⟨t, tasks⟩ (es.map .env) = some ⟨t', tasks⟩ := by
  intro es
  induction es with
  | nil =>
    intro t h
    obtain rfl := Option.some.inj h
    rfl
  | cons e es ih =>
    intro t h
    obtain ⟨u, hu, hrest⟩ := Lts.run_cons_some h
    simp [Lts.run, Tasks.step, hu, ih hrest]

/-- A step over a state that answers as some choice of the abstract one does, which may take other
steps of its own. -/
theorem step_refines (hbody : sys.body = abs.body)
    (hexec : ∀ s t n i c a s', R s t → sys.exec s n i c = some (a, s') →
      ∃ c' t', abs.exec t n i c' = some (a, t') ∧ R s' t')
    (henv : ∀ s t e s', R s t → sys.env s e = some s' → ∃ es t', Lts.run abs.env t es = some t' ∧
      R s' t')
    {w w' : World σ J ι ρ α} {l : Label J χ ε} {t : τ} (hR : R w.shared t)
    (hstep : step sys w l = some w') :
    ∃ ls t', Lts.run (step abs) ⟨t, w.tasks⟩ ls = some ⟨t', w'.tasks⟩ ∧ R w'.shared t' := by
  cases l with
  | start j =>
    obtain rfl := Option.some.inj hstep
    exact ⟨[.start j], t, by simp [Lts.run, Tasks.step, hbody], hR⟩
  | call n choice =>
    simp only [Tasks.step] at hstep
    split at hstep
    · next j i next hn =>
      obtain ⟨⟨a, s⟩, hs, rfl⟩ := Option.map_eq_some_iff.1 hstep
      obtain ⟨c', t', ht, hR'⟩ := hexec _ _ _ _ _ _ _ hR hs
      exact ⟨[.call n c'], t', by simp [Lts.run, Tasks.step, hn, ht], hR'⟩
    · cases hstep
  | env e =>
    obtain ⟨s, hs, rfl⟩ := Option.map_eq_some_iff.1 hstep
    obtain ⟨es, t', ht, hR'⟩ := henv _ _ _ _ hR hs
    exact ⟨es.map .env, t', step_env ht, hR'⟩

/-- What the tasks can come to over the one state they can come to over the other. -/
theorem run_refines (sys : System σ J ι ρ χ ε α) (abs : System τ J ι ρ χ' ε' α)
    (hbody : sys.body = abs.body)
    (hexec : ∀ s t n i c a s', R s t → sys.exec s n i c = some (a, s') →
      ∃ c' t', abs.exec t n i c' = some (a, t') ∧ R s' t')
    (henv : ∀ s t e s', R s t → sys.env s e = some s' → ∃ es t', Lts.run abs.env t es = some t' ∧
      R s' t')
    {ls : List (Label J χ ε)} :
    ∀ {w w' : World σ J ι ρ α} {t : τ}, R w.shared t → Lts.run (step sys) w ls = some w' →
      ∃ ls' t', Lts.run (step abs) ⟨t, w.tasks⟩ ls' = some ⟨t', w'.tasks⟩ ∧ R w'.shared t' := by
  induction ls with
  | nil =>
    intro w w' t hR hrun
    obtain rfl := Option.some.inj hrun
    exact ⟨[], t, rfl, hR⟩
  | cons l ls ih =>
    intro w w'' t hR hrun
    obtain ⟨w', hstep, hrest⟩ := Lts.run_cons_some hrun
    obtain ⟨ls₁, t', hrun₁, hR'⟩ := step_refines hbody hexec henv hR hstep
    obtain ⟨ls₂, t'', hrun₂, hR''⟩ := ih hR' hrest
    exact ⟨ls₁ ++ ls₂, t'', by rw [Lts.run_append, hrun₁, Option.bind_some, hrun₂], hR''⟩

end Refinement

end Tasks
end Aisix
