import Mathlib.Data.List.Induction

/-!
# Aisix.Past

What a list says but for a tail of it: `Past p R` looks past last elements with `p`, `EndsIn R` at
the last one.
-/

namespace Aisix

variable {α β : Type*} {p : α → Prop} {R : α → Prop} {Q : List α → Prop} {l : List α} {x : α}

/-- The list says `Q`, but for a tail whose elements all have `p`. -/
def Past (p : α → Prop) (Q : List α → Prop) (l : List α) : Prop :=
  ∃ l' tail, l = l' ++ tail ∧ (∀ x ∈ tail, p x) ∧ Q l'

/-- The last element has `R`. -/
def EndsIn (R : α → Prop) (l : List α) : Prop := ∃ l' x, l = l' ++ [x] ∧ R x

theorem not_endsIn_nil : ¬ EndsIn R [] := by
  rintro ⟨l', x, h, -⟩
  cases l' <;> cases h

@[simp] theorem endsIn_snoc : EndsIn R (l ++ [x]) ↔ R x := by
  constructor
  · rintro ⟨l', y, h, hy⟩
    obtain ⟨-, rfl⟩ :=
      List.concat_inj.1 ((List.concat_eq_append).trans (h.trans List.concat_eq_append.symm))
    exact hy
  · exact fun h => ⟨l, x, rfl, h⟩

theorem Past.of (h : Q l) : Past p Q l :=
  ⟨l, [], (List.append_nil l).symm, fun _ hx => absurd hx List.not_mem_nil, h⟩

theorem past_nil : Past p Q [] ↔ Q [] := by
  constructor
  · rintro ⟨l', tail, h, -, hl'⟩
    obtain ⟨rfl, rfl⟩ := List.append_eq_nil_iff.1 h.symm
    exact hl'
  · exact Past.of

theorem past_snoc : Past p Q (l ++ [x]) ↔ Q (l ++ [x]) ∨ p x ∧ Past p Q l := by
  constructor
  · rintro ⟨l', tail, h, htail, hl'⟩
    rcases List.eq_nil_or_concat tail with rfl | ⟨tail, y, rfl⟩
    · rw [h, List.append_nil]
      exact .inl hl'
    · rw [List.concat_eq_append] at h htail
      rw [← List.append_assoc] at h
      obtain ⟨rfl, hxy⟩ := List.append_inj' h rfl
      obtain rfl : x = y := List.head_eq_of_cons_eq hxy
      exact .inr ⟨htail x (List.mem_append_right _ List.mem_cons_self), l', tail, rfl,
        fun z hz => htail z (List.mem_append_left _ hz), hl'⟩
  · rintro (h | ⟨hx, l', tail, rfl, htail, hl'⟩)
    · exact Past.of h
    · refine ⟨l', tail ++ [x], List.append_assoc l' tail [x], fun z hz => ?_, hl'⟩
      rcases List.mem_append.1 hz with hz | hz
      · exact htail z hz
      · rwa [List.mem_singleton.1 hz]

theorem past_snoc_of_pos (hx : p x) (hQ : ¬ Q (l ++ [x])) : Past p Q (l ++ [x]) ↔ Past p Q l := by
  rw [past_snoc]
  exact ⟨fun h => (h.resolve_left hQ).2, fun h => .inr ⟨hx, h⟩⟩

theorem past_snoc_of_neg (hx : ¬ p x) : Past p Q (l ++ [x]) ↔ Q (l ++ [x]) := by
  rw [past_snoc]
  exact ⟨fun h => h.resolve_right fun h => hx h.1, .inl⟩

theorem endsIn_map {f : α → β} {R : β → Prop} (l : List α) :
    EndsIn R (l.map f) ↔ EndsIn (fun x => R (f x)) l := by
  rcases List.eq_nil_or_concat l with rfl | ⟨l, x, rfl⟩
  · exact ⟨fun h => absurd h not_endsIn_nil, fun h => absurd h not_endsIn_nil⟩
  · rw [List.concat_eq_append, List.map_append, List.map_singleton, endsIn_snoc, endsIn_snoc]

theorem past_map {f : α → β} {p : β → Prop} {Q : List β → Prop} (l : List α) :
    Past p Q (l.map f) ↔ Past (fun x => p (f x)) (fun l => Q (l.map f)) l := by
  induction l using List.reverseRecOn with
  | nil => rw [List.map_nil, past_nil, past_nil, List.map_nil]
  | append_singleton l x ih =>
    rw [List.map_append, List.map_singleton, past_snoc, past_snoc, ih, List.map_append,
      List.map_singleton]

theorem endsIn_congr {R' : α → Prop} (h : ∀ x, R x ↔ R' x) : EndsIn R l ↔ EndsIn R' l := by
  obtain rfl : R = R' := funext fun x => propext (h x)
  exact Iff.rfl

theorem past_congr {p' : α → Prop} {Q' : List α → Prop} (hp : ∀ x, p x ↔ p' x)
    (hQ : ∀ l, Q l ↔ Q' l) : Past p Q l ↔ Past p' Q' l := by
  obtain rfl : p = p' := funext fun x => propext (hp x)
  obtain rfl : Q = Q' := funext fun l => propext (hQ l)
  exact Iff.rfl

theorem past_append_of_neg {m : List α} (hm : m ≠ []) (h : ∀ x ∈ m, ¬ p x) :
    Past p Q (l ++ m) ↔ Q (l ++ m) := by
  rcases List.eq_nil_or_concat m with rfl | ⟨m, x, rfl⟩
  · exact absurd rfl hm
  · rw [List.concat_eq_append] at h ⊢
    rw [← List.append_assoc]
    exact past_snoc_of_neg (h x (List.mem_append_right _ List.mem_cons_self))

theorem past_endsIn_append {m : List α} (h : ∀ x ∈ m, p x) :
    Past p (EndsIn R) (l ++ m) ↔ (∃ x ∈ m, R x) ∨ Past p (EndsIn R) l := by
  induction m using List.reverseRecOn with
  | nil =>
    rw [List.append_nil]
    exact ⟨.inr, fun h => h.resolve_left fun ⟨x, hx, _⟩ => absurd hx List.not_mem_nil⟩
  | append_singleton m x ih =>
    have hx : p x := h x (List.mem_append_right _ List.mem_cons_self)
    rw [← List.append_assoc, past_snoc, endsIn_snoc, ih fun y hy => h y (List.mem_append_left _ hy)]
    constructor
    · rintro (hR | ⟨-, ⟨y, hy, hR⟩ | hl⟩)
      · exact .inl ⟨x, List.mem_append_right _ List.mem_cons_self, hR⟩
      · exact .inl ⟨y, List.mem_append_left _ hy, hR⟩
      · exact .inr hl
    · rintro (⟨y, hy, hR⟩ | hl)
      · rcases List.mem_append.1 hy with hy | hy
        · exact .inr ⟨hx, .inl ⟨y, hy, hR⟩⟩
        · exact .inl (List.mem_singleton.1 hy ▸ hR)
      · exact .inr ⟨hx, .inr hl⟩

theorem not_past_endsIn_append {m : List α} (hm : m ≠ []) (h : ∀ x ∈ m, ¬ p x ∧ ¬ R x) :
    ¬ Past p (EndsIn R) (l ++ m) := by
  rw [past_append_of_neg hm fun x hx => (h x hx).1]
  rcases List.eq_nil_or_concat m with rfl | ⟨m, x, rfl⟩
  · exact absurd rfl hm
  · rw [List.concat_eq_append] at h ⊢
    rw [← List.append_assoc, endsIn_snoc]
    exact (h x (List.mem_append_right _ List.mem_cons_self)).2

theorem forall_places_cons {P : List α → α → Prop} :
    (∀ pre y post, x :: l = pre ++ y :: post → P pre y) ↔
    P [] x ∧ ∀ pre y post, l = pre ++ y :: post → P (x :: pre) y := by
  constructor
  · exact fun h => ⟨h [] x l rfl, fun pre y post hl => h (x :: pre) y post (congrArg (x :: ·) hl)⟩
  · rintro ⟨hx, hl⟩ pre y post h
    cases pre with
    | nil =>
      cases h
      exact hx
    | cons z pre =>
      cases h
      exact hl pre y post rfl

end Aisix
