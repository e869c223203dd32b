import Mathlib.Data.List.Basic

/-!
# Aisix.Delimited

Words built by concatenation, and when their parts can be read back.

* A segment that does not contain the delimiter `c` ends where `c` first stands (`segment_inj`,
  `last_inj`), or where the word ends (`Tail`).
* A letter-wise encoding whose code words are not empty and none of which begins another is
  injective (`flatMap_injective`).
* `alias_iff`: what remains ambiguous when a free segment stands in front of a delimited one.
-/

namespace Aisix
namespace Delimited

variable {α β : Type*} {c : α} {a b r r' : List α}

/-- What may stand after a segment: nothing, or the delimiter. -/
def Tail (c : α) (r : List α) : Prop := r = [] ∨ ∃ t, r = c :: t

theorem Tail.nil (c : α) : Tail c [] := .inl rfl

theorem Tail.cons (c : α) (t : List α) : Tail c (c :: t) := .inr ⟨t, rfl⟩

/-- A run of letters with `p` ends with the word or at the first letter without. -/
theorem span_inj {p : α → Prop} (ha : ∀ x ∈ a, p x) (hb : ∀ x ∈ b, p x)
    (hr : ∀ x t, r = x :: t → ¬ p x) (hr' : ∀ x t, r' = x :: t → ¬ p x) (h : a ++ r = b ++ r') :
    a = b ∧ r = r' := by
  rcases List.append_eq_append_iff.1 h with ⟨u, rfl, hu⟩ | ⟨u, rfl, hu⟩
  · -- `u` is the part of `b` after `a`, which `r` begins with
    cases u with
    | nil => exact ⟨(List.append_nil a).symm, hu⟩
    | cons x u => exact absurd (hb x (List.mem_append_right a List.mem_cons_self)) (hr x _ hu)
  · cases u with
    | nil => exact ⟨List.append_nil b, hu.symm⟩
    | cons x u => exact absurd (ha x (List.mem_append_right b List.mem_cons_self)) (hr' x _ hu)

theorem segment_inj (ha : c ∉ a) (hb : c ∉ b) (hr : Tail c r) (hr' : Tail c r')
    (h : a ++ r = b ++ r') : a = b ∧ r = r' := by
  have hend : ∀ {r : List α}, Tail c r → ∀ x t, r = x :: t → ¬ x ≠ c := by
    rintro r (rfl | ⟨t, rfl⟩) x t' h
    · cases h
    · exact fun hne => hne (List.cons.inj h).1.symm
  exact span_inj (p := (· ≠ c)) (fun x hx heq => ha (heq ▸ hx)) (fun x hx heq => hb (heq ▸ hx))
    (hend hr) (hend hr') h

theorem segment_cons_inj (ha : c ∉ a) (hb : c ∉ b) (h : a ++ c :: r = b ++ c :: r') :
    a = b ∧ r = r' := by
  obtain ⟨hab, hr⟩ := segment_inj ha hb (.cons c r) (.cons c r') h
  exact ⟨hab, (List.cons.inj hr).2⟩

theorem segment_split {p s : List α} (hp : c ∉ p) (h : a ++ c :: r = p ++ s) :
    ∃ w, a = p ++ w ∧ w ++ c :: r = s := by
  rcases List.append_eq_append_iff.1 h with ⟨u, rfl, hu⟩ | ⟨u, rfl, hu⟩
  · cases u with
    | nil => exact ⟨[], by simp, by simpa using hu⟩
    | cons x u =>
      obtain rfl : c = x := (List.cons.inj hu).1
      exact absurd (List.mem_append_right a List.mem_cons_self) hp
  · exact ⟨u, rfl, hu.symm⟩

theorem last_inj (ha : c ∉ a) (hb : c ∉ b) (h : r ++ c :: a = r' ++ c :: b) : r = r' ∧ a = b := by
  have hrev := congrArg List.reverse h
  simp only [List.reverse_append, List.reverse_cons, List.append_assoc,
    List.singleton_append] at hrev
  obtain ⟨hab, hrr⟩ := segment_cons_inj (by simpa using ha) (by simpa using hb) hrev
  exact ⟨List.reverse_injective hrr, List.reverse_injective hab⟩

/-- The free segment `r'` runs on over the delimited segment `a` that follows `r` in the other word,
and on into the free rest. -/
def RunsOver (c : α) (r a n r' b n' : List α) : Prop :=
  ∃ u, r' = r ++ c :: a ++ u ∧ c :: n = u ++ c :: b ++ c :: n'

theorem RunsOver.eq {n n' : List α} (h : RunsOver c r a n r' b n') :
    r ++ c :: a ++ c :: n = r' ++ c :: b ++ c :: n' := by
  obtain ⟨u, rfl, hn⟩ := h
  rw [hn]
  simp

theorem runsOver_of_eq {n n' v : List α} (ha : c ∉ a) (hb : c ∉ b) (hne : a ≠ b)
    (h : c :: a ++ c :: n = v ++ (c :: b ++ c :: n')) : RunsOver c r a n (r ++ v) b n' := by
  cases v with
  | nil => exact absurd (segment_cons_inj ha hb (List.cons.inj h).2).1 hne
  | cons x v =>
    simp only [List.cons_append, List.cons.injEq] at h
    obtain ⟨rfl, h⟩ := h
    rcases List.append_eq_append_iff.1 h with ⟨u, rfl, hn⟩ | ⟨u, rfl, hn⟩
    · exact ⟨u, by simp, by simpa using hn⟩
    · -- `a` would contain the delimiter that follows `v`
      cases u with
      | nil => exact ⟨[], by simp, by simpa using hn.symm⟩
      | cons y u =>
        obtain rfl : c = y := (List.cons.inj hn).1
        exact absurd (List.mem_append_right v List.mem_cons_self) ha

/-- Two words of a free segment, a delimited one and a free rest can only agree on different
delimited segments when the free segment of one runs over the delimited one of the other. -/
theorem alias_iff {n n' : List α} (ha : c ∉ a) (hb : c ∉ b) (hne : a ≠ b) :
    r ++ c :: a ++ c :: n = r' ++ c :: b ++ c :: n' ↔
      RunsOver c r a n r' b n' ∨ RunsOver c r' b n' r a n := by
  constructor
  · intro h
    rw [List.append_assoc, List.append_assoc] at h
    rcases List.append_eq_append_iff.1 h with ⟨v, rfl, hv⟩ | ⟨v, rfl, hv⟩
    · exact .inl (runsOver_of_eq ha hb hne hv)
    · exact .inr (runsOver_of_eq hb ha hne.symm hv)
  · rintro (h | h)
    · exact h.eq
    · exact h.eq.symm

/-- What is encoded letter by letter up to a terminator can be read back, if no code word is empty
or begins another and none begins with the terminator. -/
theorem flatMap_until_inj {f : β → List α} (hne : ∀ x, f x ≠ []) (hpre : ∀ x y, f x <+: f y → x = y)
    (hstop : ∀ x t, f x ≠ c :: t) {l l' : List β}
    (h : l.flatMap f ++ c :: r = l'.flatMap f ++ c :: r') :
    l = l' ∧ r = r' := by
  have hword : ∀ {x : β} {s s' : List α}, c :: s = f x ++ s' → False := by
    intro x s s' heq
    cases hx : f x with
    | nil => exact hne x hx
    | cons y t =>
      rw [hx] at heq
      exact hstop x t (by rw [hx, ← (List.cons.inj heq).1])
  induction l generalizing l' with
  | nil =>
    cases l' with
    | nil => exact ⟨rfl, (List.cons.inj h).2⟩
    | cons y l' =>
      rw [List.flatMap_nil, List.flatMap_cons, List.append_assoc] at h
      exact (hword h).elim
  | cons x l ih =>
    cases l' with
    | nil =>
      rw [List.flatMap_nil, List.flatMap_cons, List.append_assoc] at h
      exact (hword h.symm).elim
    | cons y l' =>
      rw [List.flatMap_cons, List.flatMap_cons, List.append_assoc, List.append_assoc] at h
      have hxy : x = y := by
        rcases List.append_eq_append_iff.1 h with ⟨u, hu, -⟩ | ⟨u, hu, -⟩
        · exact hpre x y ⟨u, hu.symm⟩
        · exact (hpre y x ⟨u, hu.symm⟩).symm
      subst hxy
      obtain ⟨rfl, hr⟩ := ih (List.append_cancel_left h)
      exact ⟨rfl, hr⟩

/-- A letter-wise encoding can be read back if no code word is empty or begins another. -/
theorem flatMap_injective {f : β → List α} (hne : ∀ x, f x ≠ [])
    (hpre : ∀ x y, f x <+: f y → x = y) : Function.Injective (List.flatMap f) := by
  intro l
  induction l with
  | nil =>
    intro l' h
    cases l' with
    | nil => rfl
    | cons y l' =>
      rw [List.flatMap_nil, List.flatMap_cons] at h
      exact absurd (List.append_eq_nil_iff.1 h.symm).1 (hne y)
  | cons x l ih =>
    intro l' h
    cases l' with
    | nil =>
      rw [List.flatMap_nil, List.flatMap_cons] at h
      exact absurd (List.append_eq_nil_iff.1 h).1 (hne x)
    | cons y l' =>
      rw [List.flatMap_cons, List.flatMap_cons] at h
      have hxy : x = y := by
        rcases List.append_eq_append_iff.1 h with ⟨u, hu, -⟩ | ⟨u, hu, -⟩
        · exact hpre x y ⟨u, hu.symm⟩
        · exact (hpre y x ⟨u, hu.symm⟩).symm
      subst hxy
      rw [ih (List.append_cancel_left h)]

theorem notMem_of_mem_splitOn [DecidableEq α] {l : List α} : ∀ w ∈ l.splitOn c, c ∉ w := by
  induction l with
  | nil =>
    intro w hw
    rw [List.mem_singleton.mp hw]
    exact List.not_mem_nil
  | cons d l ih =>
    rw [List.splitOn_cons_eq_if_modifyHead]
    split
    · intro w hw
      rcases List.mem_cons.mp hw with rfl | hw
      · exact List.not_mem_nil
      · exact ih w hw
    · next hd =>
      cases hsplit : l.splitOn c with
      | nil => exact absurd hsplit (List.splitOn_ne_nil c l)
      | cons w ws =>
        rw [hsplit] at ih
        obtain ⟨hhead, htail⟩ := List.forall_mem_cons.mp ih
        rw [List.modifyHead_cons]
        refine List.forall_mem_cons.mpr ⟨?_, htail⟩
        intro hmem
        rcases List.mem_cons.mp hmem with rfl | hmem
        · exact hd (beq_self_eq_true c)
        · exact hhead hmem

end Delimited
end Aisix
