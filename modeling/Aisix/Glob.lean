import Aisix.Delimited
import Mathlib.Data.List.Infix

/-!
# Aisix.Glob

Patterns in which one letter, the star, stands for any word: the words a pattern matches
(`Matches`), written with the gaps filled in (`matches_iff_fill`), and a pattern with a star at both
ends as a list of pieces to be found one after the other (`matches_starred_iff`).
-/

namespace Aisix
namespace Glob

variable {α : Type*} {star c : α} {p q s : List α}

/-- The words of a pattern: a letter stands for itself, a star for any word. -/
inductive Matches (star : α) : List α → List α → Prop where
  | nil : Matches star [] []
  | gap {p s : List α} (g : List α) : Matches star p s → Matches star (star :: p) (g ++ s)
  | letter {c : α} {p s : List α} : c ≠ star → Matches star p s → Matches star (c :: p) (c :: s)

theorem matches_nil_iff : Matches star [] s ↔ s = [] := by
  constructor
  · intro h
    cases h
    rfl
  · rintro rfl
    exact .nil

theorem matches_star_iff : Matches star (star :: p) s ↔ ∃ g t, s = g ++ t ∧ Matches star p t := by
  constructor
  · intro h
    cases h with
    | gap g h => exact ⟨g, _, rfl, h⟩
    | letter hc h => exact absurd rfl hc
  · rintro ⟨g, t, rfl, h⟩
    exact .gap g h

theorem matches_letter_iff (hc : c ≠ star) :
    Matches star (c :: p) s ↔ ∃ t, s = c :: t ∧ Matches star p t := by
  constructor
  · intro h
    cases h with
    | gap g h => exact absurd rfl hc
    | letter _ h => exact ⟨_, rfl, h⟩
  · rintro ⟨t, rfl, h⟩
    exact .letter hc h

theorem matches_append_iff :
    Matches star (p ++ q) s ↔ ∃ a b, s = a ++ b ∧ Matches star p a ∧ Matches star q b := by
  induction p generalizing s with
  | nil => simp [matches_nil_iff]
  | cons c p ih =>
    rw [List.cons_append]
    by_cases hc : c = star
    · subst hc
      constructor
      · intro h
        obtain ⟨g, t, rfl, ht⟩ := matches_star_iff.1 h
        obtain ⟨a, b, rfl, ha, hb⟩ := ih.1 ht
        exact ⟨g ++ a, b, (List.append_assoc g a b).symm, .gap g ha, hb⟩
      · rintro ⟨a, b, rfl, ha, hb⟩
        obtain ⟨g, t, rfl, ht⟩ := matches_star_iff.1 ha
        rw [List.append_assoc]
        exact .gap g (ih.2 ⟨t, b, rfl, ht, hb⟩)
    · constructor
      · intro h
        obtain ⟨t, rfl, ht⟩ := (matches_letter_iff hc).1 h
        obtain ⟨a, b, rfl, ha, hb⟩ := ih.1 ht
        exact ⟨c :: a, b, rfl, .letter hc ha, hb⟩
      · rintro ⟨a, b, rfl, ha, hb⟩
        obtain ⟨t, rfl, ht⟩ := (matches_letter_iff hc).1 ha
        exact .letter hc (ih.2 ⟨t, b, rfl, ht, hb⟩)

theorem matches_literal_iff (h : star ∉ p) : Matches star p s ↔ s = p := by
  induction p generalizing s with
  | nil => exact matches_nil_iff
  | cons c p ih =>
    have hc : c ≠ star := fun heq => h (List.mem_cons.2 (.inl heq.symm))
    rw [matches_letter_iff hc]
    constructor
    · rintro ⟨t, rfl, ht⟩
      rw [(ih fun hmem => h (List.mem_cons_of_mem c hmem)).1 ht]
    · rintro rfl
      exact ⟨p, rfl, (ih fun hmem => h (List.mem_cons_of_mem c hmem)).2 rfl⟩

theorem matches_single_iff (hp : star ∉ p) (hq : star ∉ q) :
    Matches star (p ++ star :: q) s ↔ ∃ g, s = p ++ g ++ q := by
  rw [matches_append_iff]
  constructor
  · rintro ⟨a, b, rfl, ha, hb⟩
    obtain ⟨g, t, rfl, ht⟩ := matches_star_iff.1 hb
    rw [(matches_literal_iff hp).1 ha, (matches_literal_iff hq).1 ht]
    exact ⟨g, (List.append_assoc p g q).symm⟩
  · rintro ⟨g, rfl⟩
    exact ⟨p, g ++ q, List.append_assoc p g q, (matches_literal_iff hp).2 rfl,
      .gap g ((matches_literal_iff hq).2 rfl)⟩

/-! ### Filling -/

section Fill

variable [DecidableEq α]

/-- The pattern with the given words in place of its stars, in order. -/
def fill (star : α) : List α → List (List α) → List α
  | [], _ => []
  | c :: p, gaps =>
    if c = star then gaps.headD [] ++ fill star p gaps.tail else c :: fill star p gaps

theorem matches_fill (p : List α) (gaps : List (List α)) : Matches star p (fill star p gaps) := by
  induction p generalizing gaps with
  | nil => exact .nil
  | cons c p ih =>
    unfold fill
    split
    · next hc =>
      subst hc
      exact .gap _ (ih _)
    · next hc => exact .letter hc (ih gaps)

/-- The words of a pattern are the pattern with one word in place of each star. -/
theorem matches_iff_fill : Matches star p s ↔ ∃ gaps : List (List α),
    gaps.length = p.count star ∧ s = fill star p gaps := by
  constructor
  · intro h
    induction h with
    | nil => exact ⟨[], rfl, rfl⟩
    | @gap p s g _ ih =>
      obtain ⟨gaps, hlength, rfl⟩ := ih
      exact ⟨g ::
        gaps, by
        rw [List.count_cons_self, List.length_cons, hlength], by rw [fill, if_pos rfl]; rfl⟩
    | @letter c p s hc _ ih =>
      obtain ⟨gaps, hlength, rfl⟩ := ih
      exact ⟨gaps, by rw [List.count_cons_of_ne hc, hlength], by rw [fill, if_neg hc]⟩
  · rintro ⟨gaps, -, rfl⟩
    exact matches_fill p gaps

theorem fill_literal (h : star ∉ p) (gaps : List (List α)) : fill star p gaps = p :=
  (matches_literal_iff h).1 (matches_fill p gaps)

theorem fill_single (hp : star ∉ p) (hq : star ∉ q) (g : List α) :
    fill star (p ++ star :: q) [g] = p ++ g ++ q := by
  induction p with
  | nil =>
    rw [List.nil_append, List.nil_append, fill, if_pos rfl, fill_literal hq]
    rfl
  | cons c p ih =>
    have hc : c ≠ star := fun heq => hp (List.mem_cons.2 (.inl heq.symm))
    rw [List.cons_append, fill, if_neg hc, ih fun hmem => hp (List.mem_cons_of_mem c hmem)]
    rfl

end Fill

/-! ### Pieces in order -/

/-- The pieces stand in the word one after the other, with anything before, between and after them.
-/
def Scattered : List (List α) → List α → Prop
  | [], _ => True
  | part :: parts, s => ∃ g t, s = g ++ (part ++ t) ∧ Scattered parts t

theorem Scattered.append {parts : List (List α)} (g : List α) (h : Scattered parts s) :
    Scattered parts (g ++ s) := by
  cases parts with
  | nil => trivial
  | cons part parts =>
    obtain ⟨g', t, rfl, h⟩ := h
    exact ⟨g ++ g', t, (List.append_assoc g g' _).symm, h⟩

theorem scattered_filter_iff (parts : List (List α)) :
    Scattered (parts.filter fun part => !part.isEmpty) s ↔ Scattered parts s := by
  induction parts generalizing s with
  | nil => rfl
  | cons part parts ih =>
    cases part with
    | nil =>
      constructor
      · intro h
        exact ⟨[], s, rfl, ih.1 h⟩
      · rintro ⟨g, t, rfl, h⟩
        exact (ih.2 h).append g
    | cons c part =>
      constructor
      · rintro ⟨g, t, rfl, h⟩
        exact ⟨g, t, rfl, ih.1 h⟩
      · rintro ⟨g, t, rfl, h⟩
        exact ⟨g, t, rfl, ih.2 h⟩

theorem matches_pieces_iff {parts : List (List α)} (hne : parts ≠ [])
    (h : ∀ part ∈ parts, star ∉ part) :
    Matches star (star :: ([star].intercalate parts ++ [star])) s ↔ Scattered parts s := by
  induction parts generalizing s with
  | nil => exact absurd rfl hne
  | cons part rest ih =>
    have hpart : star ∉ part := h part List.mem_cons_self
    have hlast : ∀ {u : List α}, Matches star [star] u := fun {u} => List.append_nil u ▸ .gap u .nil
    rcases eq_or_ne rest [] with rfl | hrest
    · rw [List.intercalate_singleton, matches_star_iff]
      constructor
      · rintro ⟨g, u, rfl, hu⟩
        obtain ⟨a, b, rfl, ha, -⟩ := matches_append_iff.1 hu
        rw [(matches_literal_iff hpart).1 ha]
        exact ⟨g, b, rfl, trivial⟩
      · rintro ⟨g, t, rfl, -⟩
        exact ⟨g, part ++ t, rfl,
          matches_append_iff.2 ⟨part, t, rfl, (matches_literal_iff hpart).2 rfl, hlast⟩⟩
    · have ih :=
        fun {u : List α} => ih (s := u) hrest fun w hw => h w (List.mem_cons_of_mem part hw)
      rw [List.intercalate_cons_of_ne_nil hrest, List.append_assoc, List.append_assoc,
        matches_star_iff]
      constructor
      · rintro ⟨g, u, rfl, hu⟩
        obtain ⟨a, b, rfl, ha, hb⟩ := matches_append_iff.1 hu
        rw [(matches_literal_iff hpart).1 ha]
        exact ⟨g, b, rfl, ih.1 hb⟩
      · rintro ⟨g, t, rfl, ht⟩
        exact ⟨g, part ++ t, rfl,
          matches_append_iff.2 ⟨part, t, rfl, (matches_literal_iff hpart).2 rfl, ih.2 ht⟩⟩

/-- A pattern with a star at both ends: the pieces between its stars, one after the other. -/
theorem matches_starred_iff [DecidableEq α] (middle : List α) :
    Matches star (star :: (middle ++ [star])) s ↔
      Scattered ((middle.splitOn star).filter fun part => !part.isEmpty) s := by
  rw [scattered_filter_iff,
    ← matches_pieces_iff (List.splitOn_ne_nil star middle) Delimited.notMem_of_mem_splitOn,
    List.intercalate_splitOn]

end Glob
end Aisix
