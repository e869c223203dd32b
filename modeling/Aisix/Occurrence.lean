import Mathlib.Data.List.Infix

/-!
# Aisix.Occurrence

Where a word can occur in a text put together of parts: never across a letter that it does not have,
so within one of the parts that such a letter separates (`infix_intercalate_iff`), and within one
run of blocks where the other blocks share no letter with it (`exists_run_of_infix`).
-/

namespace Aisix
namespace Occurrence

variable {α : Type*} {word a b : List α} {c : α}

theorem infix_append_cons_iff (hc : c ∉ word) :
    word <:+: a ++ c :: b ↔ word <:+: a ∨ word <:+: b := by
  constructor
  · rintro ⟨s, t, h⟩
    rcases List.append_eq_append_iff.mp h with ⟨u, rfl, -⟩ | ⟨u, hsw, hcb⟩
    · exact .inl ⟨s, u, rfl⟩
    · cases u with
      | nil =>
        rw [List.append_nil] at hsw
        exact .inl ⟨s, [], by rw [List.append_nil, hsw]⟩
      | cons d u =>
        obtain ⟨rfl, rfl⟩ := List.cons.inj hcb
        -- the letter stands in front of the word or within it
        rcases List.append_eq_append_iff.mp hsw with ⟨w, -, hw⟩ | ⟨w, -, hw⟩
        · exact absurd (hw ▸ List.mem_append_right w List.mem_cons_self) hc
        · cases w with
          | nil => exact absurd ((List.nil_append word ▸ hw) ▸ List.mem_cons_self) hc
          | cons e w =>
            obtain ⟨-, rfl⟩ := List.cons.inj hw
            exact .inr ⟨w, t, rfl⟩
  · rintro (h | h)
    · exact h.trans (List.prefix_append a _).isInfix
    · exact h.trans ((List.suffix_cons c b).trans (List.suffix_append a _)).isInfix

theorem infix_nil_iff (hword : word ≠ []) : ¬ word <:+: [] := fun h => hword (List.infix_nil.mp h)

theorem infix_cons_iff (hword : word ≠ []) (hc : c ∉ word) : word <:+: c :: b ↔ word <:+: b := by
  have h := infix_append_cons_iff (a := []) (b := b) hc
  rw [List.nil_append] at h
  rw [h]
  exact or_iff_right (infix_nil_iff hword)

theorem infix_append_iff (hword : word ≠ []) (ha : ∀ x ∈ a, x ∉ word) :
    word <:+: a ++ b ↔ word <:+: b := by
  induction a with
  | nil => rfl
  | cons x a ih =>
    rw [List.cons_append, infix_cons_iff hword (ha x List.mem_cons_self)]
    exact ih fun y hy => ha y (List.mem_cons_of_mem x hy)

section Joined

variable {parts rest : List (List α)} {part : List α}

theorem intercalate_cons_of_ne (h : rest ≠ []) :
    [c].intercalate (part :: rest) = part ++ c :: [c].intercalate rest := by
  rw [List.intercalate_cons_of_ne_nil h, List.append_assoc, List.singleton_append]

theorem infix_intercalate_of_mem (h : part ∈ parts) : part <:+: [c].intercalate parts := by
  induction parts with
  | nil => cases h
  | cons first rest ih =>
    rcases eq_or_ne rest [] with rfl | hrest
    · rw [List.intercalate_singleton, List.mem_singleton.mp h]
    · rw [intercalate_cons_of_ne hrest]
      rcases List.mem_cons.mp h with rfl | h
      · exact (List.prefix_append _ _).isInfix
      · exact (ih h).trans ((List.suffix_cons c _).trans (List.suffix_append first _)).isInfix

theorem infix_intercalate_iff (hword : word ≠ []) (hc : c ∉ word) :
    word <:+: [c].intercalate parts ↔ ∃ part ∈ parts, word <:+: part := by
  constructor
  · intro h
    induction parts with
    | nil => exact absurd h (infix_nil_iff hword)
    | cons part rest ih =>
      rcases eq_or_ne rest [] with rfl | hrest
      · rw [List.intercalate_singleton] at h
        exact ⟨part, List.mem_singleton_self part, h⟩
      · rw [intercalate_cons_of_ne hrest] at h
        rcases (infix_append_cons_iff hc).mp h with h | h
        · exact ⟨part, List.mem_cons_self, h⟩
        · obtain ⟨later, hlater, hstands⟩ := ih h
          exact ⟨later, List.mem_cons_of_mem _ hlater, hstands⟩
  · rintro ⟨part, hpart, h⟩
    exact h.trans (infix_intercalate_of_mem hpart)

end Joined

section Runs

variable {β : Type*} {text : β → List α} {own : β → Prop}

/-- A word stands in a run of blocks of its own where every other block has none of its letters. -/
theorem exists_run_of_infix (hword : word ≠ []) {blocks : List β}
    (hothers : ∀ b ∈ blocks, ¬ own b → text b ≠ [] ∧ ∀ x ∈ text b, x ∉ word)
    (h : word <:+: blocks.flatMap text) :
    ∃ pre mid post, blocks = pre ++ (mid ++ post) ∧ (∀ b ∈ mid, own b) ∧
      word <:+: mid.flatMap text := by
  by_cases hall : ∀ b ∈ blocks, own b
  · exact ⟨[], blocks, [], (List.append_nil blocks).symm, hall, h⟩
  · obtain ⟨b, hb, hown⟩ := not_forall₂.mp hall
    obtain ⟨left, right, rfl⟩ := List.append_of_mem hb
    obtain ⟨hne, hletters⟩ := hothers b hb hown
    obtain ⟨x, xs, htext⟩ := List.exists_cons_of_ne_nil hne
    rw [List.flatMap_append, List.flatMap_cons, htext, List.cons_append] at h
    rw [htext] at hletters
    -- the block cuts the word off from one of its sides
    rcases (infix_append_cons_iff (hletters x List.mem_cons_self)).mp h with h | h
    · obtain ⟨pre, mid, post, rfl, hmid, hin⟩ := exists_run_of_infix hword
        (fun b hb => hothers b (List.mem_append_left _ hb)) h
      exact ⟨pre, mid, post ++ b :: right, by simp only [List.append_assoc], hmid, hin⟩
    · rw [infix_append_iff hword fun y hy => hletters y (List.mem_cons_of_mem x hy)] at h
      obtain ⟨pre, mid, post, rfl, hmid, hin⟩ := exists_run_of_infix hword
        (fun b hb => hothers b (List.mem_append_right _ (List.mem_cons_of_mem _ hb))) h
      exact ⟨left ++ b :: pre, mid, post, by simp only [List.append_assoc, List.cons_append], hmid,
        hin⟩
  termination_by blocks.length

end Runs

end Occurrence
end Aisix
