import Mathlib.Data.List.TakeWhile

/-!
# Aisix.LastTurn

The part of a conversation that nobody has answered yet: the entries after the last one that closes
a turn, where the last spoken entry closes none. It is the same part when every entry is written out
as several (`lastTurn_flatMap`).
-/

namespace Aisix
namespace LastTurn

variable {α β : Type}

/-- The spoken entries after the last one, before the last spoken one, that closes a turn. -/
def lastTurn (closes silent : α → Bool) (l : List α) : List α :=
  match l.reverse.dropWhile silent with
  | [] => []
  | z :: earlier => ((earlier.takeWhile fun a => !closes a).reverse ++ [z]).filter fun a =>
    !silent a

/-- Some turn has been closed before the last spoken entry. -/
def answered (closes silent : α → Bool) (l : List α) : Bool :=
  (l.reverse.dropWhile silent).tail.any closes

/-- A conversation, taken apart around its last turn. -/
structure Split (closes silent : α → Bool) (l before within : List α) (z : α) (after : List α) :
    Prop where
  eq : l = before ++ (within ++ z :: after)
  closed : ∀ b, before.getLast? = some b → closes b = true
  pending : ∀ a ∈ within, closes a = false
  spoken : silent z = false
  trailing : ∀ a ∈ after, silent a = true

section Split

variable {closes silent : α → Bool} {l before within after : List α} {z : α}

theorem exists_last {p : α → Bool} : ∀ {l : List α}, (∃ a ∈ l, p a = true) →
    ∃ xs a ys, l = xs ++ a :: ys ∧ p a = true ∧ ∀ y ∈ ys, p y = false
  | [], h => by
    obtain ⟨a, ha, -⟩ := h
    cases ha
  | a :: l, h => by
    by_cases hlater : ∃ b ∈ l, p b = true
    · obtain ⟨xs, b, ys, rfl, hb, hys⟩ := exists_last hlater
      exact ⟨a :: xs, b, ys, rfl, hb, hys⟩
    · have hnone : ∀ y ∈ l, p y = false :=
        fun y hy => Bool.eq_false_iff.mpr fun hp => hlater ⟨y, hy, hp⟩
      obtain ⟨b, hb, hpb⟩ := h
      rcases List.mem_cons.mp hb with rfl | hb
      · exact ⟨[], b, l, rfl, hpb, hnone⟩
      · exact absurd ⟨b, hb, hpb⟩ hlater

theorem exists_split (closes : α → Bool) (h : ∃ a ∈ l, silent a = false) :
    ∃ before within z after, Split closes silent l before within z after := by
  obtain ⟨xs, z, after, rfl, hz, hafter⟩ := exists_last (p := fun a => !silent a)
    (h.imp fun a ha => ⟨ha.1, by rw [ha.2]; rfl⟩)
  have hspoken : silent z = false := by simpa using hz
  have hsilent : ∀ a ∈ after, silent a = true := fun a ha => by simpa using hafter a ha
  by_cases hclosed : ∃ b ∈ xs, closes b = true
  · obtain ⟨ys, b, within, rfl, hb, hwithin⟩ := exists_last hclosed
    refine ⟨ys ++ [b], within, z, after, by simp, fun c hc => ?_, hwithin, hspoken, hsilent⟩
    rw [List.getLast?_concat] at hc
    rwa [← Option.some.inj hc]
  · have hopen : ∀ a ∈ xs, closes a = false :=
      fun a ha => Bool.eq_false_iff.mpr fun hb => hclosed ⟨a, ha, hb⟩
    exact ⟨[], xs, z, after, rfl, nofun, hopen, hspoken, hsilent⟩

theorem Split.dropWhile_eq (h : Split closes silent l before within z after) :
    l.reverse.dropWhile silent = z :: (within.reverse ++ before.reverse) := by
  have hreverse : l.reverse = after.reverse ++ (z :: (within.reverse ++ before.reverse)) := by
    rw [h.eq]
    simp
  rw [hreverse, List.dropWhile_append_of_pos fun a ha => h.trailing a (List.mem_reverse.mp ha),
    List.dropWhile_cons_of_neg (by rw [h.spoken]; decide)]

theorem Split.lastTurn_eq (h : Split closes silent l before within z after) :
    lastTurn closes silent l = (within ++ [z]).filter fun a => !silent a := by
  have htake : ((within.reverse ++ before.reverse).takeWhile fun a => !closes a) =
      within.reverse := by
    rw [List.takeWhile_append_of_pos fun a ha => by rw [h.pending a (List.mem_reverse.mp ha)]; rfl]
    cases hhead : before.reverse with
    | nil => exact List.append_nil _
    | cons b rest =>
      have hclosed : closes b = true :=
        h.closed b (by rw [← List.head?_reverse, hhead, List.head?_cons])
      rw [List.takeWhile_cons_of_neg (by rw [hclosed]; decide), List.append_nil]
  unfold lastTurn
  rw [h.dropWhile_eq]
  dsimp only
  rw [htake, List.reverse_reverse]

theorem Split.answered_eq (h : Split closes silent l before within z after) :
    answered closes silent l = !before.isEmpty := by
  unfold answered
  rw [h.dropWhile_eq, List.tail_cons, List.any_append, List.any_reverse, List.any_reverse]
  rw [List.any_eq_false.mpr fun a ha => by rw [h.pending a ha]; decide, Bool.false_or]
  cases hlast : before.getLast? with
  | none => rw [List.getLast?_eq_none_iff.mp hlast]; rfl
  | some b =>
    have hmem : b ∈ before := List.mem_of_getLast? hlast
    rw [List.any_eq_true.mpr ⟨b, hmem, h.closed b hlast⟩]
    cases before with
    | nil => cases hmem
    | cons _ _ => rfl

theorem lastTurn_of_silent (h : ∀ a ∈ l, silent a = true) : lastTurn closes silent l = [] := by
  unfold lastTurn
  rw [List.dropWhile_eq_nil_iff.mpr fun a ha => h a (List.mem_reverse.mp ha)]

theorem answered_of_silent (h : ∀ a ∈ l, silent a = true) : answered closes silent l = false := by
  unfold answered
  rw [List.dropWhile_eq_nil_iff.mpr fun a ha => h a (List.mem_reverse.mp ha)]
  rfl

theorem mem_of_mem_lastTurn {a : α} (h : a ∈ lastTurn closes silent l) :
    a ∈ l ∧ silent a = false := by
  rcases hdrop : l.reverse.dropWhile silent with - | ⟨z, earlier⟩
  · rw [lastTurn, hdrop] at h
    cases h
  · rw [lastTurn, hdrop] at h
    obtain ⟨ha, hspoken⟩ := List.mem_filter.mp h
    have hmem : a ∈ z :: earlier := by
      rcases List.mem_append.mp ha with ha | ha
      · exact List.mem_cons_of_mem _ (List.takeWhile_subset _ (List.mem_reverse.mp ha))
      · rw [List.mem_singleton.mp ha]
        exact List.mem_cons_self
    rw [← hdrop] at hmem
    exact ⟨List.mem_reverse.mp (List.dropWhile_subset _ hmem), by simpa using hspoken⟩

theorem silent_or_spoken (silent : α → Bool) (l : List α) :
    (∀ a ∈ l, silent a = true) ∨ ∃ a ∈ l, silent a = false := by
  by_cases h : ∃ a ∈ l, silent a = false
  · exact .inr h
  · exact .inl fun a ha => by
      by_contra hne
      exact h ⟨a, ha, Bool.eq_false_iff.mpr hne⟩

end Split

/-- How the entries of a conversation are written out: a silent entry as silent ones, a spoken one
as spoken ones, and one that closes a turn as one that does. -/
structure Expands (closes silent : α → Bool) (closes' silent' : β → Bool) (f : α → List β)
    (l : List α) : Prop where
  kept : ∀ a ∈ l, silent a = true → ∀ b ∈ f a, silent' b = true
  spoken : ∀ a ∈ l, silent a = false → ∀ b ∈ f a, silent' b = false
  some : ∀ a ∈ l, silent a = false → f a ≠ []
  closing : ∀ a ∈ l, closes a = true → ∃ b, f a = [b] ∧ closes' b = true
  pending : ∀ a ∈ l, closes a = false → ∀ b ∈ f a, closes' b = false

section Expand

variable {closes silent : α → Bool} {closes' silent' : β → Bool} {f : α → List β} {l : List α}

theorem Expands.filter_flatMap (h : Expands closes silent closes' silent' f l) :
    (l.flatMap f).filter (fun b => !silent' b) = (l.filter fun a => !silent a).flatMap f := by
  induction l with
  | nil => rfl
  | cons a l ih =>
    have htail : Expands closes silent closes' silent' f l :=
      ⟨fun b hb => h.kept b (.tail a hb), fun b hb => h.spoken b (.tail a hb),
        fun b hb => h.some b (.tail a hb), fun b hb => h.closing b (.tail a hb),
        fun b hb => h.pending b (.tail a hb)⟩
    rw [List.flatMap_cons, List.filter_append, ih htail]
    cases ha : silent a with
    | true =>
      rw [List.filter_cons_of_neg (by rw [ha]; decide), List.filter_eq_nil_iff.mpr fun b hb => by
        rw [h.kept a (.head l) ha b hb]; decide, List.nil_append]
    | false =>
      rw [List.filter_cons_of_pos (by rw [ha]; rfl), List.flatMap_cons,
        List.filter_eq_self.mpr fun b hb => by
        rw [h.spoken a (.head l) ha b hb]; rfl]

theorem Expands.split (h : Expands closes silent closes' silent' f l) {before within after : List α}
    {z : α} (hsplit : Split closes silent l before within z after) :
    ∃ init z', f z = init ++ [z'] ∧
      Split closes' silent' (l.flatMap f) (before.flatMap f) (within.flatMap f ++ init) z'
        (after.flatMap f) := by
  have hbefore : ∀ a ∈ before, a ∈ l :=
    fun a ha => by rw [hsplit.eq]; exact List.mem_append_left _ ha
  have hwithin : ∀ a ∈ within, a ∈ l := fun a ha => by
    rw [hsplit.eq]; exact List.mem_append_right _ (List.mem_append_left _ ha)
  have hlast : z ∈ l := by
    rw [hsplit.eq]; exact List.mem_append_right _ (List.mem_append_right _ (.head after))
  have hafter : ∀ a ∈ after, a ∈ l := fun a ha => by
    rw [hsplit.eq]; exact List.mem_append_right _ (List.mem_append_right _ (.tail z ha))
  obtain ⟨init, z', hz⟩ : ∃ init z', f z = init ++ [z'] :=
    ⟨_, _, (List.dropLast_concat_getLast (h.some z hlast hsplit.spoken)).symm⟩
  refine ⟨init, z', hz, ?_, fun b hb => ?_, fun b hb => ?_, ?_, fun b hb => ?_⟩
  · rw [hsplit.eq, List.flatMap_append, List.flatMap_append, List.flatMap_cons, hz]
    simp
  · -- the last entry written of those before is the one that closes them
    cases hend : before.getLast? with
    | none =>
      rw [List.getLast?_eq_none_iff.mp hend] at hb
      cases hb
    | some a =>
      obtain ⟨b', ha, hclosed⟩ :=
        h.closing a (hbefore a (List.mem_of_getLast? hend)) (hsplit.closed a hend)
      obtain ⟨before, rfl⟩ := List.getLast?_eq_some_iff.mp hend
      rw [List.flatMap_append, List.flatMap_singleton, ha, List.getLast?_concat] at hb
      rwa [← Option.some.inj hb]
  · rcases List.mem_append.mp hb with hb | hb
    · obtain ⟨a, ha, hb⟩ := List.mem_flatMap.mp hb
      exact h.pending a (hwithin a ha) (hsplit.pending a ha) b hb
    · cases hcloses : closes z with
      | true =>
        -- an entry that closes a turn is written as one: nothing comes before it
        obtain ⟨b', hb', -⟩ := h.closing z hlast hcloses
        rw [hz] at hb'
        rw [List.append_eq_singleton_iff] at hb'
        rcases hb' with ⟨hinit, -⟩ | ⟨-, hnil⟩
        · rw [hinit] at hb
          cases hb
        · cases hnil
      | false => exact h.pending z hlast hcloses b (by rw [hz]; exact List.mem_append_left _ hb)
  · exact h.spoken z hlast hsplit.spoken z'
      (by rw [hz]; exact List.mem_append_right _ (List.mem_singleton_self _))
  · obtain ⟨a, ha, hb⟩ := List.mem_flatMap.mp hb
    exact h.kept a (hafter a ha) (hsplit.trailing a ha) b hb

theorem Expands.silent_flatMap (h : Expands closes silent closes' silent' f l)
    (hsilent : ∀ a ∈ l, silent a = true) : ∀ b ∈ l.flatMap f, silent' b = true := by
  intro b hb
  obtain ⟨a, ha, hb⟩ := List.mem_flatMap.mp hb
  exact h.kept a ha (hsilent a ha) b hb

theorem lastTurn_flatMap (h : Expands closes silent closes' silent' f l) :
    lastTurn closes' silent' (l.flatMap f) = (lastTurn closes silent l).flatMap f := by
  rcases silent_or_spoken silent l with hsilent | hspoken
  · rw [lastTurn_of_silent hsilent, lastTurn_of_silent (h.silent_flatMap hsilent)]
    rfl
  · obtain ⟨before, within, z, after, hsplit⟩ := exists_split closes hspoken
    obtain ⟨init, z', hz, hsplit'⟩ := h.split hsplit
    have hturn : ∀ a ∈ within ++ [z], a ∈ l := fun a ha => by
      rw [hsplit.eq]
      rcases List.mem_append.mp ha with ha | ha
      · exact List.mem_append_right _ (List.mem_append_left _ ha)
      · rw [List.mem_singleton.mp ha]
        exact List.mem_append_right _ (List.mem_append_right _ (.head after))
    have hpart : Expands closes silent closes' silent' f (within ++ [z]) :=
      ⟨fun a ha => h.kept a (hturn a ha), fun a ha => h.spoken a (hturn a ha),
        fun a ha => h.some a (hturn a ha), fun a ha => h.closing a (hturn a ha),
        fun a ha => h.pending a (hturn a ha)⟩
    rw [hsplit.lastTurn_eq, hsplit'.lastTurn_eq, ← hpart.filter_flatMap, List.flatMap_append,
      List.flatMap_singleton, hz, List.append_assoc]

theorem answered_flatMap (h : Expands closes silent closes' silent' f l) :
    answered closes' silent' (l.flatMap f) = answered closes silent l := by
  rcases silent_or_spoken silent l with hsilent | hspoken
  · rw [answered_of_silent hsilent, answered_of_silent (h.silent_flatMap hsilent)]
  · obtain ⟨before, within, z, after, hsplit⟩ := exists_split closes hspoken
    obtain ⟨init, z', -, hsplit'⟩ := h.split hsplit
    rw [hsplit.answered_eq, hsplit'.answered_eq]
    cases hlast : before.getLast? with
    | none => rw [List.getLast?_eq_none_iff.mp hlast]; rfl
    | some a =>
      have hmem : a ∈ l := by
        rw [hsplit.eq]; exact List.mem_append_left _ (List.mem_of_getLast? hlast)
      obtain ⟨b, ha, -⟩ := h.closing a hmem (hsplit.closed a hlast)
      obtain ⟨before, rfl⟩ := List.getLast?_eq_some_iff.mp hlast
      rw [List.flatMap_append, List.flatMap_singleton, ha]
      cases before.flatMap f <;> cases before <;> rfl

end Expand

/-- What is put in front belongs to the last turn as long as nothing has been answered. -/
theorem lastTurn_append {closes silent : α → Bool} {front : List α}
    (hclosing : ∀ a ∈ front, closes a = false) (hspoken : ∀ a ∈ front, silent a = false)
    (l : List α) :
    lastTurn closes silent (front ++ l) = (if answered closes silent l then [] else front) ++
      lastTurn closes silent l := by
  have hfilter : (front.filter fun a => !silent a) = front :=
    List.filter_eq_self.mpr fun a ha => by rw [hspoken a ha]; rfl
  rcases silent_or_spoken silent l with hsilent | hspeaks
  · rw [lastTurn_of_silent hsilent, answered_of_silent hsilent, List.append_nil, if_neg (by decide)]
    cases hlast : front.getLast? with
    | none =>
      rw [List.getLast?_eq_none_iff.mp hlast]
      exact lastTurn_of_silent hsilent
    | some z =>
      obtain ⟨within, rfl⟩ := List.getLast?_eq_some_iff.mp hlast
      have hsplit : Split closes silent (within ++ [z] ++ l) [] within z l :=
        ⟨by simp, nofun, fun a ha => hclosing a (List.mem_append_left _ ha),
          hspoken z (List.mem_append_right _ (List.mem_singleton_self _)), hsilent⟩
      rw [hsplit.lastTurn_eq, hfilter]
  · obtain ⟨before, within, z, after, hsplit⟩ := exists_split closes hspeaks
    rw [hsplit.lastTurn_eq, hsplit.answered_eq]
    cases hlast : before.getLast? with
    | none =>
      obtain rfl := List.getLast?_eq_none_iff.mp hlast
      have hfront : Split closes silent (front ++ l) [] (front ++ within) z after :=
        ⟨by
          rw [hsplit.eq];
            simp, nofun, fun a ha => (List.mem_append.mp ha).elim (hclosing a) (hsplit.pending a),
          hsplit.spoken, hsplit.trailing⟩
      rw [hfront.lastTurn_eq, List.append_assoc, List.filter_append, hfilter]
      rfl
    | some b =>
      have hne : before ≠ [] := fun hnil => by rw [hnil] at hlast; cases hlast
      have hfront : Split closes silent (front ++ l) (front ++ before) within z after := by
        refine ⟨by
          rw [hsplit.eq, List.append_assoc], fun c hc => ?_, hsplit.pending, hsplit.spoken,
            hsplit.trailing⟩
        rw [List.getLast?_append, hlast] at hc
        exact hsplit.closed c (by rw [hlast]; exact hc)
      rw [hfront.lastTurn_eq, if_pos (by simpa using hne), List.nil_append]

theorem lastTurn_append_silent {closes silent : α → Bool} {front : List α}
    (hclosing : ∀ a ∈ front, closes a = false)
    (hsilent : ∀ a ∈ front, silent a = true) (l : List α) :
    lastTurn closes silent (front ++ l) = lastTurn closes silent l ∧
      answered closes silent (front ++ l) = answered closes silent l := by
  rcases silent_or_spoken silent l with hall | hspeaks
  · have hboth : ∀ a ∈ front ++ l, silent a = true :=
      fun a ha => (List.mem_append.mp ha).elim (hsilent a) (hall a)
    rw [lastTurn_of_silent hboth, lastTurn_of_silent hall, answered_of_silent hboth,
      answered_of_silent hall]
    exact ⟨rfl, rfl⟩
  · obtain ⟨before, within, z, after, hsplit⟩ := exists_split closes hspeaks
    rw [hsplit.lastTurn_eq, hsplit.answered_eq]
    cases hlast : before.getLast? with
    | none =>
      obtain rfl := List.getLast?_eq_none_iff.mp hlast
      have hfront : Split closes silent (front ++ l) [] (front ++ within) z after :=
        ⟨by
          rw [hsplit.eq];
            simp, nofun, fun a ha => (List.mem_append.mp ha).elim (hclosing a) (hsplit.pending a),
          hsplit.spoken, hsplit.trailing⟩
      rw [hfront.lastTurn_eq, hfront.answered_eq, List.append_assoc, List.filter_append,
        List.filter_eq_nil_iff.mpr fun a ha => by rw [hsilent a ha]; decide]
      exact ⟨rfl, rfl⟩
    | some b =>
      have hfront : Split closes silent (front ++ l) (front ++ before) within z after := by
        refine ⟨by
          rw [hsplit.eq, List.append_assoc], fun c hc => ?_, hsplit.pending, hsplit.spoken,
            hsplit.trailing⟩
        rw [List.getLast?_append, hlast] at hc
        exact hsplit.closed c (by rw [hlast]; exact hc)
      rw [hfront.lastTurn_eq, hfront.answered_eq]
      obtain ⟨before, rfl⟩ := List.getLast?_eq_some_iff.mp hlast
      exact ⟨rfl, by cases front <;> cases before <;> rfl⟩

end LastTurn
end Aisix
