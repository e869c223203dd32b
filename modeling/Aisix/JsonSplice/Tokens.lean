import Aisix.JsonSplice.Scanner
import Mathlib.Data.List.TakeWhile

/-!
# Aisix.JsonSplice.Tokens

The scanner's own rules for tokens against the grammar's: `isJsonNumber_iff`, `isScalar_iff`,
`scanString_iff`, `scanName_iff`. Each says what is taken from the front of a text, and that nothing
else is.
-/

namespace Aisix
namespace JsonSplice

open Json Json.Syntax

/-! ### Runs of characters -/

theorem takeWhile_append_of_stop {p : Char → Bool} {l r : List Char} (hl : ∀ c ∈ l, p c = true)
    (hr : ∀ c t, r = c :: t → p c = false) :
    (l ++ r).takeWhile p = l ∧ (l ++ r).dropWhile p = r := by
  induction l with
  | nil =>
    cases r with
    | nil => exact ⟨rfl, rfl⟩
    | cons c t => simp [hr c t rfl]
  | cons c l ih =>
    obtain ⟨htake, hdrop⟩ := ih fun d hd => hl d (List.mem_cons_of_mem c hd)
    simp [hl c List.mem_cons_self, htake, hdrop]

theorem dropWhile_all {p : Char → Bool} {l : List Char} (hl : ∀ c ∈ l, p c = true) :
    l.dropWhile p = [] := by
  have h := (takeWhile_append_of_stop (r := []) hl (by rintro c t ⟨⟩)).2
  rwa [List.append_nil] at h

theorem stop_dropWhile {p : Char → Bool} {l : List Char} {c : Char} {t : List Char}
    (h : l.dropWhile p = c :: t) : p c = false := by
  have hne : l.dropWhile p ≠ [] := by simp [h]
  have hhead := List.head_dropWhile_not p hne
  simpa [h] using hhead

/-- The run of whitespace in front. -/
def wsOf (l : List Char) : Ws where
  text := l.takeWhile isWhitespace
  blank := fun _ hc => List.mem_takeWhile_imp hc

theorem wsOf_append_skipWs (l : List Char) : (wsOf l).text ++ skipWs l = l :=
  List.takeWhile_append_dropWhile

theorem skipWs_ws_append (w : Ws) {r : List Char}
    (hr : ∀ c t, r = c :: t → isWhitespace c = false) :
    skipWs (w.text ++ r) = r := (takeWhile_append_of_stop w.blank hr).2

theorem skipWs_ws_cons (w : Ws) {c : Char} (r : List Char) (hc : isWhitespace c = false) :
    skipWs (w.text ++ c :: r) = c :: r := by
  refine skipWs_ws_append w ?_
  rintro d t ⟨⟩
  exact hc

theorem skipWs_ws (w : Ws) : skipWs w.text = [] := dropWhile_all w.blank

/-! ### Numbers -/

theorem digits_run (d : Digits) {r : List Char} (hr : ∀ c t, r = c :: t → c.isDigit = false) :
    (d.text ++ r).dropWhile Char.isDigit = r := (takeWhile_append_of_stop d.digits hr).2

theorem exists_digits {l : List Char} (h : (l.dropWhile Char.isDigit).length ≠ l.length) :
    ∃ d : Digits, l = d.text ++ l.dropWhile Char.isDigit := by
  refine ⟨⟨l.takeWhile Char.isDigit, fun _ hc => List.mem_takeWhile_imp hc, ?_⟩,
    List.takeWhile_append_dropWhile.symm⟩
  intro hnil
  have hsplit := List.takeWhile_append_dropWhile (p := Char.isDigit) (l := l)
  rw [hnil, List.nil_append] at hsplit
  exact h (congrArg _ hsplit)

theorem exists_lead_digit (d : Digits) : ∃ c t, d.text = c :: t ∧ c.isDigit = true := by
  obtain ⟨c, t, hct⟩ := List.exists_cons_of_ne_nil d.nonempty
  exact ⟨c, t, hct, d.digits c (hct ▸ List.mem_cons_self)⟩

theorem length_pos_digits (d : Digits) : 0 < d.text.length := List.length_pos_of_ne_nil d.nonempty

theorem exponentValid_iff {token : List Char} :
    exponentValid token = true ↔ ∃ e, NumberToken.exponentText e = token := by
  constructor
  · intro h
    unfold exponentValid at h
    split at h
    · exact ⟨none, rfl⟩
    · next c r =>
      split at h
      · next hmarker =>
        have hsign : ∃ sign : List Char, (sign = [] ∨ sign = ['+'] ∨ sign = ['-']) ∧
            r = sign ++ (if r.head? = some '+' ∨ r.head? = some '-' then r.tail else r) := by
          split
          · next hhead =>
            rcases hhead with hhead | hhead
            · exact ⟨['+'], .inr (.inl rfl), List.eq_cons_of_mem_head? hhead⟩
            · exact ⟨['-'], .inr (.inr rfl), List.eq_cons_of_mem_head? hhead⟩
          · exact ⟨[], .inl rfl, rfl⟩
        obtain ⟨sign, hok, hr⟩ := hsign
        have hrun := of_decide_eq_true h
        obtain ⟨d, hd⟩ := exists_digits hrun.1
        rw [hrun.2, List.append_nil] at hd
        refine ⟨some ⟨c, sign, d, hmarker, hok⟩, ?_⟩
        rw [NumberToken.exponentText, Option.elim_some, Exponent.text, ← hd, ← hr]
      · cases h
  · rintro ⟨e, rfl⟩
    cases e with
    | none => rfl
    | some e =>
      obtain ⟨marker, sign, d, hmarker, hsign⟩ := e
      obtain ⟨c, t, hct, hc⟩ := exists_lead_digit d
      have hnot : ¬ (d.text.head? = some '+' ∨ d.text.head? = some '-') := by
        rw [hct]
        rintro (h | h) <;> (obtain rfl := Option.some.inj h; revert hc; decide)
      have hstrip : (if (sign ++ d.text).head? = some '+' ∨ (sign ++ d.text).head? = some '-' then
          (sign ++ d.text).tail else sign ++ d.text) = d.text := by
        rcases hsign with rfl | rfl | rfl
        · exact if_neg hnot
        · rfl
        · rfl
      have hpos := length_pos_digits d
      rw [NumberToken.exponentText, Option.elim_some, Exponent.text, exponentValid, if_pos hmarker]
      simp only [hstrip, dropWhile_all d.digits, List.length_nil]
      simp only [ne_eq, and_true, decide_eq_true_eq]
      omega

theorem exponentText_stop (e : Option Exponent) :
    ∀ c t, NumberToken.exponentText e = c :: t → c.isDigit = false ∧ c ≠ '.' := by
  cases e with
  | none => rintro c t ⟨⟩
  | some e =>
    intro c t h
    obtain rfl := (List.cons.inj h).1
    rcases e.marker_ok with hm | hm <;> (rw [hm]; decide)

theorem fractionValid_iff {token : List Char} :
    fractionValid token = true ↔
      ∃ f e, NumberToken.fractionText f ++ NumberToken.exponentText e = token := by
  constructor
  · intro h
    unfold fractionValid at h
    split at h
    · exact ⟨none, none, rfl⟩
    · next c r =>
      split at h
      · next hdot =>
        rw [Bool.and_eq_true, decide_eq_true_eq, exponentValid_iff] at h
        obtain ⟨hlength, e, he⟩ := h
        obtain ⟨d, hd⟩ := exists_digits hlength
        refine ⟨some d, e, ?_⟩
        rw [he, hdot, NumberToken.fractionText, Option.elim_some, List.cons_append, ← hd]
      · obtain ⟨e, he⟩ := exponentValid_iff.mp h
        exact ⟨none, e, he⟩
  · rintro ⟨f, e, rfl⟩
    have hexponent : exponentValid (NumberToken.exponentText e) = true :=
      exponentValid_iff.mpr ⟨e, rfl⟩
    cases f with
    | none =>
      change fractionValid (NumberToken.exponentText e) = true
      cases htext : NumberToken.exponentText e with
      | nil => rfl
      | cons c t =>
        rw [fractionValid, if_neg (exponentText_stop e c t htext).2, ← htext]
        exact hexponent
    | some d =>
      have hpos := length_pos_digits d
      have hrun := digits_run d fun c t h => (exponentText_stop e c t h).1
      rw [NumberToken.fractionText, Option.elim_some, List.cons_append, fractionValid, if_pos rfl]
      simp only [hrun, Bool.and_eq_true, decide_eq_true_eq]
      exact ⟨by rw [List.length_append]; omega, hexponent⟩

theorem fractionText_stop (f : Option Digits) (e : Option Exponent) :
    ∀ c t, NumberToken.fractionText f ++ NumberToken.exponentText e = c :: t →
      c.isDigit = false := by
  cases f with
  | none => exact fun c t h => (exponentText_stop e c t h).1
  | some d =>
    intro c t h
    obtain rfl := (List.cons.inj h).1
    decide

theorem IntPart.head (i : IntPart) : ∃ c t, i.text = c :: t ∧ c.isDigit = true := by
  cases i with
  | zero => exact ⟨'0', [], rfl, by decide⟩
  | digits lead more hlead hmore => exact ⟨lead, more, rfl, hlead.1⟩

theorem isJsonNumber_iff {token : List Char} : isJsonNumber token = true ↔ ∃ n : NumberToken,
    n.text = token := by
  constructor
  · intro h
    have hsign : ∃ negative : Bool, token = (if negative then ['-'] else []) ++
        (if token.head? = some '-' then token.tail else token) := by
      split
      · next hhead => exact ⟨true, List.eq_cons_of_mem_head? hhead⟩
      · exact ⟨false, rfl⟩
    obtain ⟨negative, htoken⟩ := hsign
    unfold isJsonNumber at h
    split at h
    · cases h
    · next c r hcr =>
      rw [hcr] at htoken
      split at h
      · next hzero =>
        obtain ⟨f, e, hfe⟩ := fractionValid_iff.mp h
        exact ⟨⟨negative, .zero, f, e⟩, by rw [NumberToken.text, hfe, htoken, hzero]; rfl⟩
      · next hzero =>
        split at h
        · next hdigit =>
          obtain ⟨f, e, hfe⟩ := fractionValid_iff.mp h
          refine ⟨⟨negative, .digits c (r.takeWhile Char.isDigit) ⟨hdigit, hzero⟩
            fun _ hc => List.mem_takeWhile_imp hc, f, e⟩, ?_⟩
          rw [NumberToken.text, hfe, htoken, IntPart.text, List.cons_append,
            List.takeWhile_append_dropWhile]
        · cases h
  · rintro ⟨⟨negative, int, f, e⟩, rfl⟩
    obtain ⟨c, t, hct, hc⟩ := IntPart.head int
    have hunsigned : (if (NumberToken.text ⟨negative, int, f, e⟩).head? = some '-' then
        (NumberToken.text ⟨negative, int, f, e⟩).tail else NumberToken.text ⟨negative, int, f, e⟩) =
        int.text ++ (NumberToken.fractionText f ++ NumberToken.exponentText e) := by
      cases negative with
      | true => rfl
      | false =>
        have hne : c ≠ '-' := by rintro rfl; revert hc; decide
        simp [NumberToken.text, hct, hne]
    have hfraction :
        fractionValid (NumberToken.fractionText f ++ NumberToken.exponentText e) = true :=
      fractionValid_iff.mpr ⟨f, e, rfl⟩
    unfold isJsonNumber
    rw [hunsigned]
    cases int with
    | zero => exact hfraction
    | digits lead more hlead hmore =>
      have hrun := (takeWhile_append_of_stop hmore (fractionText_stop f e)).2
      simp only [IntPart.text, List.cons_append, if_neg hlead.2, hlead.1, if_true, hrun, hfraction]

theorem isTokenChar_of_isDigit {c : Char} (h : c.isDigit = true) :
    isTokenChar c = true := by simp [isTokenChar, h]

theorem IntPart.isDigit_text (i : IntPart) : ∀ c ∈ i.text, c.isDigit = true := by
  cases i with
  | zero =>
    intro c hc
    rw [List.mem_singleton.mp hc]
    decide
  | digits lead more hlead hmore =>
    intro c hc
    rcases List.mem_cons.mp hc with rfl | hc
    · exact hlead.1
    · exact hmore c hc

theorem isNumberChar_fractionText (f : Option Digits) :
    ∀ c ∈ NumberToken.fractionText f, isNumberChar c = true := by
  cases f with
  | none => intro c hc; cases hc
  | some d =>
    intro c hc
    rcases List.mem_cons.mp hc with rfl | hc
    · decide
    · exact isNumberChar_of_isDigit (d.digits c hc)

theorem isNumberChar_exponentText (e : Option Exponent) :
    ∀ c ∈ NumberToken.exponentText e, isNumberChar c = true := by
  cases e with
  | none => intro c hc; cases hc
  | some e =>
    intro c hc
    rcases List.mem_cons.mp hc with rfl | hc
    · rcases e.marker_ok with h | h <;> (rw [h]; decide)
    · rcases List.mem_append.mp hc with hc | hc
      · rcases e.sign_ok with h | h | h <;> rw [h] at hc
        · cases hc
        · rw [List.mem_singleton.mp hc]
          decide
        · rw [List.mem_singleton.mp hc]
          decide
      · exact isNumberChar_of_isDigit (e.digits.digits c hc)

theorem isNumberChar_number (n : NumberToken) : ∀ c ∈ n.text, isNumberChar c = true := by
  intro c hc
  rw [NumberToken.text, List.mem_append, List.mem_append, List.mem_append] at hc
  rcases hc with hc | hc | hc | hc
  · split at hc
    · rw [List.mem_singleton.mp hc]
      decide
    · cases hc
  · exact isNumberChar_of_isDigit (IntPart.isDigit_text n.int c hc)
  · exact isNumberChar_fractionText n.fraction c hc
  · exact isNumberChar_exponentText n.exponent c hc

theorem isTokenChar_of_isNumberChar {c : Char} (h : isNumberChar c = true) :
    isTokenChar c = true := by
  simp only [isNumberChar, Bool.or_eq_true, beq_iff_eq] at h
  rcases h with ((((hdigit | rfl) | rfl) | rfl) | rfl) | rfl
  · exact isTokenChar_of_isDigit hdigit
  · decide
  · decide
  · decide
  · decide
  · decide

theorem isTokenChar_scalar (t : Scalar) : ∀ c ∈ t.text, isTokenChar c = true := by
  cases t with
  | number n => exact fun c hc => isTokenChar_of_isNumberChar (isNumberChar_number n c hc)
  | true => exact List.all_eq_true.mp (by decide)
  | false => exact List.all_eq_true.mp (by decide)
  | null => exact List.all_eq_true.mp (by decide)

/-- The characters a value that is neither a string nor a container begins with. -/
def ScalarLead (c : Char) : Prop := c = '-' ∨ c.isDigit = true ∨ c = 't' ∨ c = 'f' ∨ c = 'n'

theorem exists_scalarLead (t : Scalar) : ∃ c r, t.text = c :: r ∧ ScalarLead c := by
  cases t with
  | true => exact ⟨'t', _, rfl, by simp [ScalarLead]⟩
  | false => exact ⟨'f', _, rfl, by simp [ScalarLead]⟩
  | null => exact ⟨'n', _, rfl, by simp [ScalarLead]⟩
  | number n =>
    obtain ⟨c, r, hcr, hc⟩ := IntPart.head n.int
    rw [Scalar.text, NumberToken.text]
    cases n.negative with
    | true => exact ⟨'-', _, rfl, .inl rfl⟩
    | false => exact ⟨c, _, by rw [hcr]; rfl, .inr (.inl hc)⟩

theorem isScalar_iff {token : List Char} : isScalar token = true ↔ ∃ t : Scalar,
    t.text = token := by
  unfold isScalar
  rw [Bool.or_eq_true, Bool.or_eq_true, Bool.or_eq_true, decide_eq_true_eq, decide_eq_true_eq,
    decide_eq_true_eq, isJsonNumber_iff]
  constructor
  · rintro (((h | h) | h) | ⟨n, h⟩)
    · exact ⟨.true, h.symm⟩
    · exact ⟨.false, h.symm⟩
    · exact ⟨.null, h.symm⟩
    · exact ⟨.number n, h⟩
  · rintro ⟨t, rfl⟩
    cases t with
    | true => exact .inl (.inl (.inl rfl))
    | false => exact .inl (.inl (.inr rfl))
    | null => exact .inl (.inr rfl)
    | number n => exact .inr ⟨n, rfl⟩

/-! ### Strings and names -/

theorem scanBody_text (start : List Char) (ps : List Piece) (r : List Char) :
    scanBody start (ps.flatMap Piece.text ++ '\"' :: r) = .ok (ps, r) := by
  induction ps with
  | nil =>
    unfold scanBody
    exact (dif_neg (by decide)).trans (if_pos rfl)
  | cons p ps ih =>
    rw [List.flatMap_cons, List.append_assoc]
    cases p with
    | plain c hc =>
      rw [Piece.text, List.singleton_append]
      unfold scanBody
      rw [dif_pos hc, ih]
      rfl
    | escape c hc =>
      simp only [Piece.text, List.cons_append, List.nil_append]
      unfold scanBody
      rw [dif_neg (by decide), if_neg (by decide), if_pos rfl]
      simp only [dif_pos hc, ih]
      rfl
    | unicode h =>
      simp only [Piece.text, Hex4.text, List.cons_append, List.nil_append]
      unfold scanBody
      rw [dif_neg (by decide), if_neg (by decide), if_pos rfl]
      have hu : ¬ (simpleEscape 'u').isSome = true := by decide
      simp only [dif_neg hu, if_true, dif_pos h.hex, ih]
      rfl

theorem of_scanBody {start l : List Char} :
    ∀ {ps : List Piece} {r : List Char}, scanBody start l = .ok (ps, r) →
    l = ps.flatMap Piece.text ++ '\"' :: r := by
  have hmap :
      ∀ {s : Except Fault (List Piece × List Char)} {p : Piece} {ps : List Piece} {r : List Char},
      (s.map fun s => (p :: s.1, s.2)) = .ok (ps, r) → ∃ qs, s = .ok (qs, r) ∧ ps = p :: qs := by
    intro s p ps r h
    cases s with
    | error e => cases h
    | ok s =>
      obtain ⟨rfl, rfl⟩ := Prod.mk.inj (Except.ok.inj h)
      exact ⟨s.1, rfl, rfl⟩
  fun_induction scanBody start l with
  | case1 => intro ps r h; cases h
  | case2 c l hplain ih =>
    intro ps r h
    obtain ⟨qs, hqs, rfl⟩ := hmap h
    rw [ih hqs]
    rfl
  | case3 l hplain =>
    intro ps r h
    obtain ⟨rfl, rfl⟩ := Prod.mk.inj (Except.ok.inj h)
    rfl
  | case5 hplain hquote e l' hescape ih =>
    intro ps r h
    obtain ⟨qs, hqs, rfl⟩ := hmap h
    rw [ih hqs]
    rfl
  | case6 =>
    rename_i ih
    intro ps r h
    obtain ⟨qs, hqs, rfl⟩ := hmap h
    rw [ih hqs]
    rfl
  | _ => intro ps r h; cases h

theorem scanString_iff {l r : List Char} {token : StringToken} :
    scanString ('\"' :: l) = .ok (token, r) ↔ '\"' :: l = token.text ++ r := by
  unfold scanString StringToken.text StringToken.body
  rw [List.tail_cons, List.cons_append, List.cons.injEq, List.append_assoc]
  constructor
  · intro h
    cases hscan : scanBody ('\"' :: l) l with
    | error e =>
      rw [hscan] at h
      cases h
    | ok s =>
      rw [hscan] at h
      obtain ⟨rfl, rfl⟩ := Prod.mk.inj (Except.ok.inj h)
      exact ⟨rfl, of_scanBody hscan⟩
  · rintro ⟨-, rfl⟩
    rw [List.singleton_append, scanBody_text]
    rfl

theorem scanName_name {n : Name} {key : String} (hkey : n.key.decode = some key) (r : List Char) :
    scanName (n.upToColon ++ r) = .ok (key, r) := by
  have hstring : scanString (n.upToColon ++ r) = .ok (n.key, n.beforeColon.text ++ ':' :: r) :=
    scanString_iff.mpr (by simp [StringToken.text])
  have hhead : (n.upToColon ++ r).head? = some '\"' := rfl
  unfold scanName
  rw [if_pos hhead, hstring]
  simp only [bind, Except.bind, decodeStr, hkey,
    skipWs_ws_cons n.beforeColon r (by decide : isWhitespace ':' = false)]
  rfl

theorem of_scanName {l r : List Char} {key : String} (h : scanName l = .ok (key, r)) :
    ∃ n : Name, n.afterColon = .empty ∧ n.key.decode = some key ∧ l = n.upToColon ++ r := by
  unfold scanName at h
  split at h
  · next hhead =>
    obtain ⟨l, rfl⟩ : ∃ t, l = '\"' :: t := ⟨_, List.eq_cons_of_mem_head? hhead⟩
    cases hstring : scanString ('\"' :: l) with
    | error e =>
      rw [hstring] at h
      cases h
    | ok s =>
      obtain ⟨token, r'⟩ := s
      rw [hstring] at h
      simp only [bind, Except.bind, decodeStr] at h
      cases hdecode : token.decode with
      | none =>
        rw [hdecode] at h
        cases h
      | some name =>
        rw [hdecode] at h
        dsimp only at h
        split at h
        · next hcolon =>
          obtain ⟨rfl, rfl⟩ := Prod.mk.inj (Except.ok.inj h)
          refine ⟨⟨token, wsOf r', .empty⟩, rfl, hdecode, ?_⟩
          have hsplit := wsOf_append_skipWs r'
          rw [List.eq_cons_of_mem_head? hcolon] at hsplit
          rw [scanString_iff.mp hstring, Name.upToColon]
          simp only [List.append_assoc, List.singleton_append]
          rw [hsplit]
        · cases h
  · cases h

end JsonSplice
end Aisix
