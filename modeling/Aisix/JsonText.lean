import Mathlib.Algebra.Order.Ring.Nat
import Aisix.Delimited
import Aisix.Json

/-!
# Aisix.JsonText

The compact JSON text of a value, as `serde_json` writes it, and that a value can be read back from
its text: `text_inj` for a value with anything behind it that cannot continue a number,
`text_injective` for a whole text.

The text of a float is kept abstract in `FloatText`.
-/

namespace Aisix
namespace Json

open Delimited

/-- The characters a number is written with. -/
def isNumberChar (c : Char) : Bool :=
  c.isDigit || c == '-' || c == '+' || c == '.' || c == 'e' || c == 'E'

/-- The exponent bits of a float that is neither infinite nor NaN are not all ones. -/
def FiniteBits (bits : UInt64) : Prop := bits.toNat / 2 ^ 52 % 2048 ≠ 2047

/-- The shortest text of a float: it has a fraction or an exponent, and gives the float back. -/
structure FloatText where
  text : UInt64 → List Char
  nonempty : ∀ bits, text bits ≠ []
  numberChars : ∀ bits, ∀ c ∈ text bits, isNumberChar c = true
  notInteger : ∀ bits, ∃ c ∈ text bits, c.isDigit = false ∧ c ≠ '-'
  inj : ∀ a b, FiniteBits a → FiniteBits b → text a = text b → a = b

def hexDigit (n : Nat) : Char := (Nat.toDigits 16 n).headD '0'

/-- `serde_json`'s escape of one character of a string. -/
def escapeChar (c : Char) : List Char :=
  if c = '\"' then "\\\"".toList
  else if c = '\\' then "\\\\".toList
  else if c.toNat = 8 then "\\b".toList
  else if c.toNat = 9 then "\\t".toList
  else if c.toNat = 10 then "\\n".toList
  else if c.toNat = 12 then "\\f".toList
  else if c.toNat = 13 then "\\r".toList
  else if c.toNat < 32 then "\\u00".toList ++ [hexDigit (c.toNat / 16), hexDigit (c.toNat % 16)]
  else [c]

def quote (s : String) : List Char := '\"' :: (s.toList.flatMap escapeChar ++ ['\"'])

variable (F : FloatText)

def numberText : Number → List Char
  | .posInt n => Nat.toDigits 10 n.toNat
  | .negInt n => '-' :: Nat.toDigits 10 n.toInt.natAbs
  | .float bits => F.text bits

mutual

/-- `serde_json::to_string`. -/
def text : Value → List Char
  | .null => "null".toList
  | .bool true => "true".toList
  | .bool false => "false".toList
  | .number n => numberText F n
  | .string s => quote s
  | .array items =>
    match items with
    | [] => "[]".toList
    | v :: vs => '[' :: (text v ++ moreItems vs)
  | .object fields =>
    match fields with
    | [] => "\x7b\x7d".toList
    | (k, v) :: fs => '\x7b' :: (quote k ++ ':' :: (text v ++ moreFields fs))

def moreItems : List Value → List Char
  | [] => [']']
  | v :: vs => ',' :: (text v ++ moreItems vs)

def moreFields : List (String × Value) → List Char
  | [] => ['\x7d']
  | (k, v) :: fs => ',' :: (quote k ++ ':' :: (text v ++ moreFields fs))

end

/-- A number `serde_json` can hold. -/
def Number.WellFormed : Number → Prop
  | .posInt _ => True
  | .negInt n => n.toInt < 0
  | .float bits => FiniteBits bits

mutual

/-- A value `serde_json` can hold: its numbers are numbers and no object repeats a key. -/
def Value.WellFormed : Value → Prop
  | .null => True
  | .bool _ => True
  | .number n => n.WellFormed
  | .string _ => True
  | .array items => itemsWellFormed items
  | .object fields => (fields.map Prod.fst).Nodup ∧ fieldsWellFormed fields

def itemsWellFormed : List Value → Prop
  | [] => True
  | v :: vs => v.WellFormed ∧ itemsWellFormed vs

def fieldsWellFormed : List (String × Value) → Prop
  | [] => True
  | (_, v) :: fs => v.WellFormed ∧ fieldsWellFormed fs

end

section Strings

/-- The characters that are escaped. -/
def escaped : List Char := (List.range 32).map Char.ofNat ++ ['\"', '\\']

theorem escapeChar_of_notMem {c : Char} (h : c ∉ escaped) : escapeChar c = [c] := by
  have hlow : ¬ c.toNat < 32 := fun hlt => h (List.mem_append_left _
    (List.mem_map.2 ⟨c.toNat, List.mem_range.2 hlt, Char.ofNat_toNat c⟩))
  have hq : c ≠ '\"' := by rintro rfl; exact h (by decide)
  have hb : c ≠ '\\' := by rintro rfl; exact h (by decide)
  unfold escapeChar
  rw [if_neg hq, if_neg hb, if_neg (by omega), if_neg (by omega), if_neg (by omega),
    if_neg (by omega), if_neg (by omega), if_neg hlow]

theorem escapeChar_escaped : ∀ c ∈ escaped, ∃ t, escapeChar c = '\\' :: t := by
  have h : escaped.all (fun c => (escapeChar c).head? == some '\\') = true := by decide +kernel
  intro c hc
  exact ⟨_, List.eq_cons_of_mem_head? (eq_of_beq (List.all_eq_true.1 h c hc))⟩

theorem escapeChar_prefix_escaped :
    ∀ c ∈ escaped, ∀ d ∈ escaped, escapeChar c <+: escapeChar d → c = d := by
  have h : (escaped.all fun c => escaped.all fun d =>
      decide (escapeChar c <+: escapeChar d → c = d)) = true := by decide +kernel
  intro c hc d hd
  exact of_decide_eq_true (List.all_eq_true.1 (List.all_eq_true.1 h c hc) d hd)

theorem escapeChar_ne_nil (c : Char) : escapeChar c ≠ [] := by
  by_cases hc : c ∈ escaped
  · obtain ⟨t, ht⟩ := escapeChar_escaped c hc
    simp [ht]
  · simp [escapeChar_of_notMem hc]

theorem escapeChar_prefix {c d : Char} (h : escapeChar c <+: escapeChar d) : c = d := by
  by_cases hc : c ∈ escaped <;> by_cases hd : d ∈ escaped
  · exact escapeChar_prefix_escaped c hc d hd h
  · obtain ⟨t, ht⟩ := escapeChar_escaped c hc
    rw [ht, escapeChar_of_notMem hd, List.cons_prefix_cons] at h
    exact absurd (h.1 ▸ by decide) hd
  · obtain ⟨t, ht⟩ := escapeChar_escaped d hd
    rw [ht, escapeChar_of_notMem hc, List.cons_prefix_cons] at h
    exact absurd (h.1 ▸ by decide) hc
  · rw [escapeChar_of_notMem hc, escapeChar_of_notMem hd, List.cons_prefix_cons] at h
    exact h.1

theorem escapeChar_ne_quote (c : Char) (t : List Char) : escapeChar c ≠ '\"' :: t := by
  by_cases hc : c ∈ escaped
  · obtain ⟨t', ht⟩ := escapeChar_escaped c hc
    rw [ht]
    intro h
    exact absurd (List.cons.inj h).1 (by decide)
  · rw [escapeChar_of_notMem hc]
    rintro h
    obtain rfl := (List.cons.inj h).1
    exact hc (by decide)

theorem quote_inj {s s' : String} {r r' : List Char} (h : quote s ++ r = quote s' ++ r') :
    s = s' ∧ r = r' := by
  simp only [quote, List.cons_append, List.append_assoc, List.cons.injEq, true_and,
    List.nil_append] at h
  obtain ⟨hs, hr⟩ := flatMap_until_inj escapeChar_ne_nil (fun _ _ => escapeChar_prefix)
    escapeChar_ne_quote h
  exact ⟨String.toList_injective hs, hr⟩

end Strings

section Numbers

variable {F}

theorem isNumberChar_of_isDigit {c : Char} (h : c.isDigit = true) : isNumberChar c = true := by
  simp [isNumberChar, h]

theorem isDigit_toDigits {n : Nat} {c : Char} (h : c ∈ Nat.toDigits 10 n) : c.isDigit = true :=
  Nat.isDigit_of_mem_toDigits (by decide) (by decide) h

theorem toDigits_inj {n m : Nat} (h : Nat.toDigits 10 n = Nat.toDigits 10 m) : n = m := by
  rw [← Nat.ofDigitChars_ten_toDigits (n := n), h, Nat.ofDigitChars_ten_toDigits]

theorem numberText_ne_nil (n : Number) : numberText F n ≠ [] := by
  cases n with
  | posInt n => exact Nat.toDigits_ne_nil
  | negInt n => simp [numberText]
  | float bits => exact F.nonempty bits

theorem isNumberChar_numberText (n : Number) : ∀ c ∈ numberText F n, isNumberChar c = true := by
  intro c hc
  cases n with
  | posInt n => exact isNumberChar_of_isDigit (isDigit_toDigits hc)
  | negInt n =>
    rcases List.mem_cons.1 hc with rfl | hc
    · decide
    · exact isNumberChar_of_isDigit (isDigit_toDigits hc)
  | float bits => exact F.numberChars bits c hc

theorem numberText_inj {n m : Number} (hn : n.WellFormed) (hm : m.WellFormed)
    (h : numberText F n = numberText F m) : n = m := by
  have hfloat : ∀ {bits : UInt64} {l : List Char}, F.text bits = l →
      ¬ ∀ c ∈ l, c.isDigit = true ∨ c = '-' := by
    rintro bits l rfl hall
    obtain ⟨c, hc, hdigit, hsign⟩ := F.notInteger bits
    rcases hall c hc with h | h
    · rw [hdigit] at h; cases h
    · exact hsign h
  have hpos : ∀ n : UInt64, ∀ c ∈ Nat.toDigits 10 n.toNat, c.isDigit = true ∨ c = '-' :=
    fun n c hc => .inl (isDigit_toDigits hc)
  have hneg : ∀ n : Int64, ∀ c ∈ '-' :: Nat.toDigits 10 n.toInt.natAbs, c.isDigit = true ∨
      c = '-' := by
    intro n c hc
    rcases List.mem_cons.1 hc with rfl | hc
    · exact .inr rfl
    · exact .inl (isDigit_toDigits hc)
  have hsign : ∀ {k j : Nat}, Nat.toDigits 10 k ≠ '-' :: Nat.toDigits 10 j := by
    intro k j heq
    have hmem : '-' ∈ Nat.toDigits 10 k := heq ▸ List.mem_cons_self
    exact absurd (isDigit_toDigits hmem) (by decide)
  cases n with
  | posInt n =>
    cases m with
    | posInt m => exact congrArg _ (UInt64.toNat_inj.1 (toDigits_inj h))
    | negInt m => exact (hsign h).elim
    | float b => exact (hfloat h.symm (hpos n)).elim
  | negInt n =>
    cases m with
    | posInt m => exact (hsign h.symm).elim
    | negInt m =>
      have habs := toDigits_inj (List.cons.inj h).2
      simp only [Number.WellFormed] at hn hm
      exact congrArg _ (Int64.toInt_inj.1 (by omega))
    | float b => exact (hfloat h.symm (hneg n)).elim
  | float a =>
    cases m with
    | posInt m => exact (hfloat h (hpos m)).elim
    | negInt m => exact (hfloat h (hneg m)).elim
    | float b => exact congrArg _ (F.inj a b hn hm h)

end Numbers

section Values

variable {F}

/-- What may stand behind a value: nothing that continues a number. -/
def After (r : List Char) : Prop := ∀ c t, r = c :: t → isNumberChar c = false

/-- The constructor, as the first character of a text tells it. -/
def leadKind (c : Char) : Nat :=
  if c = 'n' then 0 else if c = 't' then 1 else if c = 'f' then 2 else if isNumberChar c then 3
  else if c = '\"' then 4 else if c = '[' then 5 else if c = '\x7b' then 6 else 7

def kind : Value → Nat
  | .null => 0
  | .bool true => 1
  | .bool false => 2
  | .number _ => 3
  | .string _ => 4
  | .array _ => 5
  | .object _ => 6

theorem exists_lead (v : Value) : ∃ c t, text F v = c :: t ∧ leadKind c = kind v := by
  cases v with
  | null => exact ⟨_, _, rfl, by decide⟩
  | bool b => cases b <;> exact ⟨_, _, rfl, by decide⟩
  | number n =>
    obtain ⟨c, t, hct⟩ := List.exists_cons_of_ne_nil (numberText_ne_nil (F := F) n)
    have hc := isNumberChar_numberText (F := F) n c (hct ▸ List.mem_cons_self)
    refine ⟨c, t, by rw [text, hct], ?_⟩
    have hn : c ≠ 'n' := by rintro rfl; revert hc; decide
    have ht : c ≠ 't' := by rintro rfl; revert hc; decide
    have hf : c ≠ 'f' := by rintro rfl; revert hc; decide
    simp [leadKind, kind, hn, ht, hf, hc]
  | string s => exact ⟨_, _, by rw [text, quote], by rw [kind]; decide⟩
  | array items =>
    match items with
    | [] => exact ⟨'[', _, by rw [text]; rfl, by rw [kind]; decide⟩
    | v :: vs => exact ⟨'[', _, by rw [text], by rw [kind]; decide⟩
  | object fields =>
    match fields with
    | [] => exact ⟨'\x7b', _, by rw [text]; rfl, by rw [kind]; decide⟩
    | (k, v) :: fs => exact ⟨'\x7b', _, by rw [text], by rw [kind]; decide⟩

theorem kind_eq {v w : Value} {r r' : List Char} (h : text F v ++ r = text F w ++ r') :
    kind v = kind w := by
  obtain ⟨c, t, hv, hc⟩ := exists_lead (F := F) v
  obtain ⟨d, t', hw, hd⟩ := exists_lead (F := F) w
  rw [hv, hw] at h
  rw [← hc, ← hd, (List.cons.inj h).1]

theorem kind_of_lead {v : Value} {c : Char} {t r : List Char} (h : text F v ++ r = c :: t) :
    kind v = leadKind c := by
  obtain ⟨c', t', hv, hc⟩ := exists_lead (F := F) v
  rw [hv] at h
  rw [← hc, (List.cons.inj h).1]

theorem kind_lt (v : Value) : kind v < 7 := by
  match v with
  | .null => decide
  | .bool true => decide
  | .bool false => decide
  | .number _ => rw [kind]; decide
  | .string _ => rw [kind]; decide
  | .array _ => rw [kind]; decide
  | .object _ => rw [kind]; decide

theorem text_ne_of_leadKind {v : Value} {c : Char} {t r : List Char} (hc : leadKind c = 7) :
    text F v ++ r ≠ c :: t := by
  intro h
  have := kind_lt v
  have := kind_of_lead h
  omega

theorem After.moreItems (vs : List Value) (r : List Char) : After (moreItems F vs ++ r) := by
  cases vs <;> (rintro c t h; rw [Json.moreItems] at h; cases h; decide)

theorem After.moreFields (fs : List (String × Value)) (r : List Char) :
    After (moreFields F fs ++ r) := by
  match fs with
  | [] => rintro c t h; rw [Json.moreFields] at h; cases h; decide
  | (k, v) :: fs => rintro c t h; rw [Json.moreFields] at h; cases h; decide

mutual

theorem text_inj :
    ∀ {v w : Value} {r r' : List Char}, v.WellFormed → w.WellFormed → After r → After r' →
    text F v ++ r = text F w ++ r' → v = w ∧ r = r'
  | v, w, r, r', hv, hw, hr, hr', h => by
    have hkind := kind_eq h
    match v, w, hkind with
    | .null, .null, _ => exact ⟨rfl, List.append_cancel_left h⟩
    | .bool true, .bool true, _ => exact ⟨rfl, List.append_cancel_left h⟩
    | .bool false, .bool false, _ => exact ⟨rfl, List.append_cancel_left h⟩
    | .number n, .number m, _ =>
      rw [text, text] at h
      rw [Value.WellFormed] at hv hw
      obtain ⟨hn, hrr⟩ := span_inj (p := (isNumberChar · = true)) (isNumberChar_numberText n)
        (isNumberChar_numberText m) (fun c t h => by simp [hr c t h])
          (fun c t h => by simp [hr' c t h]) h
      exact ⟨congrArg _ (numberText_inj hv hw hn), hrr⟩
    | .string s, .string s', _ =>
      rw [text, text] at h
      obtain ⟨hs, hrr⟩ := quote_inj h
      exact ⟨congrArg _ hs, hrr⟩
    | .array [], .array [], _ => exact ⟨rfl, List.append_cancel_left h⟩
    | .array [], .array (w :: ws), _ =>
      simp only [text, List.cons_append, List.append_assoc] at h
      exact (text_ne_of_leadKind (by decide) (List.cons.inj h).2.symm).elim
    | .array (v :: vs), .array [], _ =>
      simp only [text, List.cons_append, List.append_assoc] at h
      exact (text_ne_of_leadKind (by decide) (List.cons.inj h).2).elim
    | .array (v :: vs), .array (w :: ws), _ =>
      rw [Value.WellFormed, itemsWellFormed] at hv hw
      simp only [text, List.cons_append, List.append_assoc, List.cons.injEq, true_and] at h
      obtain ⟨rfl, hrest⟩ := text_inj hv.1 hw.1 (.moreItems vs r) (.moreItems ws r') h
      obtain ⟨rfl, hrr⟩ := moreItems_inj hv.2 hw.2 hrest
      exact ⟨rfl, hrr⟩
    | .object [], .object [], _ => exact ⟨rfl, List.append_cancel_left h⟩
    | .object [], .object ((k, w) :: gs), _ => simp [text, quote] at h
    | .object ((k, v) :: fs), .object [], _ => simp [text, quote] at h
    | .object ((k, v) :: fs), .object ((k', w) :: gs), _ =>
      rw [Value.WellFormed, fieldsWellFormed] at hv hw
      simp only [text, List.cons_append, List.append_assoc, List.cons.injEq, true_and] at h
      obtain ⟨rfl, hcolon⟩ := quote_inj h
      obtain ⟨rfl, hrest⟩ := text_inj hv.2.1 hw.2.1 (.moreFields fs r) (.moreFields gs r')
        (List.cons.inj hcolon).2
      obtain ⟨rfl, hrr⟩ := moreFields_inj hv.2.2 hw.2.2 hrest
      exact ⟨rfl, hrr⟩

theorem moreItems_inj : ∀ {vs ws : List Value} {r r' : List Char}, itemsWellFormed vs →
    itemsWellFormed ws → moreItems F vs ++ r = moreItems F ws ++ r' → vs = ws ∧ r = r'
  | [], [], r, r', _, _, h => ⟨rfl, by simpa [moreItems] using h⟩
  | [], w :: ws, r, r', _, _, h => by simp [moreItems] at h
  | v :: vs, [], r, r', _, _, h => by simp [moreItems] at h
  | v :: vs, w :: ws, r, r', hv, hw, h => by
    rw [itemsWellFormed] at hv hw
    simp only [moreItems, List.cons_append, List.append_assoc, List.cons.injEq, true_and] at h
    obtain ⟨rfl, hrest⟩ := text_inj hv.1 hw.1 (.moreItems vs r) (.moreItems ws r') h
    obtain ⟨rfl, hr⟩ := moreItems_inj hv.2 hw.2 hrest
    exact ⟨rfl, hr⟩

theorem moreFields_inj : ∀ {fs gs : List (String × Value)} {r r' : List Char}, fieldsWellFormed fs →
    fieldsWellFormed gs → moreFields F fs ++ r = moreFields F gs ++ r' → fs = gs ∧ r = r'
  | [], [], r, r', _, _, h => ⟨rfl, by simpa [moreFields] using h⟩
  | [], (k, w) :: gs, r, r', _, _, h => by simp [moreFields] at h
  | (k, v) :: fs, [], r, r', _, _, h => by simp [moreFields] at h
  | (k, v) :: fs, (k', w) :: gs, r, r', hv, hw, h => by
    rw [fieldsWellFormed] at hv hw
    simp only [moreFields, List.cons_append, List.append_assoc, List.cons.injEq, true_and] at h
    obtain ⟨rfl, hcolon⟩ := quote_inj h
    obtain ⟨rfl, hrest⟩ :=
      text_inj hv.1 hw.1 (.moreFields fs r) (.moreFields gs r') (List.cons.inj hcolon).2
    obtain ⟨rfl, hr⟩ := moreFields_inj hv.2 hw.2 hrest
    exact ⟨rfl, hr⟩

end

theorem text_injective {v w : Value} (hv : v.WellFormed) (hw : w.WellFormed)
    (h : text F v = text F w) : v = w := by
  have hend : After [] := by rintro c t ⟨⟩
  have hword : text F v ++ [] = text F w ++ [] := by rw [h]
  exact (text_inj hv hw hend hend hword).1

theorem text_ne_nil (v : Value) : text F v ≠ [] := by
  obtain ⟨c, t, h, -⟩ := exists_lead (F := F) v
  rw [h]
  exact List.cons_ne_nil c t

end Values

/-- A float as its bits. -/
def bitsText : FloatText where
  text bits := 'e' :: Nat.toDigits 10 bits.toNat
  nonempty _ := List.cons_ne_nil _ _
  numberChars bits c hc := by
    rcases List.mem_cons.1 hc with rfl | hc
    · decide
    · exact isNumberChar_of_isDigit (isDigit_toDigits hc)
  notInteger bits := ⟨'e', List.mem_cons_self, by decide⟩
  inj a b _ _ h := UInt64.toNat_inj.1 (toDigits_inj (List.cons.inj h).2)

section Printable

variable {F}

/-- No control character. -/
def Printable (l : List Char) : Prop := ∀ c ∈ l, 32 ≤ c.toNat

instance (l : List Char) : Decidable (Printable l) :=
  List.decidableBAll (fun c : Char => 32 ≤ c.toNat) l

theorem Printable.append {a b : List Char} (ha : Printable a) (hb : Printable b) :
    Printable (a ++ b) :=
  fun c hc => (List.mem_append.1 hc).elim (ha c) (hb c)

theorem Printable.cons {c : Char} {l : List Char} (hc : 32 ≤ c.toNat) (hl : Printable l) :
    Printable (c :: l) := List.forall_mem_cons.2 ⟨hc, hl⟩

theorem printable_escapeChar (c : Char) : Printable (escapeChar c) := by
  by_cases hc : c ∈ escaped
  · have hall : (escaped.all fun c => decide (Printable (escapeChar c))) = true := by decide +kernel
    exact of_decide_eq_true (List.all_eq_true.1 hall c hc)
  · rw [escapeChar_of_notMem hc]
    intro d hd
    obtain rfl := List.mem_singleton.1 hd
    by_contra hlow
    exact hc (List.mem_append_left _ (List.mem_map.2
      ⟨d.toNat, List.mem_range.2 (by omega), Char.ofNat_toNat d⟩))

theorem printable_quote (s : String) : Printable (quote s) := by
  refine .cons (by decide) (.append ?_ (by decide))
  intro c hc
  obtain ⟨d, -, hd⟩ := List.mem_flatMap.1 hc
  exact printable_escapeChar d c hd

theorem printable_numberText (n : Number) : Printable (numberText F n) := by
  intro c hc
  have h := isNumberChar_numberText n c hc
  by_contra hlow
  have hall : ∀ i < 32, isNumberChar (Char.ofNat i) = false := by decide
  rw [← Char.ofNat_toNat c, hall c.toNat (by omega)] at h
  cases h

mutual

theorem printable_text : ∀ v : Value, Printable (text F v)
  | .null => by rw [text]; decide
  | .bool true => by rw [text]; decide
  | .bool false => by rw [text]; decide
  | .number n => by rw [text]; exact printable_numberText n
  | .string s => by rw [text]; exact printable_quote s
  | .array [] => by rw [text]; decide
  | .array (v :: vs) => by
    rw [text]; exact .cons (by decide) (.append (printable_text v) (printable_moreItems vs))
  | .object [] => by rw [text]; decide
  | .object ((k, v) :: fs) => by
    rw [text]
    exact .cons (by decide) (.append (printable_quote k)
      (.cons (by decide) (.append (printable_text v) (printable_moreFields fs))))

theorem printable_moreItems : ∀ vs : List Value, Printable (moreItems F vs)
  | [] => by rw [moreItems]; decide
  | v :: vs => by
    rw [moreItems]; exact .cons (by decide) (.append (printable_text v) (printable_moreItems vs))

theorem printable_moreFields : ∀ fs : List (String × Value), Printable (moreFields F fs)
  | [] => by rw [moreFields]; decide
  | (k, v) :: fs => by
    rw [moreFields]
    exact .cons (by decide) (.append (printable_quote k)
      (.cons (by decide) (.append (printable_text v) (printable_moreFields fs))))

end

end Printable

end Json
end Aisix
