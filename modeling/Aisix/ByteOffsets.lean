import Mathlib.Data.Finset.Card
import Mathlib.Order.Interval.Finset.Nat

/-!
# Aisix.ByteOffsets

A text of characters addressed by bytes: where each character starts, the slices between two such
offsets, and the characters that start in a range of bytes.
-/

namespace Aisix
namespace ByteOffsets

/-- The bytes of a text. -/
def len : List Char → Nat
  | [] => 0
  | c :: cs => c.utf8Size + len cs

/-- Each character with the byte it starts at, counted from `i`. -/
def charIndices (i : Nat) : List Char → List (Nat × Char)
  | [] => []
  | c :: cs => (i, c) :: charIndices (i + c.utf8Size) cs

/-- The text up to the byte `n`. -/
def upTo : List Char → Nat → List Char
  | [], _ => []
  | c :: cs, n => if n = 0 then [] else c :: upTo cs (n - c.utf8Size)

/-- The text from the byte `n`. -/
def onward : List Char → Nat → List Char
  | [], _ => []
  | c :: cs, n => if n = 0 then c :: cs else onward cs (n - c.utf8Size)

/-- The byte at which the character number `k` starts, or the end of the text. -/
def offset (text : List Char) (k : Nat) : Nat := len (text.take k)

@[simp] theorem len_nil : len [] = 0 := rfl

@[simp] theorem len_cons (c : Char) (cs : List Char) : len (c :: cs) = c.utf8Size + len cs := rfl

theorem len_append (cs ds : List Char) : len (cs ++ ds) = len cs + len ds := by
  induction cs with
  | nil => simp
  | cons c cs ih => simp only [List.cons_append, len_cons, ih, Nat.add_assoc]

theorem length_le_len (cs : List Char) : cs.length ≤ len cs := by
  induction cs with
  | nil => exact Nat.le_refl _
  | cons c cs ih =>
    have hpos := c.utf8Size_pos
    simp only [List.length_cons, len_cons]
    omega

@[simp] theorem offset_zero (text : List Char) : offset text 0 = 0 := by simp [offset]

theorem offset_of_length_le {text : List Char} {k : Nat} (h : text.length ≤ k) :
    offset text k = len text := by
  rw [offset, List.take_of_length_le h]

theorem offset_add (text : List Char) (j k : Nat) :
    offset text (j + k) = offset text j + offset (text.drop j) k := by
  rw [offset, List.take_add, len_append]
  rfl

theorem offset_mono (text : List Char) {j k : Nat} (h : j ≤ k) : offset text j ≤ offset text k := by
  obtain ⟨d, rfl⟩ := Nat.exists_eq_add_of_le h
  rw [offset_add]
  exact Nat.le_add_right _ _

theorem offset_lt_offset {text : List Char} {j k : Nat} (h : j < k) (hj : j < text.length) :
    offset text j < offset text k := by
  obtain ⟨d, rfl⟩ := Nat.exists_eq_add_of_le (Nat.le_of_lt h)
  have hlength := length_le_len ((text.drop j).take d)
  rw [List.length_take, List.length_drop] at hlength
  rw [offset_add]
  unfold offset at *
  omega

theorem offset_lt_offset_iff {text : List Char} {j k : Nat} (hj : j ≤ text.length)
    (hk : k ≤ text.length) : offset text j < offset text k ↔ j < k := by
  constructor
  · intro h
    by_contra hle
    have hback := offset_mono text (Nat.le_of_not_lt hle)
    omega
  · intro h
    exact offset_lt_offset h (by omega)

theorem getElem?_charIndices (i : Nat) (text : List Char) (k : Nat) :
    (charIndices i text)[k]? = text[k]?.map fun c => (i + offset text k, c) := by
  induction text generalizing i k with
  | nil => simp [charIndices]
  | cons c cs ih =>
    cases k with
    | zero => simp [charIndices]
    | succ k =>
      rw [charIndices, List.getElem?_cons_succ, List.getElem?_cons_succ, ih]
      simp only [offset, List.take_succ_cons, len_cons, Nat.add_assoc]

theorem length_charIndices (i : Nat) (text : List Char) :
    (charIndices i text).length = text.length := by
  induction text generalizing i with
  | nil => rfl
  | cons c cs ih => rw [charIndices, List.length_cons, ih, List.length_cons]

theorem upTo_offset (text : List Char) (k : Nat) : upTo text (offset text k) = text.take k := by
  induction text generalizing k with
  | nil => simp [upTo]
  | cons c cs ih =>
    cases k with
    | zero => simp [upTo]
    | succ k =>
      have hpos := c.utf8Size_pos
      have hoffset : offset (c :: cs) (k + 1) = c.utf8Size + offset cs k := rfl
      rw [upTo, if_neg (by omega), hoffset, Nat.add_sub_cancel_left, ih, List.take_succ_cons]

theorem onward_offset (text : List Char) (k : Nat) : onward text (offset text k) = text.drop k := by
  induction text generalizing k with
  | nil => simp [onward]
  | cons c cs ih =>
    cases k with
    | zero => simp [onward]
    | succ k =>
      have hpos := c.utf8Size_pos
      have hoffset : offset (c :: cs) (k + 1) = c.utf8Size + offset cs k := rfl
      rw [onward, if_neg (by omega), hoffset, Nat.add_sub_cancel_left, ih, List.drop_succ_cons]

/-! ### The characters of a range -/

/-- The numbers of the characters that start in the bytes from `a` to `b`. -/
def chars (text : List Char) (a b : Nat) : Finset Nat :=
  {k ∈ Finset.range text.length | a ≤ offset text k ∧ offset text k < b}

/-- The byte starts a character, or ends the text. -/
def Boundary (text : List Char) (b : Nat) : Prop := ∃ k ≤ text.length, b = offset text k

theorem mem_chars {text : List Char} {a b k : Nat} :
    k ∈ chars text a b ↔ k < text.length ∧ a ≤ offset text k ∧ offset text k < b := by
  rw [chars, Finset.mem_filter, Finset.mem_range]

theorem chars_offset {text : List Char} {j k : Nat} (hk : k ≤ text.length) :
    chars text (offset text j) (offset text k) = Finset.Ico j k := by
  ext i
  rw [mem_chars, Finset.mem_Ico]
  constructor
  · rintro ⟨hi, hji, hik⟩
    have hlt := (offset_lt_offset_iff (Nat.le_of_lt hi) hk).mp hik
    refine ⟨?_, hlt⟩
    by_contra hij
    have hback := offset_lt_offset (Nat.lt_of_not_le hij) hi
    omega
  · rintro ⟨hji, hik⟩
    exact ⟨by omega, offset_mono text hji, offset_lt_offset hik (by omega)⟩

theorem card_chars_offset {text : List Char} {j k : Nat} (hk : k ≤ text.length) :
    (chars text (offset text j) (offset text k)).card = k - j := by
  rw [chars_offset hk, Nat.card_Ico]

theorem chars_inter (text : List Char) (a b a' b' : Nat) :
    chars text a b ∩ chars text a' b' = chars text (max a a') (min b b') := by
  ext i
  rw [Finset.mem_inter, mem_chars, mem_chars, mem_chars, Nat.max_le, Nat.lt_min]
  omega

end ByteOffsets
end Aisix
