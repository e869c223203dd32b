import Mathlib.Data.List.Infix
import Mathlib.Tactic.SplitIfs

/-!
# Aisix.Utf8

Texts as bytes.

* `decode?_eq_some_iff` — the bytes that can be read are those of a text, and they are read as it.
* `infix_bytes_iff` — the bytes of an ASCII word occur in those of a text where the word occurs in
  the text.
-/

namespace Aisix
namespace Utf8

def bytes (s : String) : List UInt8 := s.toUTF8.data.toList

/-- `str::from_utf8`. -/
def decode? (b : List UInt8) : Option String := String.fromUTF8? ⟨b.toArray⟩

/-- The longest part in front that can be read. -/
def validUpTo (b : List UInt8) : Nat :=
  ((List.range (b.length + 1)).reverse.find? fun n => (decode? (b.take n)).isSome).getD 0

@[simp] theorem decode?_bytes (s : String) : decode? (bytes s) = some s := by
  simp [decode?, bytes, String.fromUTF8?, s.isValidUTF8, String.fromUTF8]

theorem bytes_of_decode? {b : List UInt8} {s : String} (h : decode? b = some s) : bytes s = b := by
  unfold decode? String.fromUTF8? at h
  split at h
  · obtain rfl := Option.some.inj h
    simp [bytes, String.fromUTF8]
  · cases h

theorem decode?_eq_some_iff {b : List UInt8} {s : String} : decode? b = some s ↔ b = bytes s := by
  constructor
  · intro h
    exact (bytes_of_decode? h).symm
  · rintro rfl
    exact decode?_bytes s

theorem bytes_injective {s t : String} (h : bytes s = bytes t) : s = t := by
  have hsome := decode?_bytes s
  rw [h, decode?_bytes] at hsome
  exact (Option.some.inj hsome).symm

/-- A byte of a character is its number, or one that only longer characters have. -/
theorem utf8EncodeChar_byte {c : Char} {b : UInt8} (h : b ∈ String.utf8EncodeChar c) :
    (b.toNat = c.toNat ∧ b.toNat < 128) ∨ (128 ≤ b.toNat ∧ b.toNat < 255) := by
  have hval : c.toNat = c.val.toNat := rfl
  have hmax : c.val.toNat < 1114112 := by
    have hvalid := c.valid
    simp only [UInt32.isValidChar, Nat.isValidChar] at hvalid
    omega
  have hbyte : ∀ n : Nat, n < 256 → (UInt8.ofNat n).toNat = n := by
    intro n hn
    simp
    omega
  unfold String.utf8EncodeChar at h
  dsimp only at h
  rw [hval]
  split_ifs at h with h1 h2 h3
  · obtain rfl := List.mem_singleton.1 h
    rw [hbyte _ (by omega)]
    exact .inl ⟨rfl, by omega⟩
  all_goals
    right
    simp only [List.mem_cons, List.not_mem_nil, or_false] at h
  · rcases h with rfl | rfl
    all_goals rw [hbyte _ (by omega)]; omega
  · rcases h with rfl | rfl | rfl
    all_goals rw [hbyte _ (by omega)]; omega
  · rcases h with rfl | rfl | rfl | rfl
    all_goals rw [hbyte _ (by omega)]; omega

theorem bytes_ofList (l : List Char) :
    bytes (String.ofList l) = l.flatMap String.utf8EncodeChar := by
  rw [bytes, String.toUTF8, String.toByteArray_ofList]
  simp [List.utf8Encode]

theorem exists_utf8EncodeChar_cons (c : Char) : ∃ b t, String.utf8EncodeChar c = b :: t := by
  refine List.exists_cons_of_ne_nil ?_
  intro h
  have hlength := String.length_utf8EncodeChar c
  rw [h, List.length_nil] at hlength
  exact absurd hlength.symm (Nat.ne_of_gt c.utf8Size_pos)

theorem utf8EncodeChar_ascii {c : Char} (h : c.toNat < 128) :
    ∃ b : UInt8, String.utf8EncodeChar c = [b] ∧ b.toNat = c.toNat := by
  have hsize : c.utf8Size = 1 :=
    Char.utf8Size_eq_one_iff.mpr (UInt32.le_iff_toNat_le.mpr (Nat.le_of_lt_succ h))
  obtain ⟨b, t, hbt⟩ := exists_utf8EncodeChar_cons c
  have hlength := String.length_utf8EncodeChar c
  rw [hbt, hsize, List.length_cons] at hlength
  have ht : t = [] := List.length_eq_zero_iff.mp (Nat.succ.inj hlength)
  subst ht
  refine ⟨b, hbt, ?_⟩
  rcases utf8EncodeChar_byte
    (hbt ▸ List.mem_singleton_self b : b ∈ String.utf8EncodeChar c) with ⟨heq, -⟩ | ⟨hge, -⟩
  · exact heq
  · exfalso
    rw [String.utf8EncodeChar_eq_singleton hsize] at hbt
    obtain rfl := (List.cons.inj hbt).1
    have hb : c.val.toUInt8.toNat = c.toNat := by
      change c.val.toNat % 256 = c.toNat
      exact Nat.mod_eq_of_lt (by change c.toNat < 256; omega)
    omega

section Words

variable {word : List Char}

theorem prefix_of_flatMap (hascii : ∀ c ∈ word, c.toNat < 128) :
    ∀ {l : List Char}, word.flatMap String.utf8EncodeChar <+: l.flatMap String.utf8EncodeChar →
      word <+: l := by
  induction word with
  | nil => exact fun _ => List.nil_prefix
  | cons c word ih =>
    intro l h
    obtain ⟨b, hb, hbc⟩ := utf8EncodeChar_ascii (hascii c List.mem_cons_self)
    cases l with
    | nil =>
      rw [List.flatMap_cons, hb, List.flatMap_nil] at h
      exact absurd (List.prefix_nil.mp h) (List.cons_ne_nil _ _)
    | cons d l =>
      obtain ⟨e, t, het⟩ := exists_utf8EncodeChar_cons d
      have hhead := h
      rw [List.flatMap_cons, List.flatMap_cons, hb, het, List.singleton_append, List.cons_append,
        List.cons_prefix_cons] at hhead
      have hmem : b ∈ String.utf8EncodeChar d := by
        rw [het, hhead.1]
        exact List.mem_cons_self
      have hcd : c = d := by
        have hlt := hascii c List.mem_cons_self
        refine Char.toNat_inj.mp ?_
        rcases utf8EncodeChar_byte hmem with ⟨heq, -⟩ | ⟨hge, -⟩ <;> omega
      subst hcd
      rw [List.flatMap_cons, List.flatMap_cons, List.prefix_append_right_inj] at h
      exact List.cons_prefix_cons.mpr ⟨rfl, ih (fun x hx => hascii x (List.mem_cons_of_mem c hx)) h⟩

theorem infix_of_flatMap (hascii : ∀ c ∈ word, c.toNat < 128) (hword : word ≠ []) :
    ∀ {l : List Char}, word.flatMap String.utf8EncodeChar <:+: l.flatMap String.utf8EncodeChar →
      word <:+: l := by
  obtain ⟨first, more, rfl⟩ := List.exists_cons_of_ne_nil hword
  obtain ⟨b, hb, hbc⟩ := utf8EncodeChar_ascii (hascii first List.mem_cons_self)
  have hlt := hascii first List.mem_cons_self
  intro l
  induction l with
  | nil =>
    intro h
    rw [List.flatMap_cons, hb, List.flatMap_nil] at h
    exact absurd (List.infix_nil.mp h) (List.cons_ne_nil _ _)
  | cons d l ih =>
    intro h
    obtain ⟨s, t, hst⟩ := h
    have hcons : (d :: l).flatMap String.utf8EncodeChar = String.utf8EncodeChar d ++
        l.flatMap String.utf8EncodeChar :=
      List.flatMap_cons
    rw [hcons, List.append_assoc] at hst
    -- the occurrence starts within the character, or behind it
    rcases List.append_eq_append_iff.mp hst with ⟨u, hu, hrest⟩ | ⟨u, -, hrest⟩
    · cases u with
      | nil =>
        rw [List.nil_append] at hrest
        exact (ih ⟨[], t, hrest⟩).trans (List.suffix_cons d l).isInfix
      | cons e u =>
        have heb : e = b := by
          rw [List.flatMap_cons, hb] at hrest
          exact (List.cons.inj hrest).1.symm
        have hmem : b ∈ String.utf8EncodeChar d := by
          rw [hu, ← heb]
          exact List.mem_append_right s List.mem_cons_self
        have hd : d.toNat < 128 := by
          rcases utf8EncodeChar_byte hmem with ⟨heq, -⟩ | ⟨hge, -⟩ <;> omega
        obtain ⟨b', hb', -⟩ := utf8EncodeChar_ascii hd
        have hs : s = [] := by
          rw [hb'] at hu
          cases s with
          | nil => rfl
          | cons x s =>
            have hnil := (List.cons.inj hu).2
            exact absurd hnil.symm (by simp)
        subst hs
        refine (prefix_of_flatMap hascii (l := d :: l) ⟨t, ?_⟩).isInfix
        rw [hcons]
        exact hst
    · refine (ih ⟨u, t, ?_⟩).trans (List.suffix_cons d l).isInfix
      rw [List.append_assoc]
      exact hrest.symm

theorem infix_bytes_iff (hascii : ∀ c ∈ word, c.toNat < 128) (hword : word ≠ []) {l : List Char} :
    bytes (String.ofList word) <:+: bytes (String.ofList l) ↔ word <:+: l := by
  rw [bytes_ofList, bytes_ofList]
  constructor
  · exact infix_of_flatMap hascii hword
  · rintro ⟨s, t, rfl⟩
    exact ⟨s.flatMap String.utf8EncodeChar, t.flatMap String.utf8EncodeChar, by simp⟩

end Words

end Utf8
end Aisix
