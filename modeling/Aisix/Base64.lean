import Mathlib.Data.List.Basic

/-!
# Aisix.Base64

Base64 in the URL-safe alphabet, without padding: three bytes are four characters, and a tail of one
or two bytes is two or three, whose spare bits are zero.

* `decode_encode`    — decoding what was encoded.
* `encode_of_decode` — a text that decodes is the encoding of what it decodes to: no two texts share
  bytes.
-/

namespace Aisix
namespace Base64

def toChar (n : Nat) : Char :=
  if n < 26 then .ofNat (n + 65)
  else if n < 52 then .ofNat (n + 71)
  else if n < 62 then .ofNat (n - 4)
  else if n = 62 then '-' else '_'

def ofChar (c : Char) : Option Nat :=
  let v := c.toNat
  if 65 ≤ v ∧ v ≤ 90 then some (v - 65)
  else if 97 ≤ v ∧ v ≤ 122 then some (v - 71)
  else if 48 ≤ v ∧ v ≤ 57 then some (v + 4)
  else if c = '-' then some 62
  else if c = '_' then some 63
  else none

theorem ofChar_toChar {n : Nat} (h : n < 64) : ofChar (toChar n) = some n := by
  have hall : ∀ n : Fin 64, ofChar (toChar n) = some n.val := by decide
  exact hall ⟨n, h⟩

theorem toChar_of_ofChar {c : Char} {n : Nat} (h : ofChar c = some n) : n < 64 ∧ toChar n = c := by
  have hc : Char.ofNat c.toNat = c := Char.ofNat_toNat c
  simp only [ofChar] at h
  by_cases hupper : 65 ≤ c.toNat ∧ c.toNat ≤ 90
  · rw [if_pos hupper, Option.some.injEq] at h
    have hadd : c.toNat - 65 + 65 = c.toNat := by omega
    subst h
    exact ⟨by omega, by rw [toChar, if_pos (by omega), hadd, hc]⟩
  rw [if_neg hupper] at h
  by_cases hlower : 97 ≤ c.toNat ∧ c.toNat ≤ 122
  · rw [if_pos hlower, Option.some.injEq] at h
    have hadd : c.toNat - 71 + 71 = c.toNat := by omega
    subst h
    exact ⟨by omega, by rw [toChar, if_neg (by omega), if_pos (by omega), hadd, hc]⟩
  rw [if_neg hlower] at h
  by_cases hdigit : 48 ≤ c.toNat ∧ c.toNat ≤ 57
  · rw [if_pos hdigit, Option.some.injEq] at h
    subst h
    refine ⟨by omega, ?_⟩
    rw [toChar, if_neg (by omega), if_neg (by omega), if_pos (by omega), Nat.add_sub_cancel, hc]
  rw [if_neg hdigit] at h
  by_cases hdash : c = '-'
  · rw [if_pos hdash, Option.some.injEq] at h
    subst h
    exact ⟨by omega, hdash.symm⟩
  rw [if_neg hdash] at h
  by_cases hunder : c = '_'
  · rw [if_pos hunder, Option.some.injEq] at h
    subst h
    exact ⟨by omega, hunder.symm⟩
  · rw [if_neg hunder] at h
    cases h

/-- Bytes as six-bit digits. -/
def sextets : List UInt8 → List Nat
  | [] => []
  | [a] => [a.toNat / 4, a.toNat % 4 * 16]
  | [a, b] => [a.toNat / 4, a.toNat % 4 * 16 + b.toNat / 16, b.toNat % 16 * 4]
  | a :: b :: c :: rest =>
    a.toNat / 4 :: (a.toNat % 4 * 16 + b.toNat / 16) :: (b.toNat % 16 * 4 + c.toNat / 64) ::
      c.toNat % 64 :: sextets rest

/-- Six-bit digits as bytes, refused when spare bits are set or a digit stands alone. -/
def octets : List Nat → Option (List UInt8)
  | [] => some []
  | [_] => none
  | [p, q] => if q % 16 = 0 then some [.ofNat (p * 4 + q / 16)] else none
  | [p, q, r] =>
    if r % 4 = 0 then some [.ofNat (p * 4 + q / 16), .ofNat (q % 16 * 16 + r / 4)] else none
  | p :: q :: r :: s :: rest =>
    (octets rest).map fun bytes =>
      .ofNat (p * 4 + q / 16) :: .ofNat (q % 16 * 16 + r / 4) :: .ofNat (r % 4 * 64 + s) :: bytes

def encode (bytes : List UInt8) : List Char := (sextets bytes).map toChar

def decode (text : List Char) : Option (List UInt8) := (text.mapM ofChar).bind octets

theorem ofNat_eq_of_toNat {n : Nat} {b : UInt8} (h : n = b.toNat) : UInt8.ofNat n = b := by
  rw [h, UInt8.ofNat_toNat]

theorem octets_sextets (bytes : List UInt8) : octets (sextets bytes) = some bytes := by
  induction bytes using sextets.induct with
  | case1 => rfl
  | case2 a =>
    have ha := a.toNat_lt
    have hback : UInt8.ofNat (a.toNat / 4 * 4 + a.toNat % 4 * 16 / 16) = a :=
      ofNat_eq_of_toNat (by omega)
    have hspare : a.toNat % 4 * 16 % 16 = 0 := by omega
    simp only [sextets, octets, hspare, if_true, hback]
  | case3 a b =>
    have ha := a.toNat_lt
    have hb := b.toNat_lt
    have hback : UInt8.ofNat (a.toNat / 4 * 4 + (a.toNat % 4 * 16 + b.toNat / 16) / 16) = a :=
      ofNat_eq_of_toNat (by omega)
    have hback' :
        UInt8.ofNat ((a.toNat % 4 * 16 + b.toNat / 16) % 16 * 16 + b.toNat % 16 * 4 / 4) = b :=
      ofNat_eq_of_toNat (by omega)
    have hspare : b.toNat % 16 * 4 % 4 = 0 := by omega
    simp only [sextets, octets, hspare, if_true, hback, hback']
  | case4 a b c rest ih =>
    have ha := a.toNat_lt
    have hb := b.toNat_lt
    have hc := c.toNat_lt
    have hback : UInt8.ofNat (a.toNat / 4 * 4 + (a.toNat % 4 * 16 + b.toNat / 16) / 16) = a :=
      ofNat_eq_of_toNat (by omega)
    have hback' : UInt8.ofNat ((a.toNat % 4 * 16 + b.toNat / 16) % 16 * 16 +
        (b.toNat % 16 * 4 + c.toNat / 64) / 4) = b := ofNat_eq_of_toNat (by omega)
    have hback'' : UInt8.ofNat ((b.toNat % 16 * 4 + c.toNat / 64) % 4 * 64 + c.toNat % 64) = c :=
      ofNat_eq_of_toNat (by omega)
    simp only [sextets, octets, ih, Option.map_some, hback, hback', hback'']

theorem sextets_lt (bytes : List UInt8) : ∀ n ∈ sextets bytes, n < 64 := by
  induction bytes using sextets.induct with
  | case1 => simp [sextets]
  | case2 a =>
    have ha := a.toNat_lt
    simp only [sextets, List.mem_cons, List.not_mem_nil, or_false]
    omega
  | case3 a b =>
    have ha := a.toNat_lt
    have hb := b.toNat_lt
    simp only [sextets, List.mem_cons, List.not_mem_nil, or_false]
    omega
  | case4 a b c rest ih =>
    have ha := a.toNat_lt
    have hb := b.toNat_lt
    have hc := c.toNat_lt
    intro n hn
    simp only [sextets, List.mem_cons] at hn
    rcases hn with rfl | rfl | rfl | rfl | hn
    · omega
    · omega
    · omega
    · omega
    · exact ih n hn

theorem sextets_of_octets {digits : List Nat} {bytes : List UInt8} (hlt : ∀ n ∈ digits, n < 64)
    (h : octets digits = some bytes) : sextets bytes = digits := by
  have hval : ∀ {n : Nat}, n < 256 → (UInt8.ofNat n).toNat = n :=
    fun hn => UInt8.toNat_ofNat_of_lt' hn
  induction digits using octets.induct generalizing bytes with
  | case1 =>
    obtain rfl : [] = bytes := by simpa [octets] using h
    rfl
  | case2 p => simp [octets] at h
  | case3 p q hq =>
    simp only [octets, hq, if_true, Option.some.injEq] at h
    have hp' := hlt p (by simp)
    have hq' := hlt q (by simp)
    subst h
    rw [sextets, hval (by omega)]
    congr 1
    · omega
    · congr 1; omega
  | case4 p q hq => simp [octets, hq] at h
  | case5 p q r hr =>
    simp only [octets, hr, if_true, Option.some.injEq] at h
    have hp' := hlt p (by simp)
    have hq' := hlt q (by simp)
    have hr' := hlt r (by simp)
    subst h
    rw [sextets, hval (by omega), hval (by omega)]
    congr 1
    · omega
    · congr 1
      · omega
      · congr 1; omega
  | case6 p q r hr => simp [octets, hr] at h
  | case7 p q r s rest ih =>
    simp only [octets, Option.map_eq_some_iff] at h
    obtain ⟨tail, htail, rfl⟩ := h
    have hp' := hlt p (by simp)
    have hq' := hlt q (by simp)
    have hr' := hlt r (by simp)
    have hs' := hlt s (by simp)
    rw [sextets, hval (by omega), hval (by omega), hval (by omega),
      ih (fun n hn => hlt n (by simp [hn])) htail]
    congr 1
    · omega
    · congr 1
      · omega
      · congr 1
        · omega
        · congr 1; omega

theorem decode_encode (bytes : List UInt8) : decode (encode bytes) = some bytes := by
  have hmap : ∀ digits : List Nat, (∀ n ∈ digits, n < 64) →
      (digits.map toChar).mapM ofChar = some digits := by
    intro digits hlt
    induction digits with
    | nil => rfl
    | cons n digits ih =>
      have hn := ofChar_toChar (hlt n (by simp))
      have hrest := ih fun m hm => hlt m (by simp [hm])
      simp [hn, hrest]
  rw [decode, encode, hmap _ (sextets_lt bytes), Option.bind_some, octets_sextets]

theorem encode_of_decode {text : List Char} {bytes : List UInt8} (h : decode text = some bytes) :
    text = encode bytes := by
  have hmap : ∀ (text : List Char) (digits : List Nat), text.mapM ofChar = some digits →
      (∀ n ∈ digits, n < 64) ∧ digits.map toChar = text := by
    intro text
    induction text with
    | nil =>
      intro digits hdigits
      obtain rfl : [] = digits := by simpa using hdigits
      simp
    | cons c text ih =>
      intro digits hdigits
      simp only [List.mapM_cons, Option.bind_eq_bind, Option.bind_eq_some_iff, Option.pure_def,
        Option.some.injEq] at hdigits
      obtain ⟨n, hn, rest, hrest, rfl⟩ := hdigits
      obtain ⟨hlt, hchar⟩ := toChar_of_ofChar hn
      obtain ⟨hltrest, htext⟩ := ih rest hrest
      refine ⟨?_, by rw [List.map_cons, hchar, htext]⟩
      intro m hm
      rcases List.mem_cons.mp hm with rfl | hm
      · exact hlt
      · exact hltrest m hm
  obtain ⟨digits, hdigits, hbytes⟩ := Option.bind_eq_some_iff.mp h
  obtain ⟨hlt, rfl⟩ := hmap text digits hdigits
  rw [encode, sextets_of_octets hlt hbytes]

theorem length_encode (bytes : List UInt8) :
    (encode bytes).length = (bytes.length * 4 + 2) / 3 := by
  rw [encode, List.length_map]
  induction bytes using sextets.induct with
  | case1 => rfl
  | case2 a => simp [sextets]
  | case3 a b => simp [sextets]
  | case4 a b c rest ih =>
    simp only [sextets, List.length_cons, ih]
    omega

theorem encode_ascii (bytes : List UInt8) : ∀ c ∈ encode bytes, c.toNat < 128 := by
  have hall : ∀ n : Fin 64, (toChar n).toNat < 128 := by decide
  intro c hc
  obtain ⟨n, hn, rfl⟩ := List.mem_map.mp hc
  exact hall ⟨n, sextets_lt bytes n hn⟩

end Base64
end Aisix
