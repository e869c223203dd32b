import Mathlib.Data.List.TakeDrop

/-!
# Aisix.IpAddr

IP addresses and their text forms, as the standard library reads them: dotted IPv4, and IPv6 groups
with one `::` and an IPv4 address at the end.
-/

namespace Aisix

structure Ipv4Addr where
  a : UInt8
  b : UInt8
  c : UInt8
  d : UInt8
  deriving DecidableEq, Repr

structure Ipv6Addr where
  segments : Vector UInt16 8
  deriving DecidableEq

inductive IpAddr where
  | v4 (addr : Ipv4Addr)
  | v6 (addr : Ipv6Addr)
  deriving DecidableEq

/-- Two bytes, the high one first. -/
def fromBeBytes (hi lo : UInt8) : UInt16 := UInt16.ofNat (hi.toNat * 256 + lo.toNat)

def highByte (g : UInt16) : UInt8 := UInt8.ofNat (g.toNat / 256)

def lowByte (g : UInt16) : UInt8 := UInt8.ofNat g.toNat

theorem highByte_fromBeBytes (hi lo : UInt8) : highByte (fromBeBytes hi lo) = hi := by
  have hhi := hi.toNat_lt
  have hlo := lo.toNat_lt
  apply UInt8.toNat_inj.1
  simp only [highByte, fromBeBytes, UInt16.toNat_ofNat', UInt8.toNat_ofNat']
  omega

theorem lowByte_fromBeBytes (hi lo : UInt8) : lowByte (fromBeBytes hi lo) = lo := by
  have hhi := hi.toNat_lt
  have hlo := lo.toNat_lt
  apply UInt8.toNat_inj.1
  simp only [lowByte, fromBeBytes, UInt16.toNat_ofNat', UInt8.toNat_ofNat']
  omega

namespace Ipv4Addr

/-- The address as the last two groups of an IPv6 address. -/
def groups (ip : Ipv4Addr) : List UInt16 := [fromBeBytes ip.a ip.b, fromBeBytes ip.c ip.d]

end Ipv4Addr

namespace Ipv6Addr

def ofGroups (groups : List UInt16) : Ipv6Addr := ⟨Vector.ofFn fun i => groups.getD i 0⟩

def toIpv4Mapped (ip : Ipv6Addr) : Option Ipv4Addr :=
  if ip.segments.toList.take 6 = [0, 0, 0, 0, 0, 0xffff] then
    some ⟨highByte ip.segments[6], lowByte ip.segments[6], highByte ip.segments[7],
      lowByte ip.segments[7]⟩
  else none

end Ipv6Addr

/-- The IPv4-mapped form of an address. -/
def Ipv4Addr.toIpv6Mapped (ip : Ipv4Addr) : Ipv6Addr :=
  .ofGroups ([0, 0, 0, 0, 0, 0xffff] ++ ip.groups)

theorem Ipv4Addr.toIpv4Mapped_toIpv6Mapped (ip : Ipv4Addr) :
    ip.toIpv6Mapped.toIpv4Mapped = some ip := by
  have hsegments :
      ip.toIpv6Mapped.segments =
      #v[0, 0, 0, 0, 0, 0xffff, fromBeBytes ip.a ip.b, fromBeBytes ip.c ip.d] :=
    rfl
  have hfirst : ip.toIpv6Mapped.segments.toList.take 6 = [0, 0, 0, 0, 0, 0xffff] := by
    rw [hsegments]
    rfl
  rw [Ipv6Addr.toIpv4Mapped, if_pos hfirst, hsegments]
  simp [highByte_fromBeBytes, lowByte_fromBeBytes]

namespace IpAddr

def toCanonical : IpAddr → IpAddr
  | .v4 ip => .v4 ip
  | .v6 ip =>
    match ip.toIpv4Mapped with
    | some mapped => .v4 mapped
    | none => .v6 ip

@[simp] theorem toCanonical_mapped (ip : Ipv4Addr) :
    (IpAddr.v6 ip.toIpv6Mapped).toCanonical = .v4 ip := by
  rw [toCanonical, ip.toIpv4Mapped_toIpv6Mapped]

theorem toCanonical_toCanonical (ip : IpAddr) : ip.toCanonical.toCanonical = ip.toCanonical := by
  cases ip with
  | v4 ip => rfl
  | v6 ip =>
    cases h : ip.toIpv4Mapped with
    | some mapped =>
      rw [toCanonical, h]
      rfl
    | none =>
      have hsame : (IpAddr.v6 ip).toCanonical = .v6 ip := by rw [toCanonical, h]
      rw [hsame, hsame]

end IpAddr

/-! ### Reading an address -/

namespace IpText

def toDigit (radix : Nat) (c : Char) : Option Nat :=
  let digit :=
    if '0' ≤ c ∧ c ≤ '9' then some (c.toNat - '0'.toNat)
    else if 'a' ≤ c ∧ c ≤ 'z' then some (c.toNat - 'a'.toNat + 10)
    else if 'A' ≤ c ∧ c ≤ 'Z' then some (c.toNat - 'A'.toNat + 10)
    else none
  digit.filter (· < radix)

/-- The digits in front: how many, their value, and what follows; nothing when there are too many.
-/
def readDigits (radix maxDigits count result : Nat) : List Char → Option (Nat × Nat × List Char)
  | [] => some (count, result, [])
  | c :: cs =>
    match toDigit radix c with
    | none => some (count, result, c :: cs)
    | some d =>
      if maxDigits < count + 1 then none
      else readDigits radix maxDigits (count + 1) (result * radix + d) cs

def readNumber (radix maxDigits bound : Nat) (allowZeroPrefix : Bool) (s : List Char) :
    Option (Nat × List Char) :=
  match readDigits radix maxDigits 0 0 s with
  | none => none
  | some (count, result, rest) =>
    if count = 0 then none
    else if !allowZeroPrefix ∧ s.head? = some '0' ∧ 1 < count then none
    else if result < bound then some (result, rest)
    else none

def readGivenChar (c : Char) : List Char → Option (List Char)
  | c' :: cs => if c' = c then some cs else none
  | [] => none

/-- What `inner` reads, behind a separator unless it is the first. -/
def readSeparator {α : Type} (sep : Char) (index : Nat) (inner : List Char → Option (α × List Char))
    (s : List Char) : Option (α × List Char) :=
  if 0 < index then (readGivenChar sep s).bind inner else inner s

def readOctet (index : Nat) (s : List Char) : Option (UInt8 × List Char) :=
  (readSeparator '.' index (readNumber 10 3 256 false) s).map fun r => (UInt8.ofNat r.1, r.2)

def readIpv4Addr (s : List Char) : Option (Ipv4Addr × List Char) := do
  let (a, s) ← readOctet 0 s
  let (b, s) ← readOctet 1 s
  let (c, s) ← readOctet 2 s
  let (d, s) ← readOctet 3 s
  return (⟨a, b, c, d⟩, s)

/-- Up to `left` groups, the first of them the `i`-th: the groups, whether an IPv4 address ended
them, and what follows. -/
def readGroups : (left : Nat) → (i : Nat) → List Char → List UInt16 × Bool × List Char
  | 0, _, s => ([], false, s)
  | left + 1, i, s =>
    match (if 0 < left then readSeparator ':' i readIpv4Addr s else none) with
    | some (v4, rest) => (v4.groups, true, rest)
    | none =>
      match readSeparator ':' i (readNumber 16 4 65536 true) s with
      | some (g, rest) =>
        let (groups, v4, rest) := readGroups left (i + 1) rest
        (UInt16.ofNat g :: groups, v4, rest)
      | none => ([], false, s)

def readIpv6Addr (s : List Char) : Option (Ipv6Addr × List Char) :=
  let (head, headIpv4, rest) := readGroups 8 0 s
  if head.length = 8 then some (.ofGroups head, rest)
  else if headIpv4 then none
  else do
    let rest ← readGivenChar ':' rest
    let rest ← readGivenChar ':' rest
    -- the `::` stands for at least one group
    let (tail, _, rest) := readGroups (8 - (head.length + 1)) 0 rest
    return (.ofGroups (head ++ List.replicate (8 - head.length - tail.length) 0 ++ tail), rest)

def readIpAddr (s : List Char) : Option (IpAddr × List Char) :=
  match readIpv4Addr s with
  | some (ip, rest) => some (.v4 ip, rest)
  | none => (readIpv6Addr s).map fun r => (.v6 r.1, r.2)

end IpText

/-- An address read from the whole of a text. -/
def IpAddr.fromStr (s : List Char) : Option IpAddr :=
  match IpText.readIpAddr s with
  | some (ip, []) => some ip
  | _ => none

namespace IpText

/-! ### The texts of an IPv4 address, and what is no address -/

def decimal (n : UInt8) : List Char := Nat.toDigits 10 n.toNat

def dotted (ip : Ipv4Addr) : List Char :=
  decimal ip.a ++ '.' :: (decimal ip.b ++ '.' :: (decimal ip.c ++ '.' :: decimal ip.d))

def mappedText (ip : Ipv4Addr) : List Char :=
  ':' :: ':' :: 'f' :: 'f' :: 'f' :: 'f' :: ':' :: dotted ip

/-- The text ends or goes on with no digit. -/
def Stops (radix : Nat) (rest : List Char) : Prop := ∀ c ∈ rest.head?, toDigit radix c = none

theorem readDigits_stops {radix maxDigits count result : Nat} {rest : List Char}
    (h : Stops radix rest) :
    readDigits radix maxDigits count result rest = some (count, result, rest) := by
  cases rest with
  | nil => rfl
  | cons c cs => rw [readDigits, h c rfl]

theorem readNumber_none {radix maxDigits bound : Nat} {allowZeroPrefix : Bool} {s : List Char}
    (h : Stops radix s) : readNumber radix maxDigits bound allowZeroPrefix s = none := by
  rw [readNumber, readDigits_stops h]
  simp

theorem readIpv4Addr_none {s : List Char} (h : Stops 10 s) : readIpv4Addr s = none := by
  have hfirst : readOctet 0 s = none := by
    rw [readOctet, readSeparator, if_neg (Nat.lt_irrefl 0), readNumber_none h]
    rfl
  rw [readIpv4Addr, hfirst]
  rfl

theorem readGroups_stops {left : Nat} {s : List Char} (h10 : Stops 10 s) (h16 : Stops 16 s) :
    readGroups left 0 s = ([], false, s) := by
  cases left with
  | zero => rfl
  | succ left =>
    have hv4 : (if 0 < left then readSeparator ':' 0 readIpv4Addr s else none) = none := by
      split
      · rw [readSeparator, if_neg (Nat.lt_irrefl 0), readIpv4Addr_none h10]
      · rfl
    rw [readGroups, hv4]
    dsimp only
    rw [readSeparator, if_neg (Nat.lt_irrefl 0), readNumber_none h16]

theorem fromStr_none {c : Char} {cs : List Char} (hcolon : c ≠ ':')
    (hdigit : ∀ radix, toDigit radix c = none) : IpAddr.fromStr (c :: cs) = none := by
  have hstops : ∀ radix, Stops radix (c :: cs) := by
    intro radix c' hc'
    obtain rfl := Option.some.inj hc'
    exact hdigit radix
  have hv6 : readIpv6Addr (c :: cs) = none := by
    rw [readIpv6Addr, readGroups_stops (hstops 10) (hstops 16)]
    simp [readGivenChar, hcolon]
  rw [IpAddr.fromStr, readIpAddr, readIpv4Addr_none (hstops 10), hv6]
  rfl

end IpText
end Aisix
