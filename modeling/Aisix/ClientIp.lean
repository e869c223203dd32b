import Aisix.IpAddr
import Mathlib.Data.List.TakeDrop

/-!
# Aisix.ClientIp

The address of the client behind trusted proxies: what a forwarding header lists, read from the
right, and the walk over it.
-/

namespace Aisix
namespace ClientIp

section Resolve

variable {Net : Type} (contains : Net → IpAddr → Bool)

/-- An address is compared with the configured networks in its canonical form. -/
def isTrusted (trusted : List Net) (ip : IpAddr) : Bool :=
  trusted.any fun n => contains n ip.toCanonical

def resolveClientIp (peer : IpAddr) (forwarded : List IpAddr) (trusted : List Net)
    (recursive : Bool) : IpAddr :=
  let peer := peer.toCanonical
  if !isTrusted contains trusted peer then peer
  else if recursive then
    match forwarded.reverse.find? fun ip => !isTrusted contains trusted ip with
    | some ip => ip
    | none => forwarded.head?.getD peer
  else forwarded.getLast?.getD peer

end Resolve

/-! ### The forwarding header -/

abbrev Bytes := List UInt8

def COMMA : UInt8 := 0x2c

def split (sep : UInt8) : Bytes → List Bytes
  | [] => [[]]
  | b :: bs =>
    if b = sep then [] :: split sep bs
    else
      match split sep bs with
      | piece :: pieces => (b :: piece) :: pieces
      | [] => [[b]]

def isAsciiWhitespace (b : UInt8) : Bool := b = 0x20 ∨ b = 0x09 ∨ b = 0x0a ∨ b = 0x0c ∨ b = 0x0d

def trimAscii (bytes : Bytes) : Bytes :=
  ((bytes.dropWhile isAsciiWhitespace).reverse.dropWhile isAsciiWhitespace).reverse

/-- The elements of the header's fields, in received order; an empty element is no token. -/
def tokens (fields : List Bytes) : List Bytes :=
  ((fields.flatMap (split COMMA)).map trimAscii).filter fun tok => !tok.isEmpty

def stripPrefix (c : Char) : List Char → Option (List Char)
  | c' :: cs => if c' = c then some cs else none
  | [] => none

/-- What stands before the last `c`. -/
def rsplitOnce (c : Char) (s : List Char) : Option (List Char) :=
  if s.contains c then some ((s.reverse.dropWhile (· ≠ c)).drop 1).reverse else none

def parseForwardedToken (tok : List Char) : Option IpAddr :=
  if tok.isEmpty then none
  else
    match stripPrefix '[' tok with
    | some rest =>
      let inner := rest.takeWhile (· ≠ ']')
      (IpAddr.fromStr inner).map (·.toCanonical)
    | none =>
      match IpAddr.fromStr tok with
      | some ip => some ip.toCanonical
      | none =>
        if tok.count ':' = 1 then
          match rsplitOnce ':' tok with
          | some host => (IpAddr.fromStr host).map (·.toCanonical)
          | none => none
        else none

/-- A token that is not text names no address. -/
def parseBytes (tok : Bytes) : Option IpAddr :=
  (String.fromUTF8? ⟨tok.toArray⟩).bind fun s => parseForwardedToken s.toList

def mapWhile {α β : Type} (f : α → Option β) : List α → List β
  | [] => []
  | x :: xs =>
    match f x with
    | some y => y :: mapWhile f xs
    | none => []

def parseForwarded (fields : List Bytes) : List IpAddr :=
  (mapWhile parseBytes (tokens fields).reverse).reverse

/-! ### What stands further left -/

/-- The fields end with `right`: whole fields stand before it, or the first of its fields goes on
behind a comma. -/
inductive EndsWith : List Bytes → List Bytes → Prop
  | fields (left right : List Bytes) : EndsWith right (left ++ right)
  | inside (left : List Bytes) (l r : Bytes) (rs : List Bytes) :
      EndsWith (r :: rs) (left ++ (l ++ COMMA :: r) :: rs)

theorem split_ne_nil (sep : UInt8) (bytes : Bytes) : split sep bytes ≠ [] := by
  cases bytes with
  | nil => simp [split]
  | cons b bs =>
    rw [split]
    split
    · simp
    · split <;> simp

theorem split_append (sep : UInt8) (l r : Bytes) :
    split sep (l ++ sep :: r) = split sep l ++ split sep r := by
  induction l with
  | nil => simp [split]
  | cons b bs ih =>
    rw [List.cons_append, split, split, ih]
    split
    · rfl
    · cases hpieces : split sep bs with
      | nil => exact absurd hpieces (split_ne_nil sep bs)
      | cons piece pieces => rfl

theorem tokens_append (fs gs : List Bytes) : tokens (fs ++ gs) = tokens fs ++ tokens gs := by
  simp [tokens]

theorem tokens_inside (left : List Bytes) (l r : Bytes) (rs : List Bytes) :
    tokens (left ++ (l ++ COMMA :: r) :: rs) = tokens (left ++ [l]) ++ tokens (r :: rs) := by
  simp [tokens, split_append]

theorem EndsWith.tokens_eq {right sent : List Bytes} (h : EndsWith right sent) :
    ∃ front, tokens sent = front ++ tokens right := by
  cases h with
  | fields left => exact ⟨_, tokens_append left right⟩
  | inside left l r rs => exact ⟨_, tokens_inside left l r rs⟩

theorem mapWhile_append {α β : Type} {f : α → Option β} {xs : List α} (ys : List α)
    (h : ∀ x ∈ xs, (f x).isSome) : mapWhile f (xs ++ ys) = mapWhile f xs ++ mapWhile f ys := by
  induction xs with
  | nil => rfl
  | cons x xs ih =>
    obtain ⟨hx, hxs⟩ := List.forall_mem_cons.1 h
    obtain ⟨y, hy⟩ := Option.isSome_iff_exists.1 hx
    simp only [List.cons_append, mapWhile, hy, ih hxs]

/-- The tokens on the right are read first: they come last in the list, whatever is read before
them. -/
theorem parseForwarded_eq {right sent : List Bytes} (h : EndsWith right sent)
    (hparse : ∀ tok ∈ tokens right, (parseBytes tok).isSome) :
    ∃ front, parseForwarded sent = front ++ parseForwarded right := by
  obtain ⟨front, hfront⟩ := h.tokens_eq
  refine ⟨(mapWhile parseBytes front.reverse).reverse, ?_⟩
  rw [parseForwarded, hfront, List.reverse_append, mapWhile_append,
    List.reverse_append, parseForwarded]
  intro tok htok
  exact hparse tok (List.mem_reverse.1 htok)

theorem parseForwarded_ne_nil {right : List Bytes}
    (hparse : ∀ tok ∈ tokens right, (parseBytes tok).isSome)
    (hne : tokens right ≠ []) : parseForwarded right ≠ [] := by
  obtain ⟨front, tok, hlast⟩ : ∃ front tok, tokens right = front ++ [tok] :=
    ⟨_, _, (List.dropLast_concat_getLast hne).symm⟩
  obtain ⟨ip, hip⟩ := Option.isSome_iff_exists.1 (hparse tok (by simp [hlast]))
  rw [parseForwarded, hlast]
  simp [mapWhile, hip]

section Unspoofed

variable {Net : Type} (contains : Net → IpAddr → Bool) (trusted : List Net)

theorem resolveClientIp_append {recursive : Bool} (peer : IpAddr) (front : List IpAddr)
    {tail : List IpAddr}
    (hpoint : if recursive then ∃ ip ∈ tail, isTrusted contains trusted ip = false else tail ≠ []) :
    resolveClientIp contains peer (front ++ tail) trusted recursive =
      resolveClientIp contains peer tail trusted recursive := by
  cases recursive with
  | true =>
    obtain ⟨ip, hip, huntrusted⟩ := hpoint
    have hfind : (tail.reverse.find? fun ip => !isTrusted contains trusted ip).isSome :=
      List.find?_isSome.2 ⟨ip, List.mem_reverse.2 hip, by simp [huntrusted]⟩
    obtain ⟨client, hclient⟩ := Option.isSome_iff_exists.1 hfind
    simp only [resolveClientIp, if_true, List.reverse_append, List.find?_append,
      hclient, Option.some_or]
  | false =>
    have hne : tail ≠ [] := hpoint
    simp only [resolveClientIp, Bool.false_eq_true, if_false, List.getLast?_append,
      List.getLast?_eq_some_getLast hne, Option.some_or]

theorem fromStr_bracket (s : List Char) : IpAddr.fromStr ('[' :: s) = none := by
  refine IpText.fromStr_none (by decide) fun radix => ?_
  simp [IpText.toDigit]

/-- What the left of the forwarding header says does not matter, nor does any of it while the peer
is not trusted; and an IPv4-mapped address is its IPv4 address. -/
theorem resolveClientIp_unspoofed (recursive : Bool) (peer : IpAddr) :
    (∀ right sent sent' : List Bytes, EndsWith right sent → EndsWith right sent' →
      (∀ tok ∈ tokens right, (parseBytes tok).isSome) →
      (if recursive then ∃ ip ∈ parseForwarded right, isTrusted contains trusted ip =
        false else tokens right ≠ []) →
      resolveClientIp contains peer (parseForwarded sent) trusted recursive =
        resolveClientIp contains peer (parseForwarded sent') trusted recursive) ∧
    (isTrusted contains trusted peer = false → ∀ sent : List Bytes,
      resolveClientIp contains peer (parseForwarded sent) trusted recursive = peer.toCanonical) ∧
    ∀ ip : Ipv4Addr,
      isTrusted contains trusted (.v6 ip.toIpv6Mapped) = isTrusted contains trusted (.v4 ip) ∧
      (∀ forwarded, resolveClientIp contains (.v6 ip.toIpv6Mapped) forwarded trusted recursive =
        resolveClientIp contains (.v4 ip) forwarded trusted recursive) ∧
      ∀ text, IpAddr.fromStr text = some (.v6 ip.toIpv6Mapped) →
        parseForwardedToken text = some (.v4 ip) ∧
        (']' ∉ text → ∀ port, parseForwardedToken ('[' :: text ++ ']' :: port) =
        some (.v4 ip)) := by
  refine ⟨fun right sent sent' h h' hparse hpoint => ?_, fun hpeer sent => ?_,
    fun ip => ⟨?_, fun forwarded => ?_, fun text htext => ⟨?_, fun hclosed port => ?_⟩⟩⟩
  · obtain ⟨front, hfront⟩ := parseForwarded_eq h hparse
    obtain ⟨front', hfront'⟩ := parseForwarded_eq h' hparse
    have hpoint' : if recursive then ∃ ip ∈ parseForwarded right,
        isTrusted contains trusted ip = false else parseForwarded right ≠ [] := by
      cases recursive with
      | true => exact hpoint
      | false => exact parseForwarded_ne_nil hparse hpoint
    rw [hfront, hfront', resolveClientIp_append contains trusted peer front hpoint',
      resolveClientIp_append contains trusted peer front' hpoint']
  · have hcanonical : isTrusted contains trusted peer.toCanonical = false := by
      rw [isTrusted, IpAddr.toCanonical_toCanonical]
      exact hpeer
    simp only [resolveClientIp, hcanonical, Bool.not_false, if_true]
  · rw [isTrusted, isTrusted, IpAddr.toCanonical_mapped]
    rfl
  · rw [resolveClientIp, resolveClientIp, IpAddr.toCanonical_mapped]
    rfl
  · cases text with
    | nil => cases htext
    | cons c cs =>
      have hbracket : c ≠ '[' := by
        rintro rfl
        rw [fromStr_bracket] at htext
        cases htext
      simp [parseForwardedToken, stripPrefix, hbracket, htext]
  · have hinner : (text ++ ']' :: port).takeWhile (· ≠ ']') = text := by
      rw [List.takeWhile_append_of_pos]
      · simp
      · intro c hc
        exact decide_eq_true fun heq => hclosed (heq ▸ hc)
    simp only [List.cons_append, parseForwardedToken, List.isEmpty_cons, stripPrefix,
      if_true, hinner, htext, Option.map_some, IpAddr.toCanonical_mapped]
    rfl

end Unspoofed

/-- A network of one address. -/
def single (n : Ipv4Addr) (ip : IpAddr) : Bool := ip = .v4 n

def proxy : Ipv4Addr := ⟨10, 0, 0, 1⟩

/-- The client's own `1.1.1.1` behind an open bracket does not hide the address the proxy appended.
-/
theorem resolveClientIp_unspoofed_bracket :
    resolveClientIp single (.v4 proxy) (parseForwarded ["[1.1.1.1, 9.9.9.9".toUTF8.data.toList])
      [proxy] true = resolveClientIp single (.v4 proxy)
      (parseForwarded [" 9.9.9.9".toUTF8.data.toList]) [proxy] true :=
  (resolveClientIp_unspoofed single [proxy] true (.v4 proxy)).1 [" 9.9.9.9".toUTF8.data.toList] _ _
    (.inside [] "[1.1.1.1".toUTF8.data.toList _ []) (.fields [] _) (by decide +kernel)
      (by decide +kernel)

end ClientIp
end Aisix
