import Aisix.JsonSplice.Sound

/-!
# Aisix.JsonSplice.Removal

The removal of a top-level member, `removeTopLevelMember`: a valid document is read once more, by a
scan that trusts it, for where its members start and end, and put together again without the ones
that go.

`valueEnd_node` — the second scan finds where a value ends.
-/

namespace Aisix
namespace JsonSplice

open Json Json.Syntax

/-! ### The code -/

/-- A visitor that selects nothing. -/
def idle : Visitor Unit := ⟨fun _ s => (false, s), fun _ s => (none, s)⟩

def validateJson (input : Bytes) : Except SpliceError Unit :=
  (rewriteStringValues idle input ()).map fun _ => ()

/-- `serde_json::from_slice`, for a string. -/
def fromSliceString (raw : List Char) : Option String :=
  match scanString raw with
  | .ok (token, []) => token.decode
  | _ => none

/-- What follows the first unescaped quote; `none` is an index out of bounds, here and below. -/
def stringEnd : List Char → Option (List Char)
  | [] => none
  | c :: r =>
    if c = '\"' then some r
    else if c = '\\' then
      match r with
      | [] => none
      | _ :: r' => stringEnd r'
    else stringEnd r

def containerEnd : Nat → Nat → List Char → Option (List Char)
  | 0, _, _ => none
  | _ + 1, _, [] => none
  | fuel + 1, depth, c :: r =>
    if c = '\"' then (stringEnd r).bind (containerEnd fuel depth)
    else if c = '\x7b' ∨ c = '[' then containerEnd fuel (depth + 1) r
    else if c = '\x7d' ∨ c = ']' then
      if depth = 0 then none else if depth - 1 = 0 then some r else containerEnd fuel (depth - 1) r
    else containerEnd fuel depth r

def endsScalar (c : Char) : Bool := c == ',' || c == '\x7d' || c == ']' || isWhitespace c

def valueEnd : List Char → Option (List Char)
  | [] => none
  | c :: r =>
    if c = '\"' then stringEnd r
    else if c = '\x7b' ∨ c = '[' then containerEnd ((c :: r).length + 1) 0 (c :: r)
    else some ((c :: r).dropWhile fun d => !endsScalar d)

variable (input : List Char) (key : String)

/-- Where each member starts and ends, and whether it goes. -/
def scanMembers : Nat → List Char → Option (Except Fault (List (Nat × Nat × Bool)))
  | 0, _ => none
  | fuel + 1, rest =>
    let here := skipWs rest
    if here.head? = some '\x7d' then some (.ok [])
    else
      (stringEnd here.tail).bind fun r =>
        match fromSliceString (here.take (here.length - r.length)) with
        | none => some (.error (err here))
        | some name =>
          (valueEnd (skipWs (skipWs r).tail)).bind fun stop =>
            let r := skipWs stop
            let next := if r.head? = some ',' then r.tail else r
            (scanMembers fuel next).map fun members =>
              members.map ((Cfg.pos input here, Cfg.pos input stop, name == key) :: ·)

def slice (start stop : Nat) : List Char := (input.drop start).take (stop - start)

/-- The members that stay, each but the first with the separator in front of it. -/
def keptText (before : Nat) (wroteOne : Bool) : List (Nat × Nat × Bool) → List Char
  | [] => []
  | (start, stop, removed) :: members =>
    if removed then keptText stop wroteOne members
    else (if wroteOne then slice input before start else []) ++
      (slice input start stop ++ keptText stop true members)

/-- The text put together from its members, unless all of them stay. -/
def withoutRemoved (members : List (Nat × Nat × Bool)) : Option (List Char) :=
  if members.any (·.2.2) then
    match members.head?, members.getLast? with
    | some first, some last =>
      some (input.take first.1 ++ (keptText input 0 false members ++ input.drop last.2.1))
    | _, _ => none
  else none

/-- `remove_top_level_member`. -/
def removeTopLevelMember (bytes : Bytes) (key : String) :
    Option (Except SpliceError (Option Bytes)) :=
  match validateJson bytes with
  | .error e => some (.error e)
  | .ok () =>
    match Utf8.decode? bytes with
    | none => none
    | some text =>
      let input := text.toList
      let here := skipWs input
      if here.head? = some '\x7b' then
        (scanMembers input key (input.length + 1) here.tail).map fun
          | .error e => .error ⟨ByteOffsets.offset input (Cfg.pos input e.rest), e.kind⟩
          | .ok members =>
            .ok ((withoutRemoved input members).map fun l => Utf8.bytes (String.ofList l))
      else some (.ok none)

/-! ### Where a value ends -/

theorem stringEnd_plain {c : Char} (hquote : c ≠ '\"') (hslash : c ≠ '\\') (r : List Char) :
    stringEnd (c :: r) = stringEnd r := by
  rw [stringEnd.eq_def]
  exact (if_neg hquote).trans (if_neg hslash)

theorem stringEnd_quote (r : List Char) : stringEnd ('\"' :: r) = some r := by
  unfold stringEnd
  exact if_pos rfl

theorem stringEnd_body (t : StringToken) (r : List Char) : stringEnd (t.body ++ r) = some r := by
  have hpieces : ∀ ps : List Piece, stringEnd (ps.flatMap Piece.text ++ '\"' :: r) = some r := by
    intro ps
    induction ps with
    | nil => exact stringEnd_quote r
    | cons p ps ih =>
      rw [List.flatMap_cons, List.append_assoc]
      cases p with
      | plain c hc =>
        have hquote : c ≠ '\"' := by rintro rfl; exact absurd hc (by decide)
        have hslash : c ≠ '\\' := by rintro rfl; exact absurd hc (by decide)
        exact (stringEnd_plain hquote hslash _).trans ih
      | escape c hc => exact ih
      | unicode h =>
        obtain ⟨a, b, c, d, hex⟩ := h
        have hdigit : ∀ {x : Char} {l : List Char}, isHexDigit x = true →
            stringEnd (x :: l) = stringEnd l := by
          intro x l hx
          have hquote : x ≠ '\"' := by rintro rfl; exact absurd hx (by decide)
          have hslash : x ≠ '\\' := by rintro rfl; exact absurd hx (by decide)
          exact stringEnd_plain hquote hslash l
        simp only [Bool.and_eq_true] at hex
        change stringEnd (a :: b :: c :: d :: (ps.flatMap Piece.text ++ '\"' :: r)) = some r
        rw [hdigit hex.1.1.1, hdigit hex.1.1.2, hdigit hex.1.2, hdigit hex.2, ih]
  rw [StringToken.body, List.append_assoc]
  exact hpieces t.pieces

/-- Text that the scan of a container passes over. -/
def Skips (t : List Char) : Prop :=
  ∀ depth r fuel, (t ++ r).length < fuel →
    ∃ fuel', r.length < fuel' ∧
      containerEnd fuel (depth + 1) (t ++ r) = containerEnd fuel' (depth + 1) r

namespace Skips

theorem nil : Skips [] := fun _ _ fuel hfuel => ⟨fuel, hfuel, rfl⟩

theorem append {t u : List Char} (ht : Skips t) (hu : Skips u) : Skips (t ++ u) := by
  intro depth r fuel hfuel
  rw [List.append_assoc] at hfuel ⊢
  obtain ⟨fuel', hfuel', heq⟩ := ht depth (u ++ r) fuel hfuel
  obtain ⟨fuel'', hfuel'', heq'⟩ := hu depth r fuel' hfuel'
  exact ⟨fuel'', hfuel'', heq.trans heq'⟩

theorem char {c : Char} (hquote : c ≠ '\"') (hopen : ¬ (c = '\x7b' ∨ c = '['))
    (hclose : ¬ (c = '\x7d' ∨ c = ']')) : Skips [c] := by
  intro depth r fuel hfuel
  rw [List.singleton_append, List.length_cons] at hfuel
  obtain ⟨fuel, rfl⟩ : ∃ f, fuel = f + 1 := ⟨fuel - 1, by omega⟩
  refine ⟨fuel, by omega, ?_⟩
  rw [List.singleton_append, containerEnd, if_neg hquote, if_neg hopen, if_neg hclose]

theorem of_chars {t : List Char} (h : ∀ c ∈ t, Skips [c]) : Skips t := by
  induction t with
  | nil => exact nil
  | cons c t ih =>
    exact append (h c List.mem_cons_self) (ih fun d hd => h d (List.mem_cons_of_mem c hd))

theorem string (t : StringToken) : Skips t.text := by
  intro depth r fuel hfuel
  obtain ⟨fuel, rfl⟩ : ∃ f, fuel = f + 1 := ⟨fuel - 1, by omega⟩
  rw [StringToken.text, List.cons_append, List.length_cons, List.length_append] at hfuel
  refine ⟨fuel, by omega, ?_⟩
  rw [StringToken.text, List.cons_append, containerEnd, if_pos rfl, stringEnd_body,
    Option.bind_some]

theorem wrap {t : List Char} {o c : Char} (ho : o = '\x7b' ∨ o = '[')
    (hc : c = '\x7d' ∨ c = ']') (h : Skips t) : Skips (o :: (t ++ [c])) := by
  intro depth r fuel hfuel
  have htext : o :: (t ++ [c]) ++ r = o :: (t ++ c :: r) := by simp
  rw [htext, List.length_cons] at hfuel
  obtain ⟨fuel, rfl⟩ : ∃ f, fuel = f + 1 := ⟨fuel - 1, by omega⟩
  obtain ⟨fuel', hfuel', heq⟩ := h (depth + 1) (c :: r) fuel (by omega)
  rw [List.length_cons] at hfuel'
  obtain ⟨fuel', rfl⟩ : ∃ f, fuel' = f + 1 := ⟨fuel' - 1, by omega⟩
  refine ⟨fuel', by omega, ?_⟩
  have hquote : o ≠ '\"' := by rcases ho with rfl | rfl <;> decide
  have hquote' : c ≠ '\"' := by rcases hc with rfl | rfl <;> decide
  have hopen' : ¬ (c = '\x7b' ∨ c = '[') := by rcases hc with rfl | rfl <;> decide
  rw [htext, containerEnd, if_neg hquote, if_pos ho, heq, containerEnd, if_neg hquote',
    if_neg hopen', if_pos hc, if_neg (by omega), if_neg (by omega)]
  rfl

theorem ws (w : Ws) : Skips w.text := by
  refine of_chars fun c hc => ?_
  have hblank := w.blank c hc
  simp only [isWhitespace, Bool.or_eq_true, beq_iff_eq] at hblank
  rcases hblank with ((rfl | rfl) | rfl) | rfl <;> exact char (by decide) (by decide) (by decide)

theorem token {c : Char} (h : isTokenChar c = true) : Skips [c] := by
  refine char ?_ ?_ ?_
  · rintro rfl
    cases h
  · rintro (rfl | rfl) <;> cases h
  · rintro (rfl | rfl) <;> cases h

theorem sep (s : Sep) : Skips s.text :=
  (ws s.before).append ((char (c := ',') (by decide) (by decide) (by decide)).append (ws s.after))

theorem name (n : Name) : Skips n.text :=
  ((string n.key).append
    ((ws n.beforeColon).append (char (by decide) (by decide) (by decide)))).append (ws n.afterColon)

mutual

theorem node : ∀ n : Node, Skips n.text
  | .scalar t => of_chars fun c hc => token (isTokenChar_scalar t c hc)
  | .string t => string t
  | .emptyArray w => wrap (.inr rfl) (.inr rfl) (ws w)
  | .emptyObject w => wrap (.inl rfl) (.inl rfl) (ws w)
  | .array lead first rest trail => by
    have h :=
      wrap (.inr rfl) (.inr rfl)
        ((ws lead).append ((node first).append ((items rest).append (ws trail))))
    simpa [Node.text] using h
  | .object lead nm first rest trail => by
    have h := wrap (.inl rfl) (.inl rfl)
      ((ws lead).append ((name nm).append ((node first).append ((members rest).append (ws trail)))))
    simpa [Node.text] using h

theorem items : ∀ rest : List (Sep × Node), Skips (Node.moreItemsText rest)
  | [] => nil
  | (s, n) :: rest => by
    rw [Node.moreItemsText]
    exact (sep s).append ((node n).append (items rest))

theorem members : ∀ rest : List (Sep × Name × Node), Skips (Node.moreMembersText rest)
  | [] => nil
  | (s, nm, n) :: rest => by
    rw [Node.moreMembersText]
    exact (sep s).append ((name nm).append ((node n).append (members rest)))

end

end Skips

theorem containerEnd_wrap {t r : List Char} {o c : Char} (ho : o = '\x7b' ∨ o = '[')
    (hc : c = '\x7d' ∨ c = ']')
    (h : Skips t) {fuel : Nat} (hfuel : (o :: (t ++ c :: r)).length < fuel) :
    containerEnd fuel 0 (o :: (t ++ c :: r)) = some r := by
  rw [List.length_cons] at hfuel
  obtain ⟨fuel, rfl⟩ : ∃ f, fuel = f + 1 := ⟨fuel - 1, by omega⟩
  obtain ⟨fuel', hfuel', heq⟩ := h 0 (c :: r) fuel (by omega)
  rw [List.length_cons] at hfuel'
  obtain ⟨fuel', rfl⟩ : ∃ f, fuel' = f + 1 := ⟨fuel' - 1, by omega⟩
  have hquote : o ≠ '\"' := by rcases ho with rfl | rfl <;> decide
  have hquote' : c ≠ '\"' := by rcases hc with rfl | rfl <;> decide
  have hopen' : ¬ (c = '\x7b' ∨ c = '[') := by rcases hc with rfl | rfl <;> decide
  rw [containerEnd, if_neg hquote, if_pos ho, heq, containerEnd, if_neg hquote',
    if_neg hopen', if_pos hc, if_neg (by omega), if_pos (by omega)]

/-- What stands behind a value ends it. -/
def EndsScalar (r : List Char) : Prop := ∀ c t, r = c :: t → endsScalar c = true

theorem valueEnd_node (n : Node) {r : List Char} (hr : EndsScalar r) :
    valueEnd (n.text ++ r) = some r := by
  have hcontainer : ∀ {t : List Char} {o c : Char}, o = '\x7b' ∨ o = '[' → c = '\x7d' ∨
      c = ']' → Skips t → valueEnd (o :: (t ++ c :: r)) = some r := by
    intro t o c ho hc ht
    have hquote : o ≠ '\"' := by rcases ho with rfl | rfl <;> decide
    rw [valueEnd, if_neg hquote, if_pos ho]
    exact containerEnd_wrap ho hc ht (Nat.lt_succ_self _)
  cases n with
  | scalar t =>
    obtain ⟨c, l, hcl, hlead⟩ := exists_scalarLead t
    have hbrace : ¬ (c = '\x7b' ∨ c = '[') := by
      rintro (rfl | rfl) <;> exact not_scalarLead (by decide) hlead
    have hquote : c ≠ '\"' := by rintro rfl; exact not_scalarLead (by decide) hlead
    have hchars : ∀ d ∈ t.text, (!endsScalar d) = true := by
      intro d hd
      have htoken := isTokenChar_scalar t d hd
      rw [Bool.not_eq_true', Bool.eq_false_iff]
      intro hends
      simp only [endsScalar, isWhitespace, Bool.or_eq_true, beq_iff_eq] at hends
      rcases hends with ((rfl | rfl) | rfl) | (((rfl | rfl) | rfl) | rfl) <;> cases htoken
    have hrun := (takeWhile_append_of_stop hchars fun d u hdu => by rw [hr d u hdu]; rfl).2
    rw [Node.text]
    rw [hcl, List.cons_append] at hrun ⊢
    rw [valueEnd, if_neg hquote, if_neg hbrace, hrun]
  | string t =>
    rw [Node.text, StringToken.text, List.cons_append, valueEnd, if_pos rfl]
    exact stringEnd_body t r
  | emptyArray w =>
    have h := hcontainer (.inr rfl) (.inr rfl) (Skips.ws w)
    simpa [Node.text] using h
  | emptyObject w =>
    have h := hcontainer (.inl rfl) (.inl rfl) (Skips.ws w)
    simpa [Node.text] using h
  | array lead first rest trail =>
    have h := hcontainer (.inr rfl) (.inr rfl)
      ((Skips.ws lead).append ((Skips.node first).append ((Skips.items rest).append (.ws trail))))
    rw [text_array_append]
    simpa using h
  | object lead name first rest trail =>
    have h := hcontainer (.inl rfl) (.inl rfl)
      ((Skips.ws lead).append
        ((Skips.name name).append
          ((Skips.node first).append ((Skips.members rest).append (.ws trail)))))
    rw [text_object_append]
    simpa [Name.text] using h

end JsonSplice
end Aisix
