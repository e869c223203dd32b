import Aisix.JsonSplice.Scanner

/-!
# Aisix.JsonSplice.Rewritten

What a rewrite is to do, without the scanner: on a document as it is written (`rewrite`), where the
token of a replaced string is the only thing that changes, and on the value it stands for
(`mapStrings`). `value?_rewrite` connects the two.
-/

namespace Aisix
namespace JsonSplice

open Json Json.Syntax

/-- A rewritten part of a document, whether anything in it was replaced, and the visitor's state
behind it. -/
structure Rewritten (α σ : Type) where
  item : α
  changed : Bool
  state : σ

variable {σ : Type} (v : Visitor σ)

def replaced (t : StringToken) : Option String → StringToken
  | some new => .ofString new
  | none => t

/-- A string value; there is no answer when it is selected and stands for no text. -/
def rewriteString (path : List PathSeg) (t : StringToken) (s : σ) : Option (Rewritten Node σ) :=
  let picked := v.shouldRewrite path.reverse s
  if picked.1 then
    t.decode.map fun decoded =>
      let answer := v.rewrite decoded picked.2
      ⟨.string (replaced t answer.1), answer.1.isSome, answer.2⟩
  else some ⟨.string t, false, picked.2⟩

mutual

/-- The document with the selected strings replaced, at a path that is listed from the innermost
step out. -/
def rewrite (path : List PathSeg) : Node → σ → Option (Rewritten Node σ)
  | .scalar t, s => some ⟨.scalar t, false, s⟩
  | .string t, s => rewriteString v path t s
  | .emptyArray ws, s => some ⟨.emptyArray ws, false, s⟩
  | .array lead first rest trail, s =>
    (rewrite (.index 0 :: path) first s).bind fun a =>
      (rewriteItems path 1 rest a.state).map fun b =>
        ⟨.array lead a.item b.item trail, a.changed || b.changed, b.state⟩
  | .emptyObject ws, s => some ⟨.emptyObject ws, false, s⟩
  | .object lead name first rest trail, s =>
    name.key.decode.bind fun key =>
      (rewrite (.key key :: path) first s).bind fun a =>
        (rewriteMembers path rest a.state).map fun b =>
          ⟨.object lead name a.item b.item trail, a.changed || b.changed, b.state⟩

def rewriteItems (path : List PathSeg) (i : Nat) :
    List (Sep × Node) → σ → Option (Rewritten (List (Sep × Node)) σ)
  | [], s => some ⟨[], false, s⟩
  | (sep, n) :: rest, s =>
    (rewrite (.index i :: path) n s).bind fun a =>
      (rewriteItems path (i + 1) rest a.state).map fun b =>
        ⟨(sep, a.item) :: b.item, a.changed || b.changed, b.state⟩

def rewriteMembers (path : List PathSeg) :
    List (Sep × Name × Node) → σ → Option (Rewritten (List (Sep × Name × Node)) σ)
  | [], s => some ⟨[], false, s⟩
  | (sep, name, n) :: rest, s =>
    name.key.decode.bind fun key =>
      (rewrite (.key key :: path) n s).bind fun a =>
        (rewriteMembers path rest a.state).map fun b =>
          ⟨(sep, name, a.item) :: b.item, a.changed || b.changed, b.state⟩

end

def mapString (path : List PathSeg) (text : String) (s : σ) : Value × σ :=
  let picked := v.shouldRewrite path.reverse s
  if picked.1 then
    let answer := v.rewrite text picked.2
    (.string (answer.1.getD text), answer.2)
  else (.string text, picked.2)

mutual

/-- The value with the selected strings replaced. -/
def mapStrings (path : List PathSeg) : Value → σ → Value × σ
  | .string text, s => mapString v path text s
  | .array items, s => ((.array (mapItems path 0 items s).1), (mapItems path 0 items s).2)
  | .object fields, s => ((.object (mapFields path fields s).1), (mapFields path fields s).2)
  | .null, s => (.null, s)
  | .bool b, s => (.bool b, s)
  | .number n, s => (.number n, s)

def mapItems (path : List PathSeg) (i : Nat) : List Value → σ → List Value × σ
  | [], s => ([], s)
  | x :: xs, s =>
    let a := mapStrings (.index i :: path) x s
    let b := mapItems path (i + 1) xs a.2
    (a.1 :: b.1, b.2)

def mapFields (path : List PathSeg) : List (String × Value) → σ → List (String × Value) × σ
  | [], s => ([], s)
  | (key, x) :: fields, s =>
    let a := mapStrings (.key key :: path) x s
    let b := mapFields path fields a.2
    ((key, a.1) :: b.1, b.2)

end

variable {v} {readNumber : NumberToken → Option Number}

/-! ### What a rewrite that succeeds is made of -/

theorem of_rewrite_array {lead trail : Ws} {first : Node} {rest : List (Sep × Node)}
    {path : List PathSeg} {s : σ} {res : Rewritten Node σ}
    (h : rewrite v path (.array lead first rest trail) s = some res) :
    ∃ a b, rewrite v (.index 0 :: path) first s = some a ∧
      rewriteItems v path 1 rest a.state = some b ∧
      res = ⟨.array lead a.item b.item trail, a.changed || b.changed, b.state⟩ := by
  rw [rewrite] at h
  obtain ⟨a, ha, hmap⟩ := Option.bind_eq_some_iff.mp h
  obtain ⟨b, hb, rfl⟩ := Option.map_eq_some_iff.mp hmap
  exact ⟨a, b, ha, hb, rfl⟩

theorem of_rewrite_object {lead trail : Ws} {name : Name} {first : Node}
    {rest : List (Sep × Name × Node)} {path : List PathSeg} {s : σ} {res : Rewritten Node σ}
    (h : rewrite v path (.object lead name first rest trail) s = some res) :
    ∃ key a b, name.key.decode = some key ∧ rewrite v (.key key :: path) first s = some a ∧
      rewriteMembers v path rest a.state = some b ∧
      res = ⟨.object lead name a.item b.item trail, a.changed || b.changed, b.state⟩ := by
  rw [rewrite] at h
  obtain ⟨key, hkey, hbind⟩ := Option.bind_eq_some_iff.mp h
  obtain ⟨a, ha, hmap⟩ := Option.bind_eq_some_iff.mp hbind
  obtain ⟨b, hb, rfl⟩ := Option.map_eq_some_iff.mp hmap
  exact ⟨key, a, b, hkey, ha, hb, rfl⟩

theorem of_rewriteItems_cons {sep : Sep} {n : Node} {rest : List (Sep × Node)} {path : List PathSeg}
    {i : Nat} {s : σ} {res : Rewritten (List (Sep × Node)) σ}
    (h : rewriteItems v path i ((sep, n) :: rest) s = some res) :
    ∃ a b, rewrite v (.index i :: path) n s = some a ∧
      rewriteItems v path (i + 1) rest a.state = some b ∧
      res = ⟨(sep, a.item) :: b.item, a.changed || b.changed, b.state⟩ := by
  rw [rewriteItems] at h
  obtain ⟨a, ha, hmap⟩ := Option.bind_eq_some_iff.mp h
  obtain ⟨b, hb, rfl⟩ := Option.map_eq_some_iff.mp hmap
  exact ⟨a, b, ha, hb, rfl⟩

theorem of_rewriteMembers_cons {sep : Sep} {name : Name} {n : Node}
    {rest : List (Sep × Name × Node)} {path : List PathSeg} {s : σ}
    {res : Rewritten (List (Sep × Name × Node)) σ}
    (h : rewriteMembers v path ((sep, name, n) :: rest) s = some res) :
    ∃ key a b, name.key.decode = some key ∧ rewrite v (.key key :: path) n s = some a ∧
      rewriteMembers v path rest a.state = some b ∧
      res = ⟨(sep, name, a.item) :: b.item, a.changed || b.changed, b.state⟩ := by
  rw [rewriteMembers] at h
  obtain ⟨key, hkey, hbind⟩ := Option.bind_eq_some_iff.mp h
  obtain ⟨a, ha, hmap⟩ := Option.bind_eq_some_iff.mp hbind
  obtain ⟨b, hb, rfl⟩ := Option.map_eq_some_iff.mp hmap
  exact ⟨key, a, b, hkey, ha, hb, rfl⟩

/-! ### Values -/

theorem value?_rewriteString {path : List PathSeg} {t : StringToken} {s : σ}
    {res : Rewritten Node σ} (h : rewriteString v path t s = some res) {text : String}
    (ht : t.decode = some text) :
    res.item.value? readNumber = some (mapString v path text s).1 ∧
      res.state = (mapString v path text s).2 := by
  unfold rewriteString at h
  unfold mapString
  dsimp only at h ⊢
  cases hpicked : (v.shouldRewrite path.reverse s).1 with
  | false =>
    rw [hpicked, if_neg (by decide)] at h
    obtain rfl := Option.some.inj h
    simp [Node.value?, ht]
  | true =>
    rw [hpicked, if_pos rfl, ht, Option.map_some] at h
    obtain rfl := Option.some.inj h
    rw [if_pos rfl]
    cases (v.rewrite text (v.shouldRewrite path.reverse s).2).1 with
    | none => simp [replaced, Node.value?, ht]
    | some new => simp [replaced, Node.value?, StringToken.decode_ofString]

mutual

theorem value?_rewrite :
    ∀ {n : Node} {path : List PathSeg} {s : σ} {res : Rewritten Node σ} {x : Value},
    rewrite v path n s = some res → n.value? readNumber = some x →
    res.item.value? readNumber = some (mapStrings v path x s).1 ∧
      res.state = (mapStrings v path x s).2
  | .scalar t, path, s, res, x, h, hx => by
    rw [rewrite, Option.some.injEq] at h
    subst h
    cases t with
    | number num =>
      rw [Node.value?] at hx ⊢
      obtain ⟨k, hk, rfl⟩ := Option.map_eq_some_iff.mp hx
      rw [hk]
      exact ⟨rfl, rfl⟩
    | true => cases hx; exact ⟨rfl, rfl⟩
    | false => cases hx; exact ⟨rfl, rfl⟩
    | null => cases hx; exact ⟨rfl, rfl⟩
  | .string t, path, s, res, x, h, hx => by
    rw [rewrite] at h
    rw [Node.value?] at hx
    obtain ⟨text, htext, rfl⟩ := Option.map_eq_some_iff.mp hx
    exact value?_rewriteString h htext
  | .emptyArray ws, path, s, res, x, h, hx => by
    cases h
    cases hx
    exact ⟨rfl, rfl⟩
  | .array lead first rest trail, path, s, res, x, h, hx => by
    obtain ⟨a, b, ha, hb, rfl⟩ := of_rewrite_array h
    rw [Node.value?] at hx
    obtain ⟨y, hy, hmap⟩ := Option.bind_eq_some_iff.mp hx
    obtain ⟨ys, hys, rfl⟩ := Option.map_eq_some_iff.mp hmap
    obtain ⟨hvalue, hstate⟩ := value?_rewrite ha hy
    obtain ⟨hvalues, hstate'⟩ := items?_rewriteItems hb hys
    rw [hstate] at hvalues hstate'
    dsimp only
    rw [Node.value?, hvalue, Option.bind_some, hvalues]
    exact ⟨rfl, hstate'⟩
  | .emptyObject ws, path, s, res, x, h, hx => by
    cases h
    cases hx
    exact ⟨rfl, rfl⟩
  | .object lead name first rest trail, path, s, res, x, h, hx => by
    obtain ⟨key, a, b, hkey, ha, hb, rfl⟩ := of_rewrite_object h
    rw [Node.value?, hkey, Option.bind_some] at hx
    obtain ⟨y, hy, hmap⟩ := Option.bind_eq_some_iff.mp hx
    obtain ⟨ys, hys, rfl⟩ := Option.map_eq_some_iff.mp hmap
    obtain ⟨hvalue, hstate⟩ := value?_rewrite ha hy
    obtain ⟨hvalues, hstate'⟩ := members?_rewriteMembers hb hys
    rw [hstate] at hvalues hstate'
    dsimp only
    rw [Node.value?, hkey, Option.bind_some, hvalue, Option.bind_some, hvalues]
    exact ⟨rfl, hstate'⟩

theorem items?_rewriteItems : ∀ {items : List (Sep × Node)} {path : List PathSeg} {i : Nat} {s : σ}
    {res : Rewritten (List (Sep × Node)) σ}
    {xs : List Value}, rewriteItems v path i items s = some res →
    Node.items? readNumber items = some xs →
    Node.items? readNumber res.item = some (mapItems v path i xs s).1 ∧
      res.state = (mapItems v path i xs s).2
  | [], path, i, s, res, xs, h, hx => by
    cases h
    cases hx
    exact ⟨rfl, rfl⟩
  | (sep, n) :: rest, path, i, s, res, xs, h, hx => by
    obtain ⟨a, b, ha, hb, rfl⟩ := of_rewriteItems_cons h
    rw [Node.items?] at hx
    obtain ⟨y, hy, hmap⟩ := Option.bind_eq_some_iff.mp hx
    obtain ⟨ys, hys, rfl⟩ := Option.map_eq_some_iff.mp hmap
    obtain ⟨hvalue, hstate⟩ := value?_rewrite ha hy
    obtain ⟨hvalues, hstate'⟩ := items?_rewriteItems hb hys
    rw [hstate] at hvalues hstate'
    dsimp only
    rw [Node.items?, hvalue, Option.bind_some, hvalues]
    exact ⟨rfl, hstate'⟩

theorem members?_rewriteMembers :
    ∀ {members : List (Sep × Name × Node)} {path : List PathSeg} {s : σ}
    {res : Rewritten (List (Sep × Name × Node)) σ} {xs : List (String × Value)},
    rewriteMembers v path members s = some res → Node.members? readNumber members = some xs →
    Node.members? readNumber res.item = some (mapFields v path xs s).1 ∧
      res.state = (mapFields v path xs s).2
  | [], path, s, res, xs, h, hx => by
    cases h
    cases hx
    exact ⟨rfl, rfl⟩
  | (sep, name, n) :: rest, path, s, res, xs, h, hx => by
    obtain ⟨key, a, b, hkey, ha, hb, rfl⟩ := of_rewriteMembers_cons h
    rw [Node.members?, hkey, Option.bind_some] at hx
    obtain ⟨y, hy, hmap⟩ := Option.bind_eq_some_iff.mp hx
    obtain ⟨ys, hys, rfl⟩ := Option.map_eq_some_iff.mp hmap
    obtain ⟨hvalue, hstate⟩ := value?_rewrite ha hy
    obtain ⟨hvalues, hstate'⟩ := members?_rewriteMembers hb hys
    rw [hstate] at hvalues hstate'
    dsimp only
    rw [Node.members?, hkey, Option.bind_some, hvalue, Option.bind_some, hvalues]
    exact ⟨rfl, hstate'⟩

end

end JsonSplice
end Aisix
