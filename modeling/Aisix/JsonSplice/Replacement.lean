import Aisix.JsonSplice.Rewritten
import Aisix.Occurrence

/-!
# Aisix.JsonSplice.Replacement

Visitors whose answer for a string depends on its path and its text alone, whatever state they carry
(`Replaces`): the value they make of a value (`mapPure`), the state they end in as a fold over the
string tokens, and the words that occur in what they write.
-/

namespace Aisix
namespace JsonSplice

open Json Json.Syntax

variable {σ : Type} {v : Visitor σ} {r : List PathSeg → String → Option String}
  {readNumber : NumberToken → Option Number}

structure Replaces (v : Visitor σ) (r : List PathSeg → String → Option String) : Prop where
  picked : ∀ path text s, (v.shouldRewrite path s).1 = true →
    (v.rewrite text (v.shouldRewrite path s).2).1 = r path text
  skipped : ∀ path text s, (v.shouldRewrite path s).1 = false → r path text = none

/-! ### A value can be rewritten -/

theorem exists_rewriteString {path : List PathSeg} {t : StringToken} {text : String}
    (ht : t.decode = some text) (s : σ) : ∃ res, rewriteString v path t s = some res := by
  unfold rewriteString
  dsimp only
  rw [ht]
  split
  · exact ⟨_, rfl⟩
  · exact ⟨_, rfl⟩

mutual

theorem exists_rewrite :
    ∀ {n : Node} {x : Value} (path : List PathSeg) (s : σ), n.value? readNumber = some x →
    ∃ res, rewrite v path n s = some res
  | .scalar t, x, path, s, _ => ⟨_, by rw [rewrite]⟩
  | .string t, x, path, s, hx => by
    rw [Node.value?] at hx
    obtain ⟨text, htext, -⟩ := Option.map_eq_some_iff.mp hx
    rw [rewrite]
    exact exists_rewriteString htext s
  | .emptyArray ws, x, path, s, _ => ⟨_, by rw [rewrite]⟩
  | .emptyObject ws, x, path, s, _ => ⟨_, by rw [rewrite]⟩
  | .array lead first rest trail, x, path, s, hx => by
    rw [Node.value?] at hx
    obtain ⟨y, hy, hmap⟩ := Option.bind_eq_some_iff.mp hx
    obtain ⟨ys, hys, -⟩ := Option.map_eq_some_iff.mp hmap
    obtain ⟨a, ha⟩ := exists_rewrite (.index 0 :: path) s hy
    obtain ⟨b, hb⟩ := exists_rewriteItems path 1 a.state hys
    exact ⟨_, by rw [rewrite, ha, Option.bind_some, hb]; rfl⟩
  | .object lead name first rest trail, x, path, s, hx => by
    rw [Node.value?] at hx
    obtain ⟨key, hkey, hbind⟩ := Option.bind_eq_some_iff.mp hx
    obtain ⟨y, hy, hmap⟩ := Option.bind_eq_some_iff.mp hbind
    obtain ⟨ys, hys, -⟩ := Option.map_eq_some_iff.mp hmap
    obtain ⟨a, ha⟩ := exists_rewrite (.key key :: path) s hy
    obtain ⟨b, hb⟩ := exists_rewriteMembers path a.state hys
    exact ⟨_, by rw [rewrite, hkey, Option.bind_some, ha, Option.bind_some, hb]; rfl⟩

theorem exists_rewriteItems :
    ∀ {items : List (Sep × Node)} {xs : List Value} (path : List PathSeg) (i : Nat) (s : σ),
    Node.items? readNumber items = some xs → ∃ res, rewriteItems v path i items s = some res
  | [], xs, path, i, s, _ => ⟨_, by rw [rewriteItems]⟩
  | (sep, n) :: rest, xs, path, i, s, hx => by
    rw [Node.items?] at hx
    obtain ⟨y, hy, hmap⟩ := Option.bind_eq_some_iff.mp hx
    obtain ⟨ys, hys, -⟩ := Option.map_eq_some_iff.mp hmap
    obtain ⟨a, ha⟩ := exists_rewrite (.index i :: path) s hy
    obtain ⟨b, hb⟩ := exists_rewriteItems path (i + 1) a.state hys
    exact ⟨_, by rw [rewriteItems, ha, Option.bind_some, hb]; rfl⟩

theorem exists_rewriteMembers : ∀ {members : List (Sep × Name × Node)} {xs : List (String × Value)}
    (path : List PathSeg) (s : σ), Node.members? readNumber members = some xs →
    ∃ res, rewriteMembers v path members s = some res
  | [], xs, path, s, _ => ⟨_, by rw [rewriteMembers]⟩
  | (sep, name, n) :: rest, xs, path, s, hx => by
    rw [Node.members?] at hx
    obtain ⟨key, hkey, hbind⟩ := Option.bind_eq_some_iff.mp hx
    obtain ⟨y, hy, hmap⟩ := Option.bind_eq_some_iff.mp hbind
    obtain ⟨ys, hys, -⟩ := Option.map_eq_some_iff.mp hmap
    obtain ⟨a, ha⟩ := exists_rewrite (.key key :: path) s hy
    obtain ⟨b, hb⟩ := exists_rewriteMembers path a.state hys
    exact ⟨_, by rw [rewriteMembers, hkey, Option.bind_some, ha, Option.bind_some, hb]; rfl⟩

end

theorem depth_rewriteString {path : List PathSeg} {t : StringToken} {s : σ} {res : Rewritten Node σ}
    (h : rewriteString v path t s = some res) : res.item.depth = 0 := by
  unfold rewriteString at h
  dsimp only at h
  split at h
  · obtain ⟨text, -, rfl⟩ := Option.map_eq_some_iff.mp h
    rfl
  · cases h
    rfl

mutual

theorem depth_rewrite : ∀ {n : Node} {path : List PathSeg} {s : σ} {res : Rewritten Node σ},
    rewrite v path n s = some res → res.item.depth = n.depth
  | .scalar t, path, s, res, h => by cases h; rfl
  | .string t, path, s, res, h => by
    rw [rewrite] at h
    exact depth_rewriteString h
  | .emptyArray ws, path, s, res, h => by cases h; rfl
  | .emptyObject ws, path, s, res, h => by cases h; rfl
  | .array lead first rest trail, path, s, res, h => by
    obtain ⟨a, b, ha, hb, rfl⟩ := of_rewrite_array h
    dsimp only
    rw [Node.depth, Node.depth, depth_rewrite ha, depth_rewriteItems hb]
  | .object lead name first rest trail, path, s, res, h => by
    obtain ⟨key, a, b, -, ha, hb, rfl⟩ := of_rewrite_object h
    dsimp only
    rw [Node.depth, Node.depth, depth_rewrite ha, depth_rewriteMembers hb]

theorem depth_rewriteItems : ∀ {items : List (Sep × Node)} {path : List PathSeg} {i : Nat} {s : σ}
    {res : Rewritten (List (Sep × Node)) σ}, rewriteItems v path i items s = some res →
    Node.itemsDepth res.item = Node.itemsDepth items
  | [], path, i, s, res, h => by cases h; rfl
  | (sep, n) :: rest, path, i, s, res, h => by
    obtain ⟨a, b, ha, hb, rfl⟩ := of_rewriteItems_cons h
    dsimp only
    rw [Node.itemsDepth, Node.itemsDepth, depth_rewrite ha, depth_rewriteItems hb]

theorem depth_rewriteMembers : ∀ {members : List (Sep × Name × Node)} {path : List PathSeg} {s : σ}
    {res : Rewritten (List (Sep × Name × Node)) σ}, rewriteMembers v path members s = some res →
    Node.membersDepth res.item = Node.membersDepth members
  | [], path, s, res, h => by cases h; rfl
  | (sep, name, n) :: rest, path, s, res, h => by
    obtain ⟨key, a, b, -, ha, hb, rfl⟩ := of_rewriteMembers_cons h
    dsimp only
    rw [Node.membersDepth, Node.membersDepth, depth_rewrite ha, depth_rewriteMembers hb]

end

/-! ### Values -/

mutual

/-- The value with its strings replaced, at a path that is listed from the innermost step out. -/
def mapPure (r : List PathSeg → String → Option String) (path : List PathSeg) : Value → Value
  | .string text => .string ((r path.reverse text).getD text)
  | .array items => .array (mapPureItems r path 0 items)
  | .object fields => .object (mapPureFields r path fields)
  | .null => .null
  | .bool b => .bool b
  | .number n => .number n

def mapPureItems (r : List PathSeg → String → Option String) (path : List PathSeg) (i : Nat) :
    List Value → List Value
  | [] => []
  | x :: xs => mapPure r (.index i :: path) x :: mapPureItems r path (i + 1) xs

def mapPureFields (r : List PathSeg → String → Option String) (path : List PathSeg) :
    List (String × Value) → List (String × Value)
  | [] => []
  | (key, x) :: fields => (key, mapPure r (.key key :: path) x) :: mapPureFields r path fields

end

theorem mapString_fst (h : Replaces v r) (path : List PathSeg) (text : String) (s : σ) :
    (mapString v path text s).1 = .string ((r path.reverse text).getD text) := by
  unfold mapString
  dsimp only
  cases hpicked : (v.shouldRewrite path.reverse s).1 with
  | true =>
    rw [if_pos rfl, h.picked _ _ _ hpicked]
  | false =>
    rw [if_neg (by decide), h.skipped _ text _ hpicked]
    rfl

mutual

theorem mapStrings_fst (h : Replaces v r) : ∀ (path : List PathSeg) (x : Value) (s : σ),
    (mapStrings v path x s).1 = mapPure r path x
  | path, .string text, s => by
    rw [mapStrings, mapPure]
    exact mapString_fst h path text s
  | path, .array items, s => by rw [mapStrings, mapPure, mapItems_fst h]
  | path, .object fields, s => by rw [mapStrings, mapPure, mapFields_fst h]
  | path, .null, s => rfl
  | path, .bool b, s => rfl
  | path, .number n, s => rfl

theorem mapItems_fst (h : Replaces v r) :
    ∀ (path : List PathSeg) (i : Nat) (items : List Value) (s : σ),
    (mapItems v path i items s).1 = mapPureItems r path i items
  | path, i, [], s => rfl
  | path, i, x :: xs, s => by
    rw [mapItems, mapPureItems]
    dsimp only
    rw [mapStrings_fst h, mapItems_fst h]

theorem mapFields_fst (h : Replaces v r) :
    ∀ (path : List PathSeg) (fields : List (String × Value)) (s : σ),
    (mapFields v path fields s).1 = mapPureFields r path fields
  | path, [], s => rfl
  | path, (key, x) :: fields, s => by
    rw [mapFields, mapPureFields]
    dsimp only
    rw [mapStrings_fst h, mapFields_fst h]

end

theorem mapPureFields_eq_map (path : List PathSeg) (fields : List (String × Value)) :
    mapPureFields r path fields = fields.map fun f => (f.1, mapPure r (.key f.1 :: path) f.2) := by
  induction fields with
  | nil => rfl
  | cons f fields ih =>
    obtain ⟨key, x⟩ := f
    rw [mapPureFields, ih, List.map_cons]

mutual

theorem mapPure_dull :
    ∀ {path : List PathSeg} (x : Value), (∀ q text, r (path.reverse ++ q) text = none) →
    mapPure r path x = x
  | path, .string text, h => by
    have hnone := h [] text
    rw [List.append_nil] at hnone
    rw [mapPure, hnone]
    rfl
  | path, .array items, h => by rw [mapPure, mapPureItems_dull 0 items h]
  | path, .object fields, h => by rw [mapPure, mapPureFields_dull fields h]
  | path, .null, h => rfl
  | path, .bool b, h => rfl
  | path, .number n, h => rfl

theorem mapPureItems_dull : ∀ {path : List PathSeg} (i : Nat) (items : List Value),
    (∀ q text, r (path.reverse ++ q) text = none) → mapPureItems r path i items = items
  | path, i, [], h => rfl
  | path, i, x :: xs, h => by
    have hbelow : ∀ q text, r ((.index i :: path).reverse ++ q) text = none := by
      intro q text
      rw [List.reverse_cons, List.append_assoc]
      exact h _ text
    rw [mapPureItems, mapPure_dull x hbelow, mapPureItems_dull (i + 1) xs h]

theorem mapPureFields_dull : ∀ {path : List PathSeg} (fields : List (String × Value)),
    (∀ q text, r (path.reverse ++ q) text = none) → mapPureFields r path fields = fields
  | path, [], h => rfl
  | path, (key, x) :: fields, h => by
    have hbelow : ∀ q text, r ((.key key :: path).reverse ++ q) text = none := by
      intro q text
      rw [List.reverse_cons, List.append_assoc]
      exact h _ text
    rw [mapPureFields, mapPure_dull x hbelow, mapPureFields_dull fields h]

end

end JsonSplice
end Aisix
