import Aisix.JsonSplice.Replacement

/-!
# Aisix.JsonSplice.StringTokens

The string tokens of a document, each value with its path.

* `state_rewrite` — the state a visitor ends in is a fold over them.
* `infix_rewrite` — where a word occurs in the rewritten document.
* `valueAt_of_mem`, `mem_of_valueAt` — the values among them are the strings of the value the
  document stands for, at their paths.
-/

namespace Aisix
namespace JsonSplice

open Json Json.Syntax Occurrence

def keyOf (name : Name) : String := name.key.decode.getD ""

mutual

/-- The string tokens; a member name has no path, a value's is listed from the innermost step out.
-/
def tokens (path : List PathSeg) : Node → List (Option (List PathSeg) × StringToken)
  | .scalar _ => []
  | .string t => [(some path, t)]
  | .emptyArray _ => []
  | .array _ first rest _ => tokens (.index 0 :: path) first ++ itemTokens path 1 rest
  | .emptyObject _ => []
  | .object _ name first rest _ =>
    (none, name.key) :: (tokens (.key (keyOf name) :: path) first ++ memberTokens path rest)

def itemTokens (path : List PathSeg) (i : Nat) :
    List (Sep × Node) → List (Option (List PathSeg) × StringToken)
  | [] => []
  | (_, n) :: rest => tokens (.index i :: path) n ++ itemTokens path (i + 1) rest

def memberTokens (path : List PathSeg) :
    List (Sep × Name × Node) → List (Option (List PathSeg) × StringToken)
  | [] => []
  | (_, name, n) :: rest =>
    (none, name.key) :: (tokens (.key (keyOf name) :: path) n ++ memberTokens path rest)

end

variable {σ : Type} {v : Visitor σ} {r : List PathSeg → String → Option String}
  {readNumber : NumberToken → Option Number}

/-! ### The visitor's state -/

/-- What one string token does to the state. -/
def visitToken (v : Visitor σ) (s : σ) : Option (List PathSeg) × StringToken → σ
  | (none, _) => s
  | (some path, t) =>
    let picked := v.shouldRewrite path.reverse s
    if picked.1 then (t.decode.map fun text => (v.rewrite text picked.2).2).getD
      picked.2 else picked.2

theorem state_rewriteString {path : List PathSeg} {t : StringToken} {s : σ} {res : Rewritten Node σ}
    (h : rewriteString v path t s = some res) : res.state = visitToken v s (some path, t) := by
  unfold rewriteString at h
  unfold visitToken
  dsimp only at h ⊢
  split at h
  · next hpicked =>
    obtain ⟨text, htext, rfl⟩ := Option.map_eq_some_iff.mp h
    rw [if_pos hpicked, htext]
    rfl
  · next hpicked =>
    cases h
    rw [if_neg hpicked]

mutual

theorem state_rewrite : ∀ {n : Node} {path : List PathSeg} {s : σ} {res : Rewritten Node σ},
    rewrite v path n s = some res → res.state = (tokens path n).foldl (visitToken v) s
  | .scalar t, path, s, res, h => by cases h; rfl
  | .string t, path, s, res, h => by
    rw [rewrite] at h
    exact state_rewriteString h
  | .emptyArray ws, path, s, res, h => by cases h; rfl
  | .emptyObject ws, path, s, res, h => by cases h; rfl
  | .array lead first rest trail, path, s, res, h => by
    obtain ⟨a, b, ha, hb, rfl⟩ := of_rewrite_array h
    dsimp only
    rw [tokens, List.foldl_append, ← state_rewrite ha, ← state_rewriteItems hb]
  | .object lead name first rest trail, path, s, res, h => by
    obtain ⟨key, a, b, hkey, ha, hb, rfl⟩ := of_rewrite_object h
    have hkeyOf : keyOf name = key := by rw [keyOf, hkey]; rfl
    dsimp only
    rw [tokens, hkeyOf, List.foldl_cons, List.foldl_append, visitToken, ← state_rewrite ha,
      ← state_rewriteMembers hb]

theorem state_rewriteItems : ∀ {items : List (Sep × Node)} {path : List PathSeg} {i : Nat} {s : σ}
    {res : Rewritten (List (Sep × Node)) σ}, rewriteItems v path i items s = some res →
    res.state = (itemTokens path i items).foldl (visitToken v) s
  | [], path, i, s, res, h => by cases h; rfl
  | (sep, n) :: rest, path, i, s, res, h => by
    obtain ⟨a, b, ha, hb, rfl⟩ := of_rewriteItems_cons h
    dsimp only
    rw [itemTokens, List.foldl_append, ← state_rewrite ha, ← state_rewriteItems hb]

theorem state_rewriteMembers : ∀ {members : List (Sep × Name × Node)} {path : List PathSeg} {s : σ}
    {res : Rewritten (List (Sep × Name × Node)) σ}, rewriteMembers v path members s = some res →
    res.state = (memberTokens path members).foldl (visitToken v) s
  | [], path, s, res, h => by cases h; rfl
  | (sep, name, n) :: rest, path, s, res, h => by
    obtain ⟨key, a, b, hkey, ha, hb, rfl⟩ := of_rewriteMembers_cons h
    have hkeyOf : keyOf name = key := by rw [keyOf, hkey]; rfl
    dsimp only
    rw [memberTokens, hkeyOf, List.foldl_cons, List.foldl_append, visitToken, ← state_rewrite ha,
      ← state_rewriteMembers hb]

end

/-! ### Words -/

/-- A word that can only occur within a string token: it has none of the characters between the
tokens, and no number or literal has it. -/
structure Word (word : List Char) : Prop where
  nonempty : word ≠ []
  between : ∀ c ∈ word, isWhitespace c = false ∧ c ≠ ',' ∧ c ≠ ':' ∧ c ≠ '[' ∧ c ≠ ']' ∧
    c ≠ '\x7b' ∧ c ≠ '\x7d' ∧ c ≠ '\"'
  scalar : ∀ t : Scalar, ¬ word <:+: t.text

/-- What becomes of a string token. -/
def relayed (r : List PathSeg → String → Option String) :
    Option (List PathSeg) × StringToken → List Char
  | (none, t) => t.text
  | (some path, t) => ((t.decode.bind fun text => r path.reverse text).map quote).getD t.text

section Words

variable {word : List Char}

theorem Word.notMem_ws (hword : Word word) (w : Ws) : ∀ x ∈ w.text, x ∉ word := by
  intro x hx hmem
  have hblank := w.blank x hx
  rw [(hword.between x hmem).1] at hblank
  cases hblank

theorem Word.infix_append_ws (hword : Word word) (x : List Char) (w : Ws) :
    word <:+: x ++ w.text ↔ word <:+: x := by
  cases htext : w.text with
  | nil => rw [List.append_nil]
  | cons d ws =>
    have hd : ∀ y ∈ d :: ws, y ∉ word := htext ▸ hword.notMem_ws w
    have hws :=
      infix_append_iff (b := []) hword.nonempty fun y hy => hd y (List.mem_cons_of_mem d hy)
    rw [List.append_nil] at hws
    rw [infix_append_cons_iff (hd d List.mem_cons_self), hws]
    exact or_iff_left (infix_nil_iff hword.nonempty)

theorem Word.infix_ws_cons (hword : Word word) {c : Char} (hc : c ∉ word) (x : List Char) (w : Ws)
    (b : List Char) : word <:+: x ++ (w.text ++ c :: b) ↔ word <:+: x ∨ word <:+: b := by
  rw [← List.append_assoc, infix_append_cons_iff hc, hword.infix_append_ws]

theorem Word.infix_name (hword : Word word) (name : Name) (b : List Char) :
    word <:+: name.text ++ b ↔ word <:+: name.key.text ∨ word <:+: b := by
  have htext :
      name.text ++ b = name.key.text ++
      (name.beforeColon.text ++ ':' :: (name.afterColon.text ++ b)) := by
    simp [Name.text, Name.upToColon]
  have hcolon : ':' ∉ word := fun h => (hword.between _ h).2.2.1 rfl
  rw [htext, hword.infix_ws_cons hcolon,
    infix_append_iff hword.nonempty (hword.notMem_ws name.afterColon)]

theorem exists_mem_cons_append {α : Type} {P : α → Prop} {a : α} {l m : List α} :
    (∃ x ∈ a :: (l ++ m), P x) ↔ P a ∨ (∃ x ∈ l, P x) ∨ ∃ x ∈ m, P x := by
  simp [or_and_right, exists_or]

theorem exists_mem_append {α : Type} {P : α → Prop} {l m : List α} :
    (∃ x ∈ l ++ m, P x) ↔ (∃ x ∈ l, P x) ∨ ∃ x ∈ m, P x := by
  simp [or_and_right, exists_or]

theorem text_rewriteString (hr : Replaces v r) {path : List PathSeg} {t : StringToken} {s : σ}
    {res : Rewritten Node σ}
    (h : rewriteString v path t s = some res) : res.item.text = relayed r (some path, t) := by
  have hrelayed : relayed r (some path, t) =
      ((t.decode.bind fun text => r path.reverse text).map quote).getD t.text := rfl
  rw [hrelayed]
  unfold rewriteString at h
  dsimp only at h
  cases hpicked : (v.shouldRewrite path.reverse s).1 with
  | true =>
    rw [hpicked, if_pos rfl] at h
    obtain ⟨text, htext, rfl⟩ := Option.map_eq_some_iff.mp h
    rw [htext, Option.bind_some, ← hr.picked _ text _ hpicked]
    cases (v.rewrite text (v.shouldRewrite path.reverse s).2).1 with
    | none => rfl
    | some new => exact StringToken.text_ofString new
  | false =>
    rw [hpicked, if_neg (by decide)] at h
    cases h
    cases t.decode with
    | none => rfl
    | some text =>
      rw [Option.bind_some, hr.skipped _ text _ hpicked]
      rfl

mutual

/-- A word occurs in the rewritten document where it occurs in what becomes of a string token. -/
theorem infix_rewrite (hword : Word word) (hr : Replaces v r) :
    ∀ {n : Node} {path : List PathSeg} {s : σ}
    {res : Rewritten Node σ}, rewrite v path n s = some res →
    (word <:+: res.item.text ↔ ∃ token ∈ tokens path n, word <:+: relayed r token)
  | .scalar t, path, s, res, h => by
    cases h
    exact iff_of_false (hword.scalar t) (by simp [tokens])
  | .string t, path, s, res, h => by
    rw [rewrite] at h
    rw [text_rewriteString hr h, tokens]
    simp
  | .emptyArray ws, path, s, res, h => by
    cases h
    have hopen : '[' ∉ word := fun h => (hword.between _ h).2.2.2.1 rfl
    have hclose : ']' ∉ word := fun h => (hword.between _ h).2.2.2.2.1 rfl
    have hempty := hword.infix_ws_cons hclose [] ws []
    rw [List.nil_append, or_self] at hempty
    dsimp only
    rw [Node.text, infix_cons_iff hword.nonempty hopen, hempty]
    exact iff_of_false (infix_nil_iff hword.nonempty) (by simp [tokens])
  | .emptyObject ws, path, s, res, h => by
    cases h
    have hopen : '\x7b' ∉ word := fun h => (hword.between _ h).2.2.2.2.2.1 rfl
    have hclose : '\x7d' ∉ word := fun h => (hword.between _ h).2.2.2.2.2.2.1 rfl
    have hempty := hword.infix_ws_cons hclose [] ws []
    rw [List.nil_append, or_self] at hempty
    dsimp only
    rw [Node.text, infix_cons_iff hword.nonempty hopen, hempty]
    exact iff_of_false (infix_nil_iff hword.nonempty) (by simp [tokens])
  | .array lead first rest trail, path, s, res, h => by
    obtain ⟨a, b, ha, hb, rfl⟩ := of_rewrite_array h
    have hopen : '[' ∉ word := fun h => (hword.between _ h).2.2.2.1 rfl
    dsimp only
    rw [Node.text, infix_cons_iff hword.nonempty hopen,
      infix_append_iff hword.nonempty (hword.notMem_ws lead), infix_rewriteItems hword hr hb,
      infix_rewrite hword hr ha, tokens, exists_mem_append]
  | .object lead name first rest trail, path, s, res, h => by
    obtain ⟨key, a, b, hkey, ha, hb, rfl⟩ := of_rewrite_object h
    have hkeyOf : keyOf name = key := by rw [keyOf, hkey]; rfl
    have hopen : '\x7b' ∉ word := fun h => (hword.between _ h).2.2.2.2.2.1 rfl
    dsimp only
    rw [Node.text, infix_cons_iff hword.nonempty hopen,
      infix_append_iff hword.nonempty (hword.notMem_ws lead), hword.infix_name,
      infix_rewriteMembers hword hr hb, infix_rewrite hword hr ha, tokens, hkeyOf,
      exists_mem_cons_append]
    rfl

theorem infix_rewriteItems (hword : Word word) (hr : Replaces v r) :
    ∀ {items : List (Sep × Node)} {path : List PathSeg} {i : Nat} {s : σ}
    {res : Rewritten (List (Sep × Node)) σ} {x : List Char} {trail : Ws},
    rewriteItems v path i items s = some res →
    (word <:+: x ++ (Node.moreItemsText res.item ++ (trail.text ++ [']'])) ↔
      word <:+: x ∨ ∃ token ∈ itemTokens path i items, word <:+: relayed r token)
  | [], path, i, s, res, x, trail, h => by
    cases h
    have hclose : ']' ∉ word := fun h => (hword.between _ h).2.2.2.2.1 rfl
    dsimp only
    rw [Node.moreItemsText, List.nil_append, hword.infix_ws_cons hclose, itemTokens]
    simp [infix_nil_iff hword.nonempty]
  | (sep, n) :: rest, path, i, s, res, x, trail, h => by
    obtain ⟨a, b, ha, hb, rfl⟩ := of_rewriteItems_cons h
    have hcomma : ',' ∉ word := fun h => (hword.between _ h).2.1 rfl
    dsimp only
    rw [Node.moreItemsText, Sep.text, List.append_assoc, List.append_assoc, List.cons_append,
      hword.infix_ws_cons hcomma, infix_append_iff hword.nonempty (hword.notMem_ws sep.after),
      List.append_assoc, infix_rewriteItems hword hr hb, infix_rewrite hword hr ha, itemTokens,
      exists_mem_append]

theorem infix_rewriteMembers (hword : Word word) (hr : Replaces v r) :
    ∀ {members : List (Sep × Name × Node)} {path : List PathSeg} {s : σ}
    {res : Rewritten (List (Sep × Name × Node)) σ} {x : List Char} {trail : Ws},
    rewriteMembers v path members s = some res →
    (word <:+: x ++ (Node.moreMembersText res.item ++ (trail.text ++ ['\x7d'])) ↔
      word <:+: x ∨ ∃ token ∈ memberTokens path members, word <:+: relayed r token)
  | [], path, s, res, x, trail, h => by
    cases h
    have hclose : '\x7d' ∉ word := fun h => (hword.between _ h).2.2.2.2.2.2.1 rfl
    dsimp only
    rw [Node.moreMembersText, List.nil_append, hword.infix_ws_cons hclose, memberTokens]
    simp [infix_nil_iff hword.nonempty]
  | (sep, name, n) :: rest, path, s, res, x, trail, h => by
    obtain ⟨key, a, b, hkey, ha, hb, rfl⟩ := of_rewriteMembers_cons h
    have hkeyOf : keyOf name = key := by rw [keyOf, hkey]; rfl
    have hcomma : ',' ∉ word := fun h => (hword.between _ h).2.1 rfl
    dsimp only
    rw [Node.moreMembersText, Sep.text, List.append_assoc, List.append_assoc, List.cons_append,
      hword.infix_ws_cons hcomma, infix_append_iff hword.nonempty (hword.notMem_ws sep.after),
      List.append_assoc, List.append_assoc, hword.infix_name, infix_rewriteMembers hword hr hb,
      infix_rewrite hword hr ha, memberTokens, hkeyOf, exists_mem_cons_append]
    rfl

end

end Words

/-! ### Strings of the value -/

mutual

/-- No object in the value repeats a name. -/
def Distinct : Value → Prop
  | .array items => itemsDistinct items
  | .object fields => (fields.map (·.1)).Nodup ∧ fieldsDistinct fields
  | _ => True

def itemsDistinct : List Value → Prop
  | [] => True
  | x :: xs => Distinct x ∧ itemsDistinct xs

def fieldsDistinct : List (String × Value) → Prop
  | [] => True
  | (_, x) :: fields => Distinct x ∧ fieldsDistinct fields

end

/-- What stands at a path, from the root in. -/
def valueAt : List PathSeg → Value → Option Value
  | [], x => some x
  | .key k :: path, x => (x.get k).bind (valueAt path)
  | .index i :: path, .array items => (items[i]?).bind (valueAt path)
  | .index _ :: _, _ => none

theorem lookup_eq_some_iff {fields : List (String × Value)} (h : (fields.map (·.1)).Nodup)
    {k : String} {x : Value} : fields.lookup k = some x ↔ (k, x) ∈ fields := by
  induction fields with
  | nil => simp
  | cons f fields ih =>
    obtain ⟨k', y⟩ := f
    obtain ⟨hnotMem, hnodup⟩ := List.nodup_cons.mp h
    rw [List.lookup_cons, List.mem_cons, Prod.mk.injEq]
    by_cases hk : k = k'
    · subst hk
      rw [beq_self_eq_true]
      constructor
      · intro heq
        exact .inl ⟨rfl, (Option.some.inj heq).symm⟩
      · rintro (⟨-, rfl⟩ | hmem)
        · rfl
        · exact absurd (List.mem_map_of_mem hmem) hnotMem
    · rw [beq_false_of_ne hk, ih hnodup]
      simp [hk]

/-- The token stands for the text, and its path goes on from `path` by `q`. -/
def IsAt (path q : List PathSeg) (text : String) (token : Option (List PathSeg) × StringToken) :
    Prop :=
  token.1 = some (q.reverse ++ path) ∧ token.2.decode = some text

theorem isAt_cons {path q : List PathSeg} {seg : PathSeg} {text : String}
    {token : Option (List PathSeg) × StringToken} :
    IsAt (seg :: path) q text token ↔ IsAt path (seg :: q) text token := by
  simp [IsAt]

mutual

theorem valueAt_of_mem :
    ∀ {n : Node} {path : List PathSeg} {x : Value} {token : Option (List PathSeg) × StringToken}
    {p : List PathSeg}, n.value? readNumber = some x → Distinct x → token ∈ tokens path n →
    token.1 = some p →
    ∃ q text, IsAt path q text token ∧ valueAt q x = some (.string text)
  | .scalar t, path, x, token, p, _, _, hmem, _ => by cases hmem
  | .emptyArray ws, path, x, token, p, _, _, hmem, _ => by cases hmem
  | .emptyObject ws, path, x, token, p, _, _, hmem, _ => by cases hmem
  | .string t, path, x, token, p, hx, _, hmem, _ => by
    rw [Node.value?] at hx
    obtain ⟨text, htext, rfl⟩ := Option.map_eq_some_iff.mp hx
    rw [tokens] at hmem
    obtain rfl := List.mem_singleton.mp hmem
    exact ⟨[], text, ⟨rfl, htext⟩, rfl⟩
  | .array lead first rest trail, path, x, token, p, hx, hdistinct, hmem, hp => by
    rw [Node.value?] at hx
    obtain ⟨y, hy, hmap⟩ := Option.bind_eq_some_iff.mp hx
    obtain ⟨ys, hys, rfl⟩ := Option.map_eq_some_iff.mp hmap
    rw [Distinct, itemsDistinct] at hdistinct
    rw [tokens] at hmem
    rcases List.mem_append.mp hmem with hmem | hmem
    · obtain ⟨q, text, hat, hvalue⟩ := valueAt_of_mem hy hdistinct.1 hmem hp
      exact ⟨.index 0 :: q, text, isAt_cons.mp hat, hvalue⟩
    · obtain ⟨j, q, text, z, hz, hat, hvalue⟩ := valueAt_of_mem_items hys hdistinct.2 hmem hp
      refine ⟨.index (1 + j) :: q, text, isAt_cons.mp hat, ?_⟩
      rw [valueAt, Nat.add_comm, List.getElem?_cons_succ, hz]
      exact hvalue
  | .object lead name first rest trail, path, x, token, p, hx, hdistinct, hmem, hp => by
    rw [Node.value?] at hx
    obtain ⟨key, hkey, hbind⟩ := Option.bind_eq_some_iff.mp hx
    obtain ⟨y, hy, hmap⟩ := Option.bind_eq_some_iff.mp hbind
    obtain ⟨ys, hys, rfl⟩ := Option.map_eq_some_iff.mp hmap
    have hkeyOf : keyOf name = key := by rw [keyOf, hkey]; rfl
    rw [Distinct, fieldsDistinct] at hdistinct
    rw [tokens, hkeyOf] at hmem
    rcases List.mem_cons.mp hmem with rfl | hmem
    · cases hp
    · rcases List.mem_append.mp hmem with hmem | hmem
      · obtain ⟨q, text, hat, hvalue⟩ := valueAt_of_mem hy hdistinct.2.1 hmem hp
        refine ⟨.key key :: q, text, isAt_cons.mp hat, ?_⟩
        rw [valueAt, Value.get, (lookup_eq_some_iff hdistinct.1).mpr List.mem_cons_self]
        exact hvalue
      · obtain ⟨k, q, text, z, hz, hat, hvalue⟩ := valueAt_of_mem_members hys hdistinct.2.2 hmem hp
        refine ⟨.key k :: q, text, isAt_cons.mp hat, ?_⟩
        rw [valueAt, Value.get, (lookup_eq_some_iff hdistinct.1).mpr (List.mem_cons_of_mem _ hz)]
        exact hvalue

theorem valueAt_of_mem_items :
    ∀ {items : List (Sep × Node)} {path : List PathSeg} {i : Nat} {xs : List Value}
    {token : Option (List PathSeg) × StringToken}
    {p : List PathSeg}, Node.items? readNumber items = some xs →
    itemsDistinct xs → token ∈ itemTokens path i items → token.1 = some p →
    ∃ j q text y, xs[j]? = some y ∧ IsAt (.index (i + j) :: path) q text token ∧
      valueAt q y = some (.string text)
  | [], path, i, xs, token, p, _, _, hmem, _ => by cases hmem
  | (sep, n) :: rest, path, i, xs, token, p, hx, hdistinct, hmem, hp => by
    rw [Node.items?] at hx
    obtain ⟨y, hy, hmap⟩ := Option.bind_eq_some_iff.mp hx
    obtain ⟨ys, hys, rfl⟩ := Option.map_eq_some_iff.mp hmap
    rw [itemsDistinct] at hdistinct
    rw [itemTokens] at hmem
    rcases List.mem_append.mp hmem with hmem | hmem
    · obtain ⟨q, text, hat, hvalue⟩ := valueAt_of_mem hy hdistinct.1 hmem hp
      exact ⟨0, q, text, y, rfl, hat, hvalue⟩
    · obtain ⟨j, q, text, z, hz, hat, hvalue⟩ := valueAt_of_mem_items hys hdistinct.2 hmem hp
      refine ⟨j + 1, q, text, z, hz, ?_, hvalue⟩
      rwa [Nat.add_assoc, Nat.add_comm 1 j] at hat

theorem valueAt_of_mem_members : ∀ {members : List (Sep × Name × Node)} {path : List PathSeg}
    {xs : List (String × Value)} {token : Option (List PathSeg) × StringToken} {p : List PathSeg},
    Node.members? readNumber members = some xs → fieldsDistinct xs →
      token ∈ memberTokens path members →
    token.1 = some p →
    ∃ k q text y, (k, y) ∈ xs ∧ IsAt (.key k :: path) q text token ∧
      valueAt q y = some (.string text)
  | [], path, xs, token, p, _, _, hmem, _ => by cases hmem
  | (sep, name, n) :: rest, path, xs, token, p, hx, hdistinct, hmem, hp => by
    rw [Node.members?] at hx
    obtain ⟨key, hkey, hbind⟩ := Option.bind_eq_some_iff.mp hx
    obtain ⟨y, hy, hmap⟩ := Option.bind_eq_some_iff.mp hbind
    obtain ⟨ys, hys, rfl⟩ := Option.map_eq_some_iff.mp hmap
    have hkeyOf : keyOf name = key := by rw [keyOf, hkey]; rfl
    rw [fieldsDistinct] at hdistinct
    rw [memberTokens, hkeyOf] at hmem
    rcases List.mem_cons.mp hmem with rfl | hmem
    · cases hp
    · rcases List.mem_append.mp hmem with hmem | hmem
      · obtain ⟨q, text, hat, hvalue⟩ := valueAt_of_mem hy hdistinct.1 hmem hp
        exact ⟨key, q, text, y, List.mem_cons_self, hat, hvalue⟩
      · obtain ⟨k, q, text, z, hz, hat, hvalue⟩ := valueAt_of_mem_members hys hdistinct.2 hmem hp
        exact ⟨k, q, text, z, List.mem_cons_of_mem _ hz, hat, hvalue⟩

end

mutual

theorem mem_of_valueAt :
    ∀ {n : Node} (path : List PathSeg) {q : List PathSeg} {x : Value} {text : String},
    n.value? readNumber = some x → valueAt q x = some (.string text) →
      ∃ token ∈ tokens path n, IsAt path q text token
  | .scalar t, path, q, x, text, hx, hq => by
    have hnot : ∀ {y : Value}, y.get = (fun _ => none) → (∀ items, y ≠ .array items) →
        (∀ s, y ≠ .string s) → valueAt q y ≠ some (.string text) := by
      intro y hget harray hstring hvalue
      cases q with
      | nil => exact hstring text (Option.some.inj hvalue)
      | cons seg q =>
        cases seg with
        | key k => rw [valueAt, hget] at hvalue; cases hvalue
        | index i =>
          cases y with
          | array items => exact harray items rfl
          | _ => cases hvalue
    cases t with
    | number m =>
      rw [Node.value?] at hx
      obtain ⟨k, -, rfl⟩ := Option.map_eq_some_iff.mp hx
      exact absurd hq (hnot rfl (by intro _ h; cases h) (by intro _ h; cases h))
    | true => cases hx; exact absurd hq (hnot rfl (by intro _ h; cases h) (by intro _ h; cases h))
    | false => cases hx; exact absurd hq (hnot rfl (by intro _ h; cases h) (by intro _ h; cases h))
    | null => cases hx; exact absurd hq (hnot rfl (by intro _ h; cases h) (by intro _ h; cases h))
  | .string t, path, q, x, text, hx, hq => by
    rw [Node.value?] at hx
    obtain ⟨text', htext, rfl⟩ := Option.map_eq_some_iff.mp hx
    cases q with
    | nil =>
      cases hq
      exact ⟨_, List.mem_singleton_self _, rfl, htext⟩
    | cons seg q => cases seg <;> cases hq
  | .emptyArray ws, path, q, x, text, hx, hq => by
    cases hx
    cases q with
    | nil => cases hq
    | cons seg q => cases seg <;> cases hq
  | .emptyObject ws, path, q, x, text, hx, hq => by
    cases hx
    cases q with
    | nil => cases hq
    | cons seg q => cases seg <;> cases hq
  | .array lead first rest trail, path, q, x, text, hx, hq => by
    rw [Node.value?] at hx
    obtain ⟨y, hy, hmap⟩ := Option.bind_eq_some_iff.mp hx
    obtain ⟨ys, hys, rfl⟩ := Option.map_eq_some_iff.mp hmap
    cases q with
    | nil => cases hq
    | cons seg q =>
      cases seg with
      | key k => cases hq
      | index i =>
        rw [valueAt] at hq
        rw [tokens]
        obtain ⟨z, hz, hvalue⟩ := Option.bind_eq_some_iff.mp hq
        cases i with
        | zero =>
          obtain rfl := Option.some.inj hz
          obtain ⟨token, hmem, hat⟩ := mem_of_valueAt (.index 0 :: path) hy hvalue
          exact ⟨token, List.mem_append_left _ hmem, isAt_cons.mp hat⟩
        | succ j =>
          obtain ⟨token, hmem, hat⟩ := mem_items_of_valueAt path (i := 1) hys hz hvalue
          rw [Nat.add_comm 1 j] at hat
          exact ⟨token, List.mem_append_right _ hmem, isAt_cons.mp hat⟩
  | .object lead name first rest trail, path, q, x, text, hx, hq => by
    rw [Node.value?] at hx
    obtain ⟨key, hkey, hbind⟩ := Option.bind_eq_some_iff.mp hx
    obtain ⟨y, hy, hmap⟩ := Option.bind_eq_some_iff.mp hbind
    obtain ⟨ys, hys, rfl⟩ := Option.map_eq_some_iff.mp hmap
    have hkeyOf : keyOf name = key := by rw [keyOf, hkey]; rfl
    cases q with
    | nil => cases hq
    | cons seg q =>
      cases seg with
      | index i => cases hq
      | key k =>
        rw [valueAt, Value.get] at hq
        rw [tokens, hkeyOf]
        obtain ⟨z, hz, hvalue⟩ := Option.bind_eq_some_iff.mp hq
        rw [List.lookup_cons] at hz
        cases hk : k == key with
        | true =>
          rw [hk] at hz
          obtain rfl := eq_of_beq hk
          obtain rfl := Option.some.inj hz
          obtain ⟨token, hmem, hat⟩ := mem_of_valueAt (.key k :: path) hy hvalue
          exact ⟨token, List.mem_cons_of_mem _ (List.mem_append_left _ hmem), isAt_cons.mp hat⟩
        | false =>
          rw [hk] at hz
          obtain ⟨token, hmem, hat⟩ := mem_members_of_valueAt path hys hz hvalue
          exact ⟨token, List.mem_cons_of_mem _ (List.mem_append_right _ hmem), isAt_cons.mp hat⟩

theorem mem_items_of_valueAt :
    ∀ {items : List (Sep × Node)} (path : List PathSeg) {q : List PathSeg} {i j : Nat}
      {xs : List Value}
    {y : Value} {text : String}, Node.items? readNumber items = some xs → xs[j]? = some y →
    valueAt q y = some (.string text) →
      ∃ token ∈ itemTokens path i items, IsAt (.index (i + j) :: path) q text token
  | [], path, q, i, j, xs, y, text, hx, hj, hq => by cases hx; cases hj
  | (sep, n) :: rest, path, q, i, j, xs, y, text, hx, hj, hq => by
    rw [Node.items?] at hx
    obtain ⟨y', hy, hmap⟩ := Option.bind_eq_some_iff.mp hx
    obtain ⟨ys, hys, rfl⟩ := Option.map_eq_some_iff.mp hmap
    rw [itemTokens]
    cases j with
    | zero =>
      obtain rfl := Option.some.inj hj
      obtain ⟨token, hmem, hat⟩ := mem_of_valueAt (.index i :: path) hy hq
      exact ⟨token, List.mem_append_left _ hmem, hat⟩
    | succ j =>
      obtain ⟨token, hmem, hat⟩ := mem_items_of_valueAt path (i := i + 1) hys hj hq
      rw [Nat.add_assoc, Nat.add_comm 1 j] at hat
      exact ⟨token, List.mem_append_right _ hmem, hat⟩

theorem mem_members_of_valueAt :
    ∀ {members : List (Sep × Name × Node)} (path : List PathSeg) {q : List PathSeg} {k : String}
    {xs : List (String × Value)} {y : Value}
    {text : String}, Node.members? readNumber members = some xs →
    xs.lookup k = some y → valueAt q y = some (.string text) →
    ∃ token ∈ memberTokens path members, IsAt (.key k :: path) q text token
  | [], path, q, k, xs, y, text, hx, hk, hq => by cases hx; cases hk
  | (sep, name, n) :: rest, path, q, k, xs, y, text, hx, hk, hq => by
    rw [Node.members?] at hx
    obtain ⟨key, hkey, hbind⟩ := Option.bind_eq_some_iff.mp hx
    obtain ⟨y', hy, hmap⟩ := Option.bind_eq_some_iff.mp hbind
    obtain ⟨ys, hys, rfl⟩ := Option.map_eq_some_iff.mp hmap
    have hkeyOf : keyOf name = key := by rw [keyOf, hkey]; rfl
    rw [memberTokens, hkeyOf]
    rw [List.lookup_cons] at hk
    cases hsame : k == key with
    | true =>
      rw [hsame] at hk
      obtain rfl := eq_of_beq hsame
      obtain rfl := Option.some.inj hk
      obtain ⟨token, hmem, hat⟩ := mem_of_valueAt (.key k :: path) hy hq
      exact ⟨token, List.mem_cons_of_mem _ (List.mem_append_left _ hmem), hat⟩
    | false =>
      rw [hsame] at hk
      obtain ⟨token, hmem, hat⟩ := mem_members_of_valueAt path hys hk hq
      exact ⟨token, List.mem_cons_of_mem _ (List.mem_append_right _ hmem), hat⟩

end

end JsonSplice
end Aisix
