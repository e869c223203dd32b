import Aisix.JsonSplice.StringTokens

/-!
# Aisix.JsonSplice.Paths

Replacing the strings at given paths and writing to members one after another come to the same for
values whose objects repeat no name: `mapPure_eq_modifyAt` for one path of member names,
`mapPure_mapPure` for several.
-/

namespace Aisix
namespace JsonSplice

open Json Json.Syntax

variable {r r' : List PathSeg → String → Option String}

/-! ### One replacement after another -/

mutual

theorem mapPure_mapPure (h : ∀ p text new, r p text = some new → r' p new = none) :
    ∀ (path : List PathSeg) (x : Value), mapPure r' path (mapPure r path x) =
    mapPure (fun p text => (r p text).or (r' p text)) path x
  | path, .string text => by
    rw [mapPure, mapPure, mapPure]
    cases hr : r path.reverse text with
    | none => rfl
    | some new =>
      rw [Option.getD_some, h _ _ _ hr]
      rfl
  | path, .array items => by rw [mapPure, mapPure, mapPure, mapPureItems_mapPureItems h]
  | path, .object fields => by rw [mapPure, mapPure, mapPure, mapPureFields_mapPureFields h]
  | path, .null => rfl
  | path, .bool b => rfl
  | path, .number n => rfl

theorem mapPureItems_mapPureItems (h : ∀ p text new, r p text = some new → r' p new = none) :
    ∀ (path : List PathSeg) (i : Nat) (items : List Value),
      mapPureItems r' path i (mapPureItems r path i items) =
      mapPureItems (fun p text => (r p text).or (r' p text)) path i items
  | path, i, [] => rfl
  | path, i, x :: xs => by
    rw [mapPureItems, mapPureItems, mapPureItems, mapPure_mapPure h, mapPureItems_mapPureItems h]

theorem mapPureFields_mapPureFields (h : ∀ p text new, r p text = some new → r' p new = none) :
    ∀ (path : List PathSeg) (fields : List (String × Value)),
      mapPureFields r' path (mapPureFields r path fields) =
      mapPureFields (fun p text => (r p text).or (r' p text)) path fields
  | path, [] => rfl
  | path, (key, x) :: fields => by
    rw [mapPureFields, mapPureFields, mapPureFields, mapPure_mapPure h,
      mapPureFields_mapPureFields h]

end

/-! ### Values that repeat no name -/

mutual

theorem distinct_mapPure :
    ∀ {path : List PathSeg} {x : Value}, Distinct x → Distinct (mapPure r path x)
  | path, .string text, _ => by rw [mapPure]; trivial
  | path, .array items, h => by
    rw [Distinct] at h
    rw [mapPure, Distinct]
    exact itemsDistinct_mapPureItems h
  | path, .object fields, h => by
    rw [Distinct] at h
    have hnames : (mapPureFields r path fields).map (·.1) = fields.map (·.1) := by
      rw [mapPureFields_eq_map, List.map_map]
      rfl
    rw [mapPure, Distinct, hnames]
    exact ⟨h.1, fieldsDistinct_mapPureFields h.2⟩
  | path, .null, _ => trivial
  | path, .bool b, _ => trivial
  | path, .number n, _ => trivial

theorem itemsDistinct_mapPureItems :
    ∀ {path : List PathSeg} {i : Nat} {items : List Value}, itemsDistinct items →
    itemsDistinct (mapPureItems r path i items)
  | _, _, [], _ => trivial
  | _, _, _ :: _, h => ⟨distinct_mapPure h.1, itemsDistinct_mapPureItems h.2⟩

theorem fieldsDistinct_mapPureFields :
    ∀ {path : List PathSeg} {fields : List (String × Value)}, fieldsDistinct fields →
    fieldsDistinct (mapPureFields r path fields)
  | _, [], _ => trivial
  | _, _ :: _, h => ⟨distinct_mapPure h.1, fieldsDistinct_mapPureFields h.2⟩

end

theorem distinct_of_mem {fields : List (String × Value)} (h : fieldsDistinct fields) :
    ∀ f ∈ fields, Distinct f.2 := by
  induction fields with
  | nil =>
    intro f hf
    cases hf
  | cons g fields ih =>
    intro f hf
    rcases List.mem_cons.mp hf with rfl | hf
    · exact h.1
    · exact ih h.2 f hf

mutual

theorem mapPure_congr : ∀ {path : List PathSeg} {x : Value}, Distinct x →
    (∀ q text, valueAt q x = some (.string text) →
      r (path.reverse ++ q) text = r' (path.reverse ++ q) text) →
    mapPure r path x = mapPure r' path x
  | path, .string text, _, h => by
    have hhere := h [] text rfl
    rw [List.append_nil] at hhere
    rw [mapPure, mapPure, hhere]
  | path, .array items, hd, h => by
    rw [Distinct] at hd
    rw [mapPure, mapPure, mapPureItems_congr 0 hd]
    intro j q text y hy hq
    rw [Nat.zero_add]
    refine h (.index j :: q) text ?_
    rw [valueAt, hy]
    exact hq
  | path, .object fields, hd, h => by
    rw [Distinct] at hd
    rw [mapPure, mapPure, mapPureFields_congr hd.2]
    intro key q text y hy hq
    refine h (.key key :: q) text ?_
    rw [valueAt, Value.get, (lookup_eq_some_iff hd.1).mpr hy]
    exact hq
  | path, .null, _, _ => rfl
  | path, .bool b, _, _ => rfl
  | path, .number n, _, _ => rfl

theorem mapPureItems_congr :
    ∀ {path : List PathSeg} (i : Nat) {items : List Value}, itemsDistinct items →
    (∀ j q text y, items[j]? = some y → valueAt q y = some (.string text) →
      r (path.reverse ++ .index (i + j) :: q) text =
        r' (path.reverse ++ .index (i + j) :: q) text) →
    mapPureItems r path i items = mapPureItems r' path i items
  | path, i, [], _, _ => rfl
  | path, i, x :: xs, hd, h => by
    have hfirst : mapPure r (.index i :: path) x = mapPure r' (.index i :: path) x := by
      refine mapPure_congr hd.1 ?_
      intro q text hq
      rw [List.reverse_cons, List.append_assoc]
      exact h 0 q text x rfl hq
    rw [mapPureItems, mapPureItems, hfirst, mapPureItems_congr (i + 1) hd.2]
    intro j q text y hy hq
    rw [Nat.add_assoc, Nat.add_comm 1 j]
    exact h (j + 1) q text y hy hq

theorem mapPureFields_congr :
    ∀ {path : List PathSeg} {fields : List (String × Value)}, fieldsDistinct fields →
    (∀ key q text y, (key, y) ∈ fields → valueAt q y = some (.string text) →
      r (path.reverse ++ .key key :: q) text = r' (path.reverse ++ .key key :: q) text) →
    mapPureFields r path fields = mapPureFields r' path fields
  | path, [], _, _ => rfl
  | path, (key, x) :: fields, hd, h => by
    have hfirst : mapPure r (.key key :: path) x = mapPure r' (.key key :: path) x := by
      refine mapPure_congr hd.1 ?_
      intro q text hq
      rw [List.reverse_cons, List.append_assoc]
      exact h key q text x List.mem_cons_self hq
    rw [mapPureFields, mapPureFields, hfirst, mapPureFields_congr hd.2]
    intro k q text y hy hq
    exact h k q text y (List.mem_cons_of_mem _ hy) hq

end

/-! ### Writing at a path of names -/

def mapStr (f : String → String) : Value → Value
  | .string s => .string (f s)
  | v => v

/-- Rewrites the string at the end of a path of member names, when there is one. -/
def modifyAt : List String → (String → String) → Value → Value
  | [], f => mapStr f
  | key :: keys, f => Value.modify key (modifyAt keys f)

/-- Replaces the string at one path. -/
def only (keys : List String) (f : String → String) (path : List PathSeg) (text : String) :
    Option String :=
  if path = keys.map .key then some (f text) else none

theorem modifyField_eq_map {fields : List (String × Value)} (h : (fields.map (·.1)).Nodup)
    (key : String) (f : Value → Value) :
    Value.modifyField key f fields = fields.map fun e =>
      (e.1, if e.1 = key then f e.2 else e.2) := by
  induction fields with
  | nil => rfl
  | cons e fields ih =>
    obtain ⟨k, x⟩ := e
    obtain ⟨hnotMem, hnodup⟩ := List.nodup_cons.mp h
    rw [Value.modifyField, List.map_cons]
    by_cases hk : k = key
    · subst hk
      have hrest : (fields.map fun e => (e.1, if e.1 = k then f e.2 else e.2)) = fields := by
        refine (List.map_congr_left ?_).trans (List.map_id fields)
        intro e he
        have hne : e.1 ≠ k := by
          intro heq
          exact hnotMem (List.mem_map.mpr ⟨e, he, heq⟩)
        rw [if_neg hne]
        rfl
      rw [if_pos rfl, hrest, if_pos rfl]
    · rw [if_neg hk, ih hnodup, if_neg hk]

theorem mapPureItems_none {path : List PathSeg} (i : Nat) (items : List Value)
    (h : ∀ i q text, r ((.index i :: path).reverse ++ q) text = none) :
    mapPureItems r path i items = items := by
  induction items generalizing i with
  | nil => rfl
  | cons x xs ih => rw [mapPureItems, mapPure_dull x (h i), ih]

theorem mapPure_eq_modifyAt {f : String → String} :
    ∀ (keys : List String) {path : List PathSeg} {x : Value}, Distinct x →
    (∀ q text, r (path.reverse ++ q) text = only keys f q text) →
      mapPure r path x = modifyAt keys f x
  | [], path, x, hd, h => by
    have hbelow : ∀ (seg : PathSeg) q text, r ((seg :: path).reverse ++ q) text = none := by
      intro seg q text
      rw [List.reverse_cons, List.append_assoc]
      exact (h (seg :: q) text).trans (if_neg (List.cons_ne_nil seg q))
    cases x with
    | string text =>
      have hhere := h [] text
      rw [List.append_nil] at hhere
      rw [mapPure, hhere]
      rfl
    | array items =>
      rw [mapPure]
      exact congrArg Value.array
        (mapPureItems_none 0 items fun i q text => hbelow (.index i) q text)
    | object fields =>
      rw [mapPure, mapPureFields_eq_map]
      refine congrArg Value.object ((List.map_congr_left ?_).trans (List.map_id fields))
      intro e he
      rw [mapPure_dull e.2 fun q text => hbelow (.key e.1) q text]
      rfl
    | null => rfl
    | bool b => rfl
    | number n => rfl
  | key :: keys, path, x, hd, h => by
    have hat : ∀ (seg : PathSeg) q text, r ((seg :: path).reverse ++ q) text =
        only (key :: keys) f (seg :: q) text := by
      intro seg q text
      rw [List.reverse_cons, List.append_assoc]
      exact h (seg :: q) text
    cases x with
    | string text =>
      have hhere := h [] text
      rw [List.append_nil] at hhere
      rw [mapPure, hhere]
      rfl
    | array items =>
      rw [mapPure]
      refine congrArg Value.array (mapPureItems_none 0 items ?_)
      intro i q text
      exact (hat (.index i) q text).trans (if_neg (by simp))
    | object fields =>
      rw [Distinct] at hd
      rw [mapPure, mapPureFields_eq_map, modifyAt, Value.modify, modifyField_eq_map hd.1]
      refine congrArg Value.object (List.map_congr_left ?_)
      intro e he
      congr 1
      by_cases hkey : e.1 = key
      · rw [if_pos hkey]
        refine mapPure_eq_modifyAt keys (distinct_of_mem hd.2 e he) ?_
        intro q text
        rw [hat, hkey]
        simp [only]
      · rw [if_neg hkey]
        refine mapPure_dull e.2 ?_
        intro q text
        rw [hat]
        simp [only, hkey]
    | null => rfl
    | bool b => rfl
    | number n => rfl

/-! ### Writing at several paths -/

/-- What the first edit of the path makes of a text. -/
def firstOf (edits : List (List String × (String → String))) (path : List PathSeg) (text : String) :
    Option String :=
  edits.findSome? fun e => only e.1 e.2 path text

theorem firstOf_cons (e : List String × (String → String))
    (edits : List (List String × (String → String))) :
    firstOf (e :: edits) = fun path text => (only e.1 e.2 path text).or
      (firstOf edits path text) := by
  funext path text
  unfold firstOf
  rw [List.findSome?_cons]
  cases only e.1 e.2 path text with
  | none => rfl
  | some new => rfl

theorem firstOf_of_notMem {edits : List (List String × (String → String))} {keys : List String}
    (h : keys ∉ edits.map (·.1)) (text : String) : firstOf edits (keys.map .key) text = none := by
  refine List.findSome?_eq_none_iff.mpr ?_
  intro e he
  refine if_neg ?_
  intro hsame
  have hkeys : keys = e.1 := List.map_injective_iff.mpr (fun a b hab => PathSeg.key.inj hab) hsame
  exact h (hkeys ▸ List.mem_map_of_mem he)

theorem firstOf_of_mem {edits : List (List String × (String → String))}
    {e : List String × (String → String)} (h : (edits.map (·.1)).Nodup) (he : e ∈ edits)
    (text : String) :
    firstOf edits (e.1.map .key) text = some (e.2 text) := by
  induction edits with
  | nil => cases he
  | cons e' edits ih =>
    obtain ⟨hnotMem, hnodup⟩ := List.nodup_cons.mp h
    rw [firstOf_cons]
    dsimp only
    rcases List.mem_cons.mp he with rfl | he
    · rw [only, if_pos rfl]
      rfl
    · have hother : e.1.map PathSeg.key ≠ e'.1.map .key := by
        intro hsame
        have hkeys : e.1 = e'.1 :=
          List.map_injective_iff.mpr (fun a b hab => PathSeg.key.inj hab) hsame
        exact hnotMem (List.mem_map.mpr ⟨e, he, hkeys⟩)
      rw [only, if_neg hother, ih hnodup he]
      rfl

theorem mapPure_firstOf {edits : List (List String × (String → String))} {x : Value}
    (h : (edits.map (·.1)).Nodup) (hx : Distinct x) :
    mapPure (firstOf edits) [] x = edits.foldl (fun x e => modifyAt e.1 e.2 x) x := by
  induction edits generalizing x with
  | nil => exact mapPure_dull x fun q text => rfl
  | cons e edits ih =>
    obtain ⟨hnotMem, hnodup⟩ := List.nodup_cons.mp h
    have hapart : ∀ p text new, only e.1 e.2 p text = some new → firstOf edits p new = none := by
      intro p text new hnew
      unfold only at hnew
      split at hnew
      · next hp =>
        rw [hp]
        exact firstOf_of_notMem hnotMem new
      · cases hnew
    have hfirst : mapPure (only e.1 e.2) [] x = modifyAt e.1 e.2 x :=
      mapPure_eq_modifyAt e.1 hx fun q text => rfl
    rw [firstOf_cons, ← mapPure_mapPure hapart, ih hnodup (distinct_mapPure hx), hfirst,
      List.foldl_cons]

theorem get_mapPure {r : List PathSeg → String → Option String} {path : List PathSeg} {x : Value}
    {key : String} :
    (mapPure r path x).get key = none ↔ x.get key = none := by
  cases x with
  | object fields =>
    rw [mapPure, mapPureFields_eq_map, Value.get, Value.get, List.lookup_eq_none_iff,
      List.lookup_eq_none_iff, List.forall_mem_map]
  | string text => rw [mapPure]; exact Iff.rfl
  | array items => rw [mapPure]; exact Iff.rfl
  | null => exact Iff.rfl
  | bool b => exact Iff.rfl
  | number n => exact Iff.rfl

end JsonSplice
end Aisix
