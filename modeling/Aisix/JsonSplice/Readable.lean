import Aisix.JsonSplice.Exact
import Aisix.JsonSplice.Replacement

/-!
# Aisix.JsonSplice.Readable

Documents that stand for a value: both functions take them, and a removal is a removal from the
value (`parses_removeTopLevelMember`).
-/

namespace Aisix
namespace JsonSplice

open Json Json.Syntax

variable {σ : Type} {v : Visitor σ} {readNumber : NumberToken → Option Number} {key : String}

/-- How many arrays and objects `serde_json` opens within each other before it gives up. -/
def RECURSION_LIMIT : Nat := 128

/-- The text parses, to that value. -/
def Parses (readNumber : NumberToken → Option Number) (bytes : Bytes) (x : Value) : Prop :=
  ∃ d, bytes = textBytes d ∧ d.root.depth < RECURSION_LIMIT ∧ d.root.value? readNumber = some x

theorem depth_le_of_lt {n : Nat} (h : n < RECURSION_LIMIT) : n ≤ MAX_JSON_DEPTH := by
  unfold RECURSION_LIMIT at h
  unfold MAX_JSON_DEPTH
  omega

theorem exists_fits {d : Document} {x : Value} (hdepth : d.root.depth < RECURSION_LIMIT)
    (hx : d.root.value? readNumber = some x) (s : σ) : ∃ res, Fits v d s res := by
  obtain ⟨res, hres⟩ := exists_rewrite [] s hx
  exact ⟨res, depth_le_of_lt hdepth, hres⟩

theorem rewriteStringValues_of_fits {d : Document} {s : σ} {res : Rewritten Node σ}
    (h : Fits v d s res) : rewriteStringValues v (textBytes d) s =
      .ok (if res.changed then some (textBytes (withRoot d res.item)) else none, res.state) :=
  rewriteStringValues_eq_ok_iff.mpr ⟨d, res, rfl, h, rfl⟩

/-! ### A rewrite that changes nothing -/

theorem item_of_unchanged_string {path : List PathSeg} {t : StringToken} {s : σ}
    {res : Rewritten Node σ}
    (h : rewriteString v path t s = some res) (hres : res.changed = false) :
    res.item = .string t := by
  unfold rewriteString at h
  dsimp only at h
  split at h
  · obtain ⟨text, -, rfl⟩ := Option.map_eq_some_iff.mp h
    dsimp only at hres ⊢
    rw [Option.isSome_eq_false_iff, Option.isNone_iff_eq_none] at hres
    rw [hres]
    rfl
  · cases h
    rfl

mutual

theorem item_of_unchanged : ∀ {n : Node} {path : List PathSeg} {s : σ} {res : Rewritten Node σ},
    rewrite v path n s = some res → res.changed = false → res.item = n
  | .scalar t, path, s, res, h, _ => by cases h; rfl
  | .string t, path, s, res, h, hres => by
    rw [rewrite] at h
    exact item_of_unchanged_string h hres
  | .emptyArray ws, path, s, res, h, _ => by cases h; rfl
  | .emptyObject ws, path, s, res, h, _ => by cases h; rfl
  | .array lead first rest trail, path, s, res, h, hres => by
    obtain ⟨a, b, ha, hb, rfl⟩ := of_rewrite_array h
    obtain ⟨hfirst, hrest⟩ := Bool.or_eq_false_iff.mp hres
    dsimp only
    rw [item_of_unchanged ha hfirst, items_of_unchanged hb hrest]
  | .object lead name first rest trail, path, s, res, h, hres => by
    obtain ⟨key, a, b, -, ha, hb, rfl⟩ := of_rewrite_object h
    obtain ⟨hfirst, hrest⟩ := Bool.or_eq_false_iff.mp hres
    dsimp only
    rw [item_of_unchanged ha hfirst, members_of_unchanged hb hrest]

theorem items_of_unchanged : ∀ {items : List (Sep × Node)} {path : List PathSeg} {i : Nat} {s : σ}
    {res : Rewritten (List (Sep × Node)) σ}, rewriteItems v path i items s = some res →
    res.changed = false →
    res.item = items
  | [], path, i, s, res, h, _ => by cases h; rfl
  | (sep, n) :: rest, path, i, s, res, h, hres => by
    obtain ⟨a, b, ha, hb, rfl⟩ := of_rewriteItems_cons h
    obtain ⟨hfirst, hrest⟩ := Bool.or_eq_false_iff.mp hres
    dsimp only
    rw [item_of_unchanged ha hfirst, items_of_unchanged hb hrest]

theorem members_of_unchanged : ∀ {members : List (Sep × Name × Node)} {path : List PathSeg} {s : σ}
    {res : Rewritten (List (Sep × Name × Node)) σ}, rewriteMembers v path members s = some res →
    res.changed = false → res.item = members
  | [], path, s, res, h, _ => by cases h; rfl
  | (sep, name, n) :: rest, path, s, res, h, hres => by
    obtain ⟨key, a, b, -, ha, hb, rfl⟩ := of_rewriteMembers_cons h
    obtain ⟨hfirst, hrest⟩ := Bool.or_eq_false_iff.mp hres
    dsimp only
    rw [item_of_unchanged ha hfirst, members_of_unchanged hb hrest]

end

theorem getD_of_fits {d : Document} {s : σ} {res : Rewritten Node σ} (h : Fits v d s res) :
    (if res.changed then some (textBytes (withRoot d res.item)) else none).getD (textBytes d) =
      textBytes (withRoot d res.item) := by
  cases hres : res.changed with
  | true => rfl
  | false =>
    rw [item_of_unchanged h.rewrite hres]
    rfl

/-! ### Removing a member -/

theorem valid_of_value {d : Document} {x : Value} (hdepth : d.root.depth < RECURSION_LIMIT)
    (hx : d.root.value? readNumber = some x) : Valid d := exists_fits hdepth hx ()

theorem get_eq_none_iff {n : Node} {x : Value} (hx : n.value? readNumber = some x) :
    x.get key = none ↔ ∀ m ∈ membersOf n, m.1.key.decode ≠ some key := by
  have hnot : ∀ {y : Value}, y.get key = none → (y.get key = none ↔ ∀ m ∈ ([] : List (Name × Node)),
      m.1.key.decode ≠ some key) := by
    intro y hy
    exact iff_of_true hy fun m hm => absurd hm List.not_mem_nil
  cases n with
  | scalar t =>
    cases t with
    | number k =>
      rw [Node.value?] at hx
      obtain ⟨k, -, rfl⟩ := Option.map_eq_some_iff.mp hx
      exact hnot rfl
    | true => cases hx; exact hnot rfl
    | false => cases hx; exact hnot rfl
    | null => cases hx; exact hnot rfl
  | string t =>
    rw [Node.value?] at hx
    obtain ⟨text, -, rfl⟩ := Option.map_eq_some_iff.mp hx
    exact hnot rfl
  | emptyArray ws => cases hx; exact hnot rfl
  | array lead first rest trail =>
    rw [Node.value?] at hx
    obtain ⟨y, -, hmap⟩ := Option.bind_eq_some_iff.mp hx
    obtain ⟨ys, -, rfl⟩ := Option.map_eq_some_iff.mp hmap
    exact hnot rfl
  | emptyObject ws => cases hx; exact hnot rfl
  | object lead name first rest trail =>
    rw [value?_object] at hx
    obtain ⟨fields, hfields, rfl⟩ := Option.map_eq_some_iff.mp hx
    rw [Value.get]
    clear hx
    generalize membersOf (.object lead name first rest trail) = ms at hfields ⊢
    induction ms generalizing fields with
    | nil =>
      cases hfields
      exact hnot (y := .object []) rfl
    | cons m ms ih =>
      rw [List.mapM_cons] at hfields
      obtain ⟨f, hf, h⟩ := Option.bind_eq_some_iff.mp hfields
      obtain ⟨fs, hfs, h⟩ := Option.bind_eq_some_iff.mp h
      cases h
      obtain ⟨k, hk, hmap⟩ := Option.bind_eq_some_iff.mp hf
      obtain ⟨y, -, rfl⟩ := Option.map_eq_some_iff.mp hmap
      have ih : fs.lookup key = none ↔ ∀ m ∈ ms, m.1.key.decode ≠ some key := ih fs hfs
      rw [List.forall_mem_cons, ← ih, hk, List.lookup_cons]
      by_cases hsame : key = k
      · rw [hsame, beq_self_eq_true]
        simp
      · rw [beq_false_of_ne hsame]
        have hne : ¬ k = key := fun h => hsame h.symm
        simp [hne]

theorem withoutMember_of_get {x : Value} (h : x.get key = none) : withoutMember key x = x := by
  cases x with
  | object fields =>
    rw [Value.get, List.lookup_eq_none_iff] at h
    rw [withoutMember]
    refine congrArg Value.object (List.filter_eq_self.mpr ?_)
    intro f hf
    exact bne_iff_ne.mpr (Ne.symm (bne_iff_ne.mp (h f hf)))
  | _ => rfl

theorem get_withoutMember (key : String) (x : Value) : (withoutMember key x).get key = none := by
  cases x with
  | object fields =>
    rw [withoutMember, Value.get, List.lookup_eq_none_iff]
    intro f hf
    have hother := (List.mem_filter.mp hf).2
    exact bne_iff_ne.mpr (Ne.symm (bne_iff_ne.mp hother))
  | _ => rfl

theorem membersDepth_filter_le (p : Sep × Name × Node → Bool) (members : List (Sep × Name × Node)) :
    Node.membersDepth (members.filter p) ≤ Node.membersDepth members := by
  induction members with
  | nil => exact Nat.le_refl _
  | cons m members ih =>
    obtain ⟨sep, name, n⟩ := m
    rw [List.filter_cons]
    split
    · rw [Node.membersDepth, Node.membersDepth]
      omega
    · rw [Node.membersDepth]
      omega

theorem depth_removeMember_le {n n' : Node} (h : removeMember key n = some n') :
    n'.depth ≤ n.depth := by
  unfold removeMember at h
  split at h
  · next lead name first rest trail =>
    have hfilter := membersDepth_filter_le (keeps key) rest
    rw [Node.depth]
    split at h
    · split at h
      · cases h
        rw [Node.depth]
        omega
      · next sep name' first' more hmore =>
        cases h
        rw [hmore, Node.membersDepth] at hfilter
        rw [Node.depth]
        omega
    · split at h
      · cases h
      · cases h
        rw [Node.depth]
        omega
  · cases h

theorem parses_removeTopLevelMember {d : Document} {x : Value}
    (hdepth : d.root.depth < RECURSION_LIMIT) (hx : d.root.value? readNumber = some x) :
    ∃ out, removeTopLevelMember (textBytes d) key = some (.ok out) ∧
      Parses readNumber (out.getD (textBytes d)) (withoutMember key x) := by
  refine ⟨_, removeTopLevelMember_of_valid (valid_of_value hdepth hx), ?_⟩
  cases hremoved : removeMember key d.root with
  | none =>
    have hnone := (get_eq_none_iff hx).mpr (removeMember_eq_none_iff.mp hremoved)
    rw [withoutMember_of_get hnone]
    exact ⟨d, rfl, hdepth, hx⟩
  | some n =>
    exact ⟨withRoot d n, rfl, Nat.lt_of_le_of_lt (depth_removeMember_le hremoved) hdepth,
      value?_removeMember hremoved hx⟩

/-- A text that has a member is no text of a value without it: the removal finds what it finds. -/
theorem not_parses_withoutMember {d : Document} {x : Value}
    (hdepth : d.root.depth < RECURSION_LIMIT) (hx : d.root.value? readNumber = some x)
    (hkey : x.get key ≠ none) :
    ¬ Parses readNumber (textBytes d) (withoutMember key x) := by
  rintro ⟨d', hsame, hdepth', hx'⟩
  have hnone : removeMember key d'.root = none :=
    removeMember_eq_none_iff.mpr ((get_eq_none_iff hx').mp (get_withoutMember key x))
  have hremoved : removeTopLevelMember (Utf8.bytes (String.ofList d.text)) key = _ :=
    removeTopLevelMember_of_valid (valid_of_value hdepth hx)
  have hremoved' : removeTopLevelMember (Utf8.bytes (String.ofList d'.text)) key = _ :=
    removeTopLevelMember_of_valid (valid_of_value hdepth' hx')
  unfold textBytes at hsame
  rw [hsame, hremoved', hnone] at hremoved
  have hmap := Except.ok.inj (Option.some.inj hremoved)
  have hnone' := Option.map_eq_none_iff.mp hmap.symm
  exact hkey ((get_eq_none_iff hx).mpr (removeMember_eq_none_iff.mp hnone'))

end JsonSplice
end Aisix
