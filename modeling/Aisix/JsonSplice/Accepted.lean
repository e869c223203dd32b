import Aisix.JsonSplice.Steps

/-!
# Aisix.JsonSplice.Accepted

What the scanner makes of a value that it can rewrite: `passes_node`, by cases on the value, with
the items and the members behind the first one.
-/

namespace Aisix
namespace JsonSplice

open Json Json.Syntax

variable {σ : Type} {v : Visitor σ} {input : List Char}

/-- A value that is neither a string nor a container ends where its characters do. -/
def EndsBefore : Node → List Char → Prop
  | .scalar _, r => Stops r
  | _, _ => True

theorem endsBefore_of_stops {n : Node} {r : List Char} (h : Stops r) : EndsBefore n r := by
  cases n with
  | scalar t => exact h
  | string t => trivial
  | emptyArray ws => trivial
  | array lead first rest trail => trivial
  | emptyObject ws => trivial
  | object lead name first rest trail => trivial

theorem stops_sep (sep : Sep) (r : List Char) : Stops (sep.text ++ r) := by
  rw [Sep.text, List.append_assoc]
  exact stops_ws sep.before (stops_cons (by decide) _)

theorem stops_items (items : List (Sep × Node)) (trail : Ws) (r : List Char) :
    Stops (Node.moreItemsText items ++ (trail.text ++ ']' :: r)) := by
  cases items with
  | nil => exact stops_ws trail (stops_cons (by decide) r)
  | cons item items =>
    rw [Node.moreItemsText, List.append_assoc]
    exact stops_sep item.1 _

theorem stops_members (members : List (Sep × Name × Node)) (trail : Ws) (r : List Char) :
    Stops (Node.moreMembersText members ++ (trail.text ++ '\x7d' :: r)) := by
  cases members with
  | nil => exact stops_ws trail (stops_cons (by decide) r)
  | cons member members =>
    rw [Node.moreMembersText, List.append_assoc]
    exact stops_sep member.1 _

theorem text_array_append (lead : Ws) (first : Node) (rest : List (Sep × Node)) (trail : Ws)
    (r : List Char) :
    (Node.array lead first rest trail).text ++ r =
      '[' ::
        (lead.text ++ (first.text ++ (Node.moreItemsText rest ++ (trail.text ++ ']' :: r)))) := by
  simp [Node.text]

theorem text_object_append (lead : Ws) (name : Name) (first : Node)
    (rest : List (Sep × Name × Node)) (trail : Ws) (r : List Char) :
    (Node.object lead name first rest trail).text ++ r =
      '\x7b' :: (lead.text ++ (name.upToColon ++ (name.afterColon.text ++ (first.text ++
        (Node.moreMembersText rest ++ (trail.text ++ '\x7d' :: r)))))) := by
  simp [Node.text, Name.text]

theorem moreItemsText_append (sep : Sep) (n : Node) (rest : List (Sep × Node)) (r : List Char) :
    Node.moreItemsText ((sep, n) :: rest) ++ r =
      sep.before.text ++ ',' :: (sep.after.text ++ (n.text ++ (Node.moreItemsText rest ++ r))) := by
  simp [Node.moreItemsText, Sep.text]

theorem moreMembersText_append (sep : Sep) (name : Name) (n : Node)
    (rest : List (Sep × Name × Node)) (r : List Char) :
    Node.moreMembersText ((sep, name, n) :: rest) ++ r =
      sep.text ++
        (name.upToColon ++
        (name.afterColon.text ++ (n.text ++ (Node.moreMembersText rest ++ r)))) := by
  simp [Node.moreMembersText, Name.text]

section Reading

variable (input)

variable {path : List PathSeg} {frames : List Frame} {splices : List ((Nat × Nat) × String)} {s : σ}

theorem passes_string (w : Ws) {t : StringToken} {r : List Char} {res : Rewritten Node σ}
    (h : rewriteString v path t s = some res) :
    ∃ splices', Passes v input ⟨.value, w.text ++ (t.text ++ r), path, frames, splices, s⟩
      ⟨.after, r, path, frames, splices', res.state⟩ (w.text ++ res.item.text) res.changed := by
  have hskip : skipWs (w.text ++ (t.text ++ r)) = t.text ++ r := skipWs_node w (.string t) r
  have hstring : scanString (t.text ++ r) = .ok (t, r) := scanString_iff.mpr rfl
  have hstep : Cfg.step v input ⟨.value, w.text ++ (t.text ++ r), path, frames, splices, s⟩ =
      Cfg.scanValue v input ⟨.value, w.text ++ (t.text ++ r), path, frames, splices, s⟩
        (t.text ++ r) := by
    simp only [Cfg.step, Cfg.valueStep, hskip]
    rfl
  have hkeep : w.text ++ (t.text ++ r) = (w.text ++ t.text) ++ r := (List.append_assoc ..).symm
  unfold rewriteString at h
  simp only [Cfg.scanValue, hstring, bind, Except.bind] at hstep
  dsimp only at h
  cases hpicked : (v.shouldRewrite path.reverse s).1 with
  | false =>
    rw [hpicked, if_neg (by decide)] at h hstep
    obtain rfl := Option.some.inj h
    exact ⟨splices, .keep hstep hkeep rfl⟩
  | true =>
    rw [hpicked, if_pos rfl] at h hstep
    obtain ⟨decoded, hdecoded, rfl⟩ := Option.map_eq_some_iff.mp h
    simp only [decodeStr, hdecoded] at hstep
    cases hanswer : v.rewrite decoded (v.shouldRewrite path.reverse s).2 with
    | mk answer s' =>
      rw [hanswer] at hstep
      cases answer with
      | none => exact ⟨splices, .keep hstep hkeep rfl⟩
      | some new =>
        refine ⟨_, .single hstep, ?_, by simp⟩
        intro before hbefore
        rw [← List.append_assoc]
        have htext : (Node.string (replaced t (some new))).text = quote new := by
          rw [Node.text, replaced, StringToken.text_ofString]
        rw [htext]
        exact hbefore.keep.replace new

mutual

theorem passes_node :
    ∀ {n : Node} (w : Ws) (splices : List ((Nat × Nat) × String)) {r : List Char}
      {path : List PathSeg}
    {frames : List Frame} {s : σ} {res : Rewritten Node σ}, EndsBefore n r →
    frames.length + n.depth ≤ MAX_JSON_DEPTH → rewrite v path n s = some res →
    ∃ splices', Passes v input ⟨.value, w.text ++ (n.text ++ r), path, frames, splices, s⟩
      ⟨.after, r, path, frames, splices', res.state⟩ (w.text ++ res.item.text) res.changed
  | .scalar t, w, splices, r, path, frames, s, res, hend, _, h => by
    rw [rewrite, Option.some.injEq] at h
    subst h
    exact ⟨splices, .keep (step_scalar w t hend) (List.append_assoc ..).symm rfl⟩
  | .string t, w, splices, r, path, frames, s, res, _, _, h => by
    rw [rewrite] at h
    exact passes_string input w h
  | .emptyArray ws, w, splices, r, path, frames, s, res, _, hroom, h => by
    rw [rewrite, Option.some.injEq] at h
    subst h
    exact ⟨splices, .keep (step_emptyArray w ws r hroom) (List.append_assoc ..).symm rfl⟩
  | .emptyObject ws, w, splices, r, path, frames, s, res, _, hroom, h => by
    rw [rewrite, Option.some.injEq] at h
    subst h
    exact ⟨splices, .keep (step_emptyObject w ws r hroom) (List.append_assoc ..).symm rfl⟩
  | .array lead first rest trail, w, splices, r, path, frames, s, res, _, hroom, h => by
    obtain ⟨a, b, ha, hb, rfl⟩ := of_rewrite_array h
    rw [Node.depth] at hroom
    have hfirst : (Frame.array :: frames).length + first.depth ≤ MAX_JSON_DEPTH := by
      rw [List.length_cons]
      omega
    have hrest : frames.length + 1 + Node.itemsDepth rest ≤ MAX_JSON_DEPTH := by omega
    obtain ⟨splices₁, hpass₁⟩ := passes_node .empty splices
      (endsBefore_of_stops (stops_items rest trail r)) hfirst ha
    obtain ⟨splices₂, hpass₂⟩ := passes_items trail r splices₁ hrest hb
    have hopen :
        Passes v input ⟨.value, w.text ++ ((Node.array lead first rest trail).text ++ r), path,
        frames, splices, s⟩
        ⟨.value, first.text ++ (Node.moreItemsText rest ++ (trail.text ++ ']' :: r)),
          .index 0 :: path, .array :: frames, splices, s⟩ (w.text ++ '[' :: lead.text) false := by
      refine .keep ?_ (by simp [text_array_append]) rfl
      rw [text_array_append]
      exact step_openArray w lead first _ (by omega)
    refine ⟨splices₂, ((hopen.trans hpass₁).trans hpass₂).cast ?_ (by simp)⟩
    simp [Node.text, Ws.empty]
  | .object lead name first rest trail, w, splices, r, path, frames, s, res, _, hroom, h => by
    obtain ⟨key, a, b, hkey, ha, hb, rfl⟩ := of_rewrite_object h
    rw [Node.depth] at hroom
    have hfirst : (Frame.object :: frames).length + first.depth ≤ MAX_JSON_DEPTH := by
      rw [List.length_cons]
      omega
    have hrest : frames.length + 1 + Node.membersDepth rest ≤ MAX_JSON_DEPTH := by omega
    obtain ⟨splices₁, hpass₁⟩ := passes_node name.afterColon splices
      (endsBefore_of_stops (stops_members rest trail r)) hfirst ha
    obtain ⟨splices₂, hpass₂⟩ := passes_members trail r splices₁ (.key key) hrest hb
    have hopen : Passes v input
        ⟨.value, w.text ++ ((Node.object lead name first rest trail).text ++ r), path,
          frames, splices, s⟩
        ⟨.value, name.afterColon.text ++
          (first.text ++ (Node.moreMembersText rest ++ (trail.text ++ '\x7d' :: r))),
          .key key :: path, .object :: frames, splices, s⟩
            (w.text ++ '\x7b' :: (lead.text ++ name.upToColon)) false := by
      refine .keep ?_ (by simp [text_object_append]) rfl
      rw [text_object_append]
      exact step_openObject w lead hkey _ (by omega)
    refine ⟨splices₂, ((hopen.trans hpass₁).trans hpass₂).cast ?_ (by simp)⟩
    simp [Node.text, Name.text]

theorem passes_items :
    ∀ {items : List (Sep × Node)} (trail : Ws) (r : List Char)
      (splices : List ((Nat × Nat) × String)) {i : Nat} {path : List PathSeg} {frames : List Frame}
    {s : σ} {res : Rewritten (List (Sep × Node)) σ},
    frames.length + 1 + Node.itemsDepth items ≤ MAX_JSON_DEPTH →
      rewriteItems v path (i + 1) items s = some res →
    ∃ splices', Passes v input
      ⟨.after, Node.moreItemsText items ++ (trail.text ++ ']' :: r), .index i :: path,
        .array :: frames, splices, s⟩
      ⟨.after, r, path, frames, splices', res.state⟩
        (Node.moreItemsText res.item ++ (trail.text ++ [']'])) res.changed
  | [], trail, r, splices, i, path, frames, s, res, _, h => by
    rw [rewriteItems, Option.some.injEq] at h
    subst h
    exact ⟨splices, .keep (step_closeArray r) (by simp [Node.moreItemsText]) rfl⟩
  | (sep, n) :: rest, trail, r, splices, i, path, frames, s, res, hroom, h => by
    obtain ⟨a, b, ha, hb, rfl⟩ := of_rewriteItems_cons h
    rw [Node.itemsDepth] at hroom
    have hfirst : (Frame.array :: frames).length + n.depth ≤ MAX_JSON_DEPTH := by
      rw [List.length_cons]
      omega
    have hrest : frames.length + 1 + Node.itemsDepth rest ≤ MAX_JSON_DEPTH := by omega
    obtain ⟨splices₁, hpass₁⟩ := passes_node sep.after splices
      (endsBefore_of_stops (stops_items rest trail r)) hfirst ha
    obtain ⟨splices₂, hpass₂⟩ := passes_items trail r splices₁ hrest hb
    have hcomma : Passes v input
        ⟨.after, Node.moreItemsText ((sep, n) :: rest) ++ (trail.text ++ ']' :: r),
          .index i :: path, .array :: frames, splices, s⟩
        ⟨.value, sep.after.text ++
          (n.text ++ (Node.moreItemsText rest ++ (trail.text ++ ']' :: r))), .index (i + 1) :: path,
          .array :: frames, splices, s⟩ (sep.before.text ++ [',']) false := by
      refine .keep ?_ (by simp [moreItemsText_append]) rfl
      rw [moreItemsText_append]
      exact step_nextItem _
    refine ⟨splices₂, ((hcomma.trans hpass₁).trans hpass₂).cast ?_ (by simp)⟩
    simp [Node.moreItemsText, Sep.text]

theorem passes_members : ∀ {members : List (Sep × Name × Node)} (trail : Ws) (r : List Char)
    (splices : List ((Nat × Nat) × String)) (seg : PathSeg) {path : List PathSeg}
    {frames : List Frame} {s : σ} {res : Rewritten (List (Sep × Name × Node)) σ},
    frames.length + 1 + Node.membersDepth members ≤ MAX_JSON_DEPTH →
      rewriteMembers v path members s = some res →
    ∃ splices', Passes v input
      ⟨.after, Node.moreMembersText members ++ (trail.text ++ '\x7d' :: r), seg :: path,
        .object :: frames, splices, s⟩
      ⟨.after, r, path, frames, splices', res.state⟩
        (Node.moreMembersText res.item ++ (trail.text ++ ['\x7d'])) res.changed
  | [], trail, r, splices, seg, path, frames, s, res, _, h => by
    rw [rewriteMembers, Option.some.injEq] at h
    subst h
    exact ⟨splices, .keep (step_closeObject r) (by simp [Node.moreMembersText]) rfl⟩
  | (sep, name, n) :: rest, trail, r, splices, seg, path, frames, s, res, hroom, h => by
    obtain ⟨key, a, b, hkey, ha, hb, rfl⟩ := of_rewriteMembers_cons h
    rw [Node.membersDepth] at hroom
    have hfirst : (Frame.object :: frames).length + n.depth ≤ MAX_JSON_DEPTH := by
      rw [List.length_cons]
      omega
    have hrest : frames.length + 1 + Node.membersDepth rest ≤ MAX_JSON_DEPTH := by omega
    obtain ⟨splices₁, hpass₁⟩ := passes_node name.afterColon splices
      (endsBefore_of_stops (stops_members rest trail r)) hfirst ha
    obtain ⟨splices₂, hpass₂⟩ := passes_members trail r splices₁ (.key key) hrest hb
    have hcomma : Passes v input
        ⟨.after, Node.moreMembersText ((sep, name, n) :: rest) ++ (trail.text ++ '\x7d' :: r),
          seg :: path, .object :: frames, splices, s⟩
        ⟨.value, name.afterColon.text ++
          (n.text ++ (Node.moreMembersText rest ++ (trail.text ++ '\x7d' :: r))), .key key :: path,
          .object :: frames, splices, s⟩ (sep.text ++ name.upToColon) false := by
      refine .keep ?_ (by simp [moreMembersText_append]) rfl
      rw [moreMembersText_append]
      exact step_nextMember sep hkey _
    refine ⟨splices₂, ((hcomma.trans hpass₁).trans hpass₂).cast ?_ (by simp)⟩
    simp [Node.moreMembersText, Name.text]

end

end Reading

end JsonSplice
end Aisix
