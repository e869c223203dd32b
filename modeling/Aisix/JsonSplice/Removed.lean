import Aisix.JsonSplice.Removal

/-!
# Aisix.JsonSplice.Removed

What the removal of a top-level member is to do to a document as it is written, `removeMember`, and
that the code does it: `removeTopLevelMember_eq`. It never reads past the end of a text that the
first scan let through.
-/

namespace Aisix
namespace JsonSplice

open Json Json.Syntax

def keeps (key : String) (m : Sep × Name × Node) : Bool := m.2.1.key.decode != some key

/-- The document without the members of that name; `none` when it has none. -/
def removeMember (key : String) : Node → Option Node
  | .object lead name first rest trail =>
    if name.key.decode = some key then
      match rest.filter (keeps key) with
      | [] => some (.emptyObject (lead.append trail))
      | (_, name', first') :: more => some (.object lead name' first' more trail)
    else if rest.all (keeps key) then none
    else some (.object lead name first (rest.filter (keeps key)) trail)
  | _ => none

variable {input : List Char} {key : String}

/-! ### Where the members are -/

/-- Where each of the members starts and ends, `tail` being the text behind the last. -/
def memberSpans (input : List Char) (key : String) (tail : List Char) :
    List (Sep × Name × Node) → List (Nat × Nat × Bool)
  | [] => []
  | (sep, name, n) :: rest =>
    (Cfg.pos input (name.text ++ (n.text ++ (Node.moreMembersText rest ++ tail))),
      Cfg.pos input (Node.moreMembersText rest ++ tail), !keeps key (sep, name, n)) ::
        memberSpans input key tail rest

theorem fromSliceString_text (t : StringToken) : fromSliceString t.text = t.decode := by
  have hscan : scanString t.text = .ok (t, []) := scanString_iff.mpr (List.append_nil _).symm
  unfold fromSliceString
  rw [hscan]

theorem endsScalar_ws (w : Ws) {r : List Char} (hr : EndsScalar r) : EndsScalar (w.text ++ r) := by
  obtain ⟨text, blank⟩ := w
  cases text with
  | nil => exact hr
  | cons c text =>
    rintro d t ⟨⟩
    simp [endsScalar, blank c List.mem_cons_self]

theorem endsScalar_members (rest : List (Sep × Name × Node)) (trail : Ws) (r : List Char) :
    EndsScalar (Node.moreMembersText rest ++ (trail.text ++ '\x7d' :: r)) := by
  cases rest with
  | nil =>
    refine endsScalar_ws trail ?_
    rintro d t ⟨⟩
    rfl
  | cons m rest =>
    rw [Node.moreMembersText, List.append_assoc, Sep.text, List.append_assoc]
    refine endsScalar_ws m.1.before ?_
    rintro d t ⟨⟩
    rfl

/-- What the loop goes on with behind a value. -/
def afterMember (stop : List Char) : List Char :=
  if (skipWs stop).head? = some ',' then (skipWs stop).tail else skipWs stop

theorem scanMembers_member {name : Name} {k : String} (hk : name.key.decode = some k) (w : Ws)
    (sep : Sep) (n : Node) {stop : List Char} (hstop : EndsScalar stop) (fuel : Nat) :
    scanMembers input key (fuel + 1) (w.text ++ (name.text ++ (n.text ++ stop))) =
      (scanMembers input key fuel (afterMember stop)).map fun members => members.map
        ((Cfg.pos input (name.text ++ (n.text ++ stop)), Cfg.pos input stop,
        !keeps key (sep, name, n)) :: ·) := by
  have htext : name.text ++ (n.text ++ stop) =
      name.key.text ++
        (name.beforeColon.text ++ ':' :: (name.afterColon.text ++ (n.text ++ stop))) := by
    simp [Name.text, Name.upToColon]
  have hhere : skipWs (w.text ++ (name.text ++ (n.text ++ stop))) = name.text ++
      (n.text ++ stop) := by
    rw [htext]
    exact skipWs_ws_cons w _ (by decide : isWhitespace '\"' = false)
  have hbrace : ¬ (name.text ++ (n.text ++ stop)).head? = some '\x7d' := by
    intro h
    exact absurd (Option.some.inj h) (by decide)
  have hend : stringEnd (name.text ++ (n.text ++ stop)).tail =
      some (name.beforeColon.text ++ ':' :: (name.afterColon.text ++ (n.text ++ stop))) := by
    rw [htext]
    exact stringEnd_body name.key _
  have hraw : (name.text ++ (n.text ++ stop)).take ((name.text ++ (n.text ++ stop)).length -
      (name.beforeColon.text ++ ':' :: (name.afterColon.text ++ (n.text ++ stop))).length) =
        name.key.text := by
    rw [htext, List.length_append, Nat.add_sub_cancel, List.take_left]
  have hvalue : valueEnd (skipWs (skipWs (name.beforeColon.text ++ ':' ::
      (name.afterColon.text ++ (n.text ++ stop)))).tail) = some stop := by
    rw [skipWs_ws_cons name.beforeColon _ (by decide), List.tail_cons, skipWs_node]
    exact valueEnd_node n hstop
  have hremoved : (!keeps key (sep, name, n)) = (k == key) := by
    simp [keeps, hk, bne]
  rw [scanMembers]
  simp only [hhere, hbrace, if_false, hend, Option.bind_some, hraw, fromSliceString_text, hk,
    hvalue, hremoved]
  rfl

theorem scanMembers_members {rest : List (Sep × Name × Node)} (trail : Ws) (r : List Char) :
    ∀ {name : Name} {k : String} (w : Ws) (sep : Sep) (n : Node) {fuel : Nat},
      name.key.decode = some k → (∀ m ∈ rest, ∃ k, m.2.1.key.decode = some k) →
      rest.length + 1 < fuel → scanMembers input key fuel
          (w.text ++
            (name.text ++ (n.text ++ (Node.moreMembersText rest ++ (trail.text ++ '\x7d' :: r))))) =
        some
          (.ok (memberSpans input key (trail.text ++ '\x7d' :: r) ((sep, name, n) :: rest))) := by
  induction rest with
  | nil =>
    intro name k w sep n fuel hk _ hfuel
    obtain ⟨fuel, rfl⟩ : ∃ f, fuel = f + 1 + 1 :=
      ⟨fuel - 2, by simp only [List.length_nil] at hfuel; omega⟩
    have hafter : afterMember (trail.text ++ '\x7d' :: r) = '\x7d' :: r := by
      simp [afterMember, skipWs_ws_cons trail r (by decide : isWhitespace '\x7d' = false)]
    have hlast : scanMembers input key (fuel + 1) ('\x7d' :: r) = some (.ok []) := by
      rw [scanMembers]
      exact if_pos rfl
    have hstop := endsScalar_members [] trail r
    rw [Node.moreMembersText, List.nil_append] at hstop ⊢
    rw [scanMembers_member hk w sep n hstop, hafter, hlast]
    rfl
  | cons m rest ih =>
    intro name k w sep n fuel hk hall hfuel
    obtain ⟨fuel, rfl⟩ : ∃ f, fuel = f + 1 := ⟨fuel - 1, by omega⟩
    obtain ⟨sep', name', n'⟩ := m
    obtain ⟨⟨k', hk'⟩, hall⟩ := List.forall_mem_cons.mp hall
    have hafter :
        afterMember (Node.moreMembersText ((sep', name', n') :: rest) ++
        (trail.text ++ '\x7d' :: r)) =
        sep'.after.text ++
          (name'.text ++
          (n'.text ++ (Node.moreMembersText rest ++ (trail.text ++ '\x7d' :: r)))) := by
      have hskip :
          skipWs (Node.moreMembersText ((sep', name', n') :: rest) ++ (trail.text ++ '\x7d' :: r)) =
          ',' :: (sep'.after.text ++
            (name'.text ++
              (n'.text ++ (Node.moreMembersText rest ++ (trail.text ++ '\x7d' :: r))))) := by
        rw [moreMembersText_append, Sep.text, List.append_assoc, List.cons_append,
          skipWs_ws_cons sep'.before _ (by decide)]
        simp [Name.text]
      simp [afterMember, hskip]
    rw [scanMembers_member hk w sep n (endsScalar_members _ trail r), hafter,
      ih sep'.after sep' n' hk' hall (by rw [List.length_cons] at hfuel; omega)]
    rfl

/-! ### What stays -/

section Kept

variable {tail : List Char}

theorem pos_eq {t x : List Char} (h : input = t ++ x) :
    Cfg.pos input x = t.length := by simp [Cfg.pos, h]

theorem slice_between {t u x : List Char} (h : input = t ++ (u ++ x)) :
    slice input (Cfg.pos input (u ++ x)) (Cfg.pos input x) = u := by
  have hstop : Cfg.pos input x = t.length + u.length := by
    rw [pos_eq (t := t ++ u) (by rw [h, List.append_assoc]), List.length_append]
  rw [slice, hstop, pos_eq h, h, List.drop_left, Nat.add_sub_cancel_left, List.take_left]

theorem slice_member {t x : List Char} {name : Name} {n : Node}
    (h : input = t ++ (name.text ++ (n.text ++ x))) :
    slice input (Cfg.pos input (name.text ++ (n.text ++ x))) (Cfg.pos input x) =
      name.text ++ n.text := by
  rw [← List.append_assoc name.text] at h ⊢
  exact slice_between h

theorem keptText_true {ms : List (Sep × Name × Node)} :
    ∀ {t : List Char}, input = t ++ (Node.moreMembersText ms ++ tail) →
      keptText input (Cfg.pos input (Node.moreMembersText ms ++ tail)) true
        (memberSpans input key tail ms) = Node.moreMembersText (ms.filter (keeps key)) := by
  induction ms with
  | nil => exact fun _ => rfl
  | cons m rest ih =>
    obtain ⟨sep, name, n⟩ := m
    intro t h
    have htext : Node.moreMembersText ((sep, name, n) :: rest) ++ tail =
        sep.text ++ (name.text ++ (n.text ++ (Node.moreMembersText rest ++ tail))) := by
      simp [Node.moreMembersText]
    rw [htext] at h ⊢
    have hrest := ih (t := t ++ (sep.text ++ (name.text ++ n.text))) (by simpa using h)
    have hsep := slice_between h
    have hmember := slice_member (t := t ++ sep.text) (h.trans (List.append_assoc ..).symm)
    rw [memberSpans, keptText]
    cases hkeeps : keeps key (sep, name, n) with
    | true =>
      rw [List.filter_cons_of_pos hkeeps, Bool.not_true, if_neg (by decide), if_pos rfl,
        hsep, hmember, hrest, Node.moreMembersText]
      simp
    | false =>
      rw [List.filter_cons_of_neg (by simp [hkeeps]), Bool.not_false, if_pos rfl]
      exact hrest

/-- The members with no separator in front of the first. -/
def firstText : List (Sep × Name × Node) → List Char
  | [] => []
  | (_, name, n) :: rest => name.text ++ (n.text ++ Node.moreMembersText rest)

theorem keptText_false {rest : List (Sep × Name × Node)} :
    ∀ {sep : Sep} {name : Name} {n : Node} {t : List Char} {before : Nat},
      input = t ++ (name.text ++ (n.text ++ (Node.moreMembersText rest ++ tail))) →
      keptText input before false (memberSpans input key tail ((sep, name, n) :: rest)) =
        firstText (((sep, name, n) :: rest).filter (keeps key)) := by
  induction rest with
  | nil =>
    intro sep name n t before h
    rw [memberSpans, keptText, slice_member h]
    cases hkeeps : keeps key (sep, name, n) with
    | true =>
      rw [List.filter_cons_of_pos hkeeps]
      simp [memberSpans, keptText, firstText, Node.moreMembersText]
    | false =>
      rw [List.filter_cons_of_neg (by simp [hkeeps])]
      rfl
  | cons m rest ih =>
    obtain ⟨sep', name', n'⟩ := m
    intro sep name n t before h
    rw [memberSpans, keptText, slice_member h]
    cases hkeeps : keeps key (sep, name, n) with
    | true =>
      have hinput :
          input = (t ++ (name.text ++ n.text)) ++
          (Node.moreMembersText ((sep', name', n') :: rest) ++ tail) := by
        rw [h]
        simp
      rw [List.filter_cons_of_pos hkeeps, Bool.not_true, if_neg (by decide), keptText_true hinput]
      simp [firstText]
    | false =>
      have htext : Node.moreMembersText ((sep', name', n') :: rest) ++ tail =
          sep'.text ++ (name'.text ++ (n'.text ++ (Node.moreMembersText rest ++ tail))) := by
        simp [Node.moreMembersText]
      rw [List.filter_cons_of_neg (by simp [hkeeps]), Bool.not_false, if_pos rfl]
      exact ih (t := t ++ (name.text ++ (n.text ++ sep'.text))) (h.trans (by rw [htext]; simp))

theorem getLast?_memberSpans (input : List Char) (key : String) (tail : List Char)
    (rest : List (Sep × Name × Node)) : ∀ m : Sep × Name × Node,
    ∃ span, (memberSpans input key tail (m :: rest)).getLast? = some span ∧
      span.2.1 = Cfg.pos input tail := by
  induction rest with
  | nil => exact fun m => ⟨_, rfl, rfl⟩
  | cons m' rest ih =>
    intro m
    obtain ⟨span, hspan, hstop⟩ := ih m'
    exact ⟨span, (List.getLast?_cons_cons ..).trans hspan, hstop⟩

theorem any_memberSpans (ms : List (Sep × Name × Node)) :
    (memberSpans input key tail ms).any (·.2.2) = ms.any fun m => !keeps key m := by
  induction ms with
  | nil => rfl
  | cons m rest ih =>
    rw [memberSpans, List.any_cons, ih, List.any_cons]

end Kept

/-! ### Whole texts -/

theorem names_decode {σ : Type} {v : Visitor σ} {path : List PathSeg}
    {rest : List (Sep × Name × Node)} :
    ∀ {s : σ} {res : Rewritten (List (Sep × Name × Node)) σ},
      rewriteMembers v path rest s = some res → ∀ m ∈ rest, ∃ k, m.2.1.key.decode = some k := by
  induction rest with
  | nil => intro _ _ _ m hm; cases hm
  | cons m rest ih =>
    obtain ⟨sep, name, n⟩ := m
    intro s res h
    obtain ⟨k, a, b, hk, -, hb, -⟩ := of_rewriteMembers_cons h
    exact List.forall_mem_cons.mpr ⟨⟨k, hk⟩, ih hb⟩

theorem length_le_moreMembersText (rest : List (Sep × Name × Node)) :
    rest.length ≤ (Node.moreMembersText rest).length := by
  induction rest with
  | nil => exact Nat.zero_le _
  | cons m rest ih =>
    obtain ⟨sep, name, n⟩ := m
    simp only [Node.moreMembersText, Sep.text, List.length_append, List.length_cons]
    omega

theorem withoutRemoved_memberSpans {lead trail : Ws} {name : Name} {first : Node}
    {rest : List (Sep × Name × Node)} {front behind : List Char} (sep : Sep)
    (h : input = front ++ ((Node.object lead name first rest trail).text ++ behind)) :
    withoutRemoved input
      (memberSpans input key (trail.text ++ '\x7d' :: behind) ((sep, name, first) :: rest)) =
      (removeMember key (.object lead name first rest trail)).map fun n => front ++
      (n.text ++ behind) := by
  rw [text_object_append] at h
  have hname : input = (front ++ '\x7b' :: lead.text) ++
      (name.text ++
        (first.text ++ (Node.moreMembersText rest ++ (trail.text ++ '\x7d' :: behind)))) := by
    rw [h]
    simp [Name.text]
  have htail :
      input =
      (front ++ '\x7b' :: lead.text ++ (name.text ++ (first.text ++ Node.moreMembersText rest))) ++
      (trail.text ++ '\x7d' :: behind) := by
    rw [hname]
    simp
  have hmembers :
      withoutRemoved input
      (memberSpans input key (trail.text ++ '\x7d' :: behind) ((sep, name, first) :: rest)) =
      if (((sep, name, first) :: rest).any fun m => !keeps key m) then
        some (front ++ '\x7b' :: lead.text ++
          (firstText (((sep, name, first) :: rest).filter (keeps key)) ++
            (trail.text ++ '\x7d' :: behind)))
      else none := by
    have htake :
        input.take (Cfg.pos input (name.text ++ (first.text ++ (Node.moreMembersText rest ++
        (trail.text ++ '\x7d' :: behind))))) = front ++ '\x7b' :: lead.text := by
      rw [pos_eq hname]
      exact (congrArg (List.take _) hname).trans List.take_left
    have hdrop : input.drop (Cfg.pos input (trail.text ++ '\x7d' :: behind)) = trail.text ++
        '\x7d' :: behind := by
      rw [pos_eq htail]
      exact (congrArg (List.drop _) htail).trans List.drop_left
    obtain ⟨last, hlast, hstop⟩ :=
      getLast?_memberSpans input key (trail.text ++ '\x7d' :: behind) rest
      (sep, name, first)
    have hhead :
        (memberSpans input key (trail.text ++ '\x7d' :: behind)
          ((sep, name, first) :: rest)).head? =
      some (_, _, _) := rfl
    unfold withoutRemoved
    rw [any_memberSpans, keptText_false hname, hlast, hhead]
    simp only [hstop, htake, hdrop]
  rw [hmembers]
  unfold removeMember
  dsimp only
  by_cases hname : name.key.decode = some key
  · have hkeeps : keeps key (sep, name, first) = false := by simp [keeps, hname]
    rw [if_pos hname, List.any_cons, hkeeps, Bool.not_false, Bool.true_or, if_pos rfl,
      List.filter_cons_of_neg (by simp [hkeeps])]
    cases rest.filter (keeps key) with
    | nil => simp [firstText, Node.text]
    | cons m more =>
      obtain ⟨sep', name', n'⟩ := m
      simp [firstText, text_object_append, Name.text]
  · have hkeeps : keeps key (sep, name, first) = true := by simp [keeps, hname]
    have hany : (rest.any fun m => !keeps key m) = !rest.all (keeps key) := by
      rw [List.not_all_eq_any_not]
    rw [if_neg hname, List.any_cons, hkeeps, Bool.not_true, Bool.false_or, hany,
      List.filter_cons_of_pos hkeeps]
    cases rest.all (keeps key) with
    | true => rfl
    | false => simp [firstText, text_object_append, Name.text]

theorem removeMember_of_not_object {n : Node}
    (h : ∀ lead name first rest trail, n ≠ .object lead name first rest trail) :
    removeMember key n = none := by
  cases n with
  | object lead name first rest trail => exact absurd rfl (h lead name first rest trail)
  | scalar t => rfl
  | string t => rfl
  | emptyArray ws => rfl
  | array lead first rest trail => rfl
  | emptyObject ws => rfl

theorem head?_of_not_object {n : Node} (r : List Char) (hempty : ∀ ws, n ≠ .emptyObject ws)
    (h : ∀ lead name first rest trail, n ≠ .object lead name first rest trail) :
    (n.text ++ r).head? ≠ some '\x7b' := by
  cases n with
  | object lead name first rest trail => exact absurd rfl (h lead name first rest trail)
  | emptyObject ws => exact absurd rfl (hempty ws)
  | scalar t =>
    obtain ⟨c, l, hcl, hlead⟩ := exists_scalarLead t
    rw [Node.text, hcl]
    intro hc
    obtain rfl := Option.some.inj hc
    exact not_scalarLead (by decide) hlead
  | string t => exact fun hc => absurd (Option.some.inj hc) (by decide)
  | emptyArray ws => exact fun hc => absurd (Option.some.inj hc) (by decide)
  | array lead first rest trail =>
    rw [text_array_append]
    exact fun hc => absurd (Option.some.inj hc) (by decide)

/-- Every member name of the document stands for a text, and it is not too deep. -/
def Valid (d : Document) : Prop := ∃ res, Fits idle d () res

theorem validateJson_eq_ok_iff {bytes : Bytes} :
    validateJson bytes = .ok () ↔ ∃ d : Document, bytes = Utf8.bytes (String.ofList d.text) ∧
      Valid d := by
  unfold validateJson
  constructor
  · intro h
    cases hrewrite : rewriteStringValues idle bytes () with
    | error e =>
      rw [hrewrite] at h
      cases h
    | ok out =>
      obtain ⟨d, res, hbytes, hfits, -⟩ := rewriteStringValues_eq_ok_iff.mp hrewrite
      exact ⟨d, hbytes, res, hfits⟩
  · rintro ⟨d, hbytes, res, hfits⟩
    rw [rewriteStringValues_eq_ok_iff.mpr ⟨d, res, hbytes, hfits, rfl⟩]
    rfl

theorem removeTopLevelMember_of_valid {d : Document} (hvalid : Valid d) :
    removeTopLevelMember (Utf8.bytes (String.ofList d.text)) key =
      some (.ok ((removeMember key d.root).map fun n =>
        Utf8.bytes (String.ofList (withRoot d n).text))) := by
  have hok := validateJson_eq_ok_iff.mpr ⟨d, rfl, hvalid⟩
  obtain ⟨res, hdepth, hrewrite⟩ := hvalid
  unfold removeTopLevelMember
  rw [hok, Utf8.decode?_bytes]
  simp only [String.toList_ofList]
  have hhere : skipWs d.text = d.root.text ++ d.trail.text := skipWs_node d.lead d.root d.trail.text
  rw [hhere]
  by_cases hobject : ∃ lead name first rest trail, d.root = .object lead name first rest trail
  · obtain ⟨lead, name, first, rest, trail, hroot⟩ := hobject
    rw [hroot] at hrewrite ⊢
    obtain ⟨k, a, b, hk, -, hb, -⟩ := of_rewrite_object hrewrite
    have hfuel : rest.length + 1 < d.text.length + 1 := by
      have hle := length_le_moreMembersText rest
      rw [Document.text, hroot]
      simp only [Node.text, List.length_append, List.length_cons]
      omega
    have htail : ((Node.object lead name first rest trail).text ++ d.trail.text).tail =
        lead.text ++
          (name.text ++
          (first.text ++
          (Node.moreMembersText rest ++ (trail.text ++ '\x7d' :: d.trail.text)))) := by
      rw [text_object_append]
      simp [Name.text]
    have hhead : ((Node.object lead name first rest trail).text ++ d.trail.text).head? =
        some '\x7b' := by
      rw [text_object_append]
      rfl
    have htext :
        d.text = d.lead.text ++
        ((Node.object lead name first rest trail).text ++ d.trail.text) := by
      rw [Document.text, hroot]
    rw [if_pos hhead, htail, scanMembers_members trail _ lead ⟨.empty, .empty⟩ first hk
      (names_decode hb) hfuel, Option.map_some]
    dsimp only
    rw [withoutRemoved_memberSpans _ htext, Option.map_map]
    rfl
  · have hnot : ∀ lead name first rest trail, d.root ≠ .object lead name first rest trail := by
      intro lead name first rest trail hroot
      exact hobject ⟨lead, name, first, rest, trail, hroot⟩
    rw [removeMember_of_not_object hnot, Option.map_none]
    by_cases hempty : ∃ ws, d.root = .emptyObject ws
    · obtain ⟨ws, hroot⟩ := hempty
      have htail : ((Node.emptyObject ws).text ++ d.trail.text).tail = ws.text ++ '\x7d' ::
          d.trail.text := by
        simp [Node.text]
      have hclose : skipWs (ws.text ++ '\x7d' :: d.trail.text) = '\x7d' :: d.trail.text :=
        skipWs_ws_cons ws _ (by decide)
      rw [hroot, htail, scanMembers, hclose]
      rfl
    · have hnot' : ∀ ws, d.root ≠ .emptyObject ws := by
        intro ws hroot
        exact hempty ⟨ws, hroot⟩
      rw [if_neg (head?_of_not_object _ hnot' hnot)]

theorem removeTopLevelMember_eq_ok_iff {bytes : Bytes} {out : Option Bytes} :
    removeTopLevelMember bytes key = some (.ok out) ↔ ∃ d : Document,
      bytes = Utf8.bytes (String.ofList d.text) ∧ Valid d ∧
      out = (removeMember key d.root).map fun n => Utf8.bytes
        (String.ofList (withRoot d n).text) := by
  constructor
  · intro h
    cases hvalid : validateJson bytes with
    | error e =>
      unfold removeTopLevelMember at h
      rw [hvalid] at h
      cases h
    | ok _ =>
      obtain ⟨d, rfl, hd⟩ := validateJson_eq_ok_iff.mp hvalid
      rw [removeTopLevelMember_of_valid hd] at h
      exact ⟨d, rfl, hd, (Except.ok.inj (Option.some.inj h)).symm⟩
  · rintro ⟨d, rfl, hd, rfl⟩
    exact removeTopLevelMember_of_valid hd

theorem removeTopLevelMember_ne_none (bytes : Bytes) : removeTopLevelMember bytes key ≠ none := by
  cases hvalid : validateJson bytes with
  | error e =>
    unfold removeTopLevelMember
    rw [hvalid]
    exact Option.some_ne_none _
  | ok _ =>
    obtain ⟨d, rfl, hd⟩ := validateJson_eq_ok_iff.mp hvalid
    rw [removeTopLevelMember_of_valid hd]
    exact Option.some_ne_none _

end JsonSplice
end Aisix
