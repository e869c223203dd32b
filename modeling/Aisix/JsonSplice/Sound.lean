import Aisix.JsonSplice.Accepted

/-!
# Aisix.JsonSplice.Sound

What the scanner gets through is a document that it can rewrite.

* `ValueTurn` — what stood where a value starts, when the scanner went on from there.
* `exists_node_of_accepts` — by induction on the text that is left: a value, the items behind one,
  the members behind one.
* `rewriteStringValues_eq_ok_iff` — the answer for a whole text.
-/

namespace Aisix
namespace JsonSplice

open Json Json.Syntax

variable {σ : Type} {v : Visitor σ} {input : List Char}

section Turns

variable {path : List PathSeg} {frames : List Frame} {splices : List ((Nat × Nat) × String)} {s : σ}
    {rest : List Char} {turn : Turn σ}

inductive ValueTurn (v : Visitor σ) (path : List PathSeg) (frames : List Frame) (s : σ) :
    List Char → Cfg σ → Prop where
  | whole (w : Ws) (n : Node) (r : List Char) (res : Rewritten Node σ) (c : Cfg σ)
      (hend : EndsBefore n r) (hroom : frames.length + n.depth ≤ MAX_JSON_DEPTH)
      (h : rewrite v path n s = some res) : ValueTurn v path frames s (w.text ++ (n.text ++ r)) c
  | array (w lead : Ws) (r : List Char) (splices : List ((Nat × Nat) × String))
      (hroom : frames.length + 1 ≤ MAX_JSON_DEPTH) :
      ValueTurn v path frames s (w.text ++ '[' :: (lead.text ++ r))
        ⟨.value, r, .index 0 :: path, .array :: frames, splices, s⟩
  | object (w lead : Ws) (name : Name) (key : String) (r : List Char)
      (splices : List ((Nat × Nat) × String)) (hroom : frames.length + 1 ≤ MAX_JSON_DEPTH)
      (hkey : name.key.decode = some key) :
      ValueTurn v path frames s (w.text ++ '\x7b' :: (lead.text ++ (name.upToColon ++ r)))
        ⟨.value, r, .key key :: path, .object :: frames, splices, s⟩

theorem valueTurn_of_openArray {w : Ws} {here r : List Char}
    (h : Cfg.openArray ⟨.value, rest, path, frames, splices, s⟩ here r = .ok turn) :
    ∃ c', turn = .next c' ∧ ValueTurn v path frames s (w.text ++ '[' :: r) c' := by
  unfold Cfg.openArray at h
  split at h
  · cases h
  · next hlimit =>
    have hroom : frames.length + 1 ≤ MAX_JSON_DEPTH := Nat.not_lt.mp hlimit
    have hsplit := wsOf_append_skipWs r
    dsimp only at h
    split at h
    · next hclose =>
      rw [List.eq_cons_of_mem_head? hclose] at hsplit
      have htext : '[' :: r = (Node.emptyArray (wsOf r)).text ++ (skipWs r).tail := by
        simp [Node.text, hsplit]
      refine ⟨_, (Except.ok.inj h).symm, ?_⟩
      rw [htext]
      exact .whole w _ _ ⟨.emptyArray (wsOf r), false, s⟩ _ trivial hroom (by rw [rewrite])
    · have harray : ValueTurn v path frames s (w.text ++ '[' :: ((wsOf r).text ++ skipWs r)) _ :=
        .array w (wsOf r) (skipWs r) splices hroom
      rw [hsplit] at harray
      exact ⟨_, (Except.ok.inj h).symm, harray⟩

theorem valueTurn_of_openObject {w : Ws} {here r : List Char}
    (h : Cfg.openObject ⟨.value, rest, path, frames, splices, s⟩ here r = .ok turn) :
    ∃ c', turn = .next c' ∧ ValueTurn v path frames s (w.text ++ '\x7b' :: r) c' := by
  unfold Cfg.openObject at h
  split at h
  · cases h
  · next hlimit =>
    have hroom : frames.length + 1 ≤ MAX_JSON_DEPTH := Nat.not_lt.mp hlimit
    have hsplit := wsOf_append_skipWs r
    dsimp only at h
    split at h
    · next hclose =>
      rw [List.eq_cons_of_mem_head? hclose] at hsplit
      have htext : '\x7b' :: r = (Node.emptyObject (wsOf r)).text ++ (skipWs r).tail := by
        simp [Node.text, hsplit]
      refine ⟨_, (Except.ok.inj h).symm, ?_⟩
      rw [htext]
      exact .whole w _ _ ⟨.emptyObject (wsOf r), false, s⟩ _ trivial hroom (by rw [rewrite])
    · cases hname : scanName (skipWs r) with
      | error e =>
        rw [hname] at h
        cases h
      | ok scanned =>
        obtain ⟨key, r'⟩ := scanned
        rw [hname] at h
        obtain ⟨name, -, hkey, hr⟩ := of_scanName hname
        rw [hr] at hsplit
        refine ⟨_, (Except.ok.inj h).symm, ?_⟩
        rw [← hsplit]
        exact .object w (wsOf r) name key r' splices hroom hkey

theorem valueTurn_of_scanValue {w : Ws} {r : List Char}
    (h : Cfg.scanValue v input ⟨.value, rest, path, frames, splices, s⟩ ('\"' :: r) = .ok turn)
    (hroom : frames.length ≤ MAX_JSON_DEPTH) :
    ∃ c', turn = .next c' ∧ ValueTurn v path frames s (w.text ++ '\"' :: r) c' := by
  unfold Cfg.scanValue at h
  cases hstring : scanString ('\"' :: r) with
  | error e =>
    rw [hstring] at h
    cases h
  | ok scanned =>
    obtain ⟨token, r'⟩ := scanned
    rw [hstring] at h
    simp only [bind, Except.bind] at h
    have hwhole : (∃ res, rewriteString v path token s = some res) →
        ∀ c', ValueTurn v path frames s (w.text ++ '\"' :: r) c' := by
      rintro ⟨res, hres⟩ c'
      rw [scanString_iff.mp hstring]
      exact .whole w (.string token) r' res c' trivial hroom (by rw [rewrite, hres])
    unfold rewriteString at hwhole
    dsimp only at hwhole
    split at h
    · next hpicked =>
      rw [if_pos hpicked] at hwhole
      cases hdecode : token.decode with
      | none =>
        rw [decodeStr, hdecode] at h
        cases h
      | some decoded =>
        rw [decodeStr, hdecode] at h
        rw [hdecode] at hwhole
        dsimp only at h
        split at h
        · exact ⟨_, (Except.ok.inj h).symm, hwhole ⟨_, rfl⟩ _⟩
        · exact ⟨_, (Except.ok.inj h).symm, hwhole ⟨_, rfl⟩ _⟩
    · next hpicked =>
      rw [if_neg hpicked] at hwhole
      exact ⟨_, (Except.ok.inj h).symm, hwhole ⟨_, rfl⟩ _⟩

theorem valueTurn_of_scanScalar {w : Ws} {here : List Char}
    (h : Cfg.scanScalar ⟨.value, rest, path, frames, splices, s⟩ here = .ok turn)
    (hroom : frames.length ≤ MAX_JSON_DEPTH) :
    ∃ c', turn = .next c' ∧ ValueTurn v path frames s (w.text ++ here) c' := by
  unfold Cfg.scanScalar at h
  split at h
  · next hscalar =>
    obtain ⟨t, ht⟩ := isScalar_iff.mp hscalar
    have htext : here = (Node.scalar t).text ++ here.dropWhile isTokenChar := by
      rw [Node.text, ht, List.takeWhile_append_dropWhile]
    refine ⟨_, (Except.ok.inj h).symm, ?_⟩
    rw [htext]
    exact .whole w _ _ ⟨.scalar t, false, s⟩ _ (fun c l hcl => stop_dropWhile hcl) hroom
      (by rw [rewrite])
  · cases h

theorem valueTurn_of_step (h : Cfg.step v input ⟨.value, rest, path, frames, splices, s⟩ = .ok turn)
    (hroom : frames.length ≤ MAX_JSON_DEPTH) :
    ∃ c', turn = .next c' ∧ ValueTurn v path frames s rest c' := by
  have hsplit := wsOf_append_skipWs rest
  simp only [Cfg.step, Cfg.valueStep] at h
  split at h
  · cases h
  · next b r hskip =>
    rw [hskip] at hsplit
    rw [← hsplit]
    split at h
    · next hb =>
      subst hb
      exact valueTurn_of_openObject h
    · split at h
      · next hb =>
        subst hb
        exact valueTurn_of_openArray h
      · split at h
        · next hb =>
          subst hb
          exact valueTurn_of_scanValue h hroom
        · split at h
          · exact valueTurn_of_scanScalar h hroom
          · cases h

theorem arrayTurn_of_step {i : Nat}
    (h : Cfg.step v input ⟨.after, rest, .index i :: path, .array :: frames, splices, s⟩ =
      .ok turn) :
    ∃ (w : Ws) (r : List Char),
      (rest = w.text ++ ',' :: r ∧
        turn = .next ⟨.value, r, .index (i + 1) :: path, .array :: frames, splices, s⟩) ∨
      (rest = w.text ++ ']' :: r ∧ turn = .next ⟨.after, r, path, frames, splices, s⟩) := by
  have hsplit := wsOf_append_skipWs rest
  refine ⟨wsOf rest, (skipWs rest).tail, ?_⟩
  simp only [Cfg.step, Cfg.afterStep] at h
  split at h
  · next hcomma =>
    rw [List.eq_cons_of_mem_head? hcomma] at hsplit
    exact .inl ⟨hsplit.symm, (Except.ok.inj h).symm⟩
  · split at h
    · next hclose =>
      rw [List.eq_cons_of_mem_head? hclose] at hsplit
      exact .inr ⟨hsplit.symm, (Except.ok.inj h).symm⟩
    · cases h

theorem objectTurn_of_step {seg : PathSeg}
    (h : Cfg.step v input ⟨.after, rest, seg :: path, .object :: frames, splices, s⟩ = .ok turn) :
    (∃ (sep : Sep) (name : Name) (key : String) (r : List Char), name.key.decode = some key ∧
      rest = sep.text ++ (name.upToColon ++ r) ∧
      turn = .next ⟨.value, r, .key key :: path, .object :: frames, splices, s⟩) ∨
    ∃ (w : Ws) (r : List Char), rest = w.text ++ '\x7d' :: r ∧
      turn = .next ⟨.after, r, path, frames, splices, s⟩ := by
  have hsplit := wsOf_append_skipWs rest
  simp only [Cfg.step, Cfg.afterStep] at h
  split at h
  · next hcomma =>
    rw [List.eq_cons_of_mem_head? hcomma] at hsplit
    cases hname : scanName (skipWs (skipWs rest).tail) with
    | error e =>
      rw [hname] at h
      cases h
    | ok scanned =>
      obtain ⟨key, r⟩ := scanned
      rw [hname] at h
      obtain ⟨name, -, hkey, hr⟩ := of_scanName hname
      refine .inl ⟨⟨wsOf rest, wsOf (skipWs rest).tail⟩, name, key, r, hkey, ?_,
        (Except.ok.inj h).symm⟩
      have hafter := wsOf_append_skipWs (skipWs rest).tail
      rw [hr] at hafter
      rw [Sep.text, List.append_assoc, List.cons_append, hafter, hsplit]
  · split at h
    · next hclose =>
      rw [List.eq_cons_of_mem_head? hclose] at hsplit
      exact .inr ⟨_, _, hsplit.symm, (Except.ok.inj h).symm⟩
    · cases h

end Turns

/-! ### Every turn takes something -/

theorem length_skipWs_le (l : List Char) : (skipWs l).length ≤ l.length :=
  (List.dropWhile_sublist _).length_le

theorem length_scanName {l r : List Char} {key : String} (h : scanName l = .ok (key, r)) :
    r.length < l.length := by
  obtain ⟨name, -, -, rfl⟩ := of_scanName h
  simp [Name.upToColon, StringToken.text]
  omega

theorem length_scanString {l r : List Char} {token : StringToken}
    (h : scanString ('\"' :: l) = .ok (token, r)) : r.length ≤ l.length := by
  have hlength := congrArg List.length (scanString_iff.mp h)
  simp only [StringToken.text, List.length_cons, List.length_append] at hlength
  omega

theorem length_openObject {c c' : Cfg σ} {here r : List Char}
    (h : c.openObject here r = .ok (.next c')) : c'.rest.length ≤ r.length := by
  have hle := length_skipWs_le r
  unfold Cfg.openObject at h
  split at h
  · cases h
  · dsimp only at h
    split at h
    · cases h
      rw [List.length_tail]
      exact (Nat.sub_le _ _).trans hle
    · cases hname : scanName (skipWs r) with
      | error e =>
        rw [hname] at h
        cases h
      | ok scanned =>
        have hlt :=
          length_scanName (show scanName (skipWs r) = .ok (scanned.1, scanned.2) from hname)
        rw [hname] at h
        cases h
        exact (Nat.le_of_lt hlt).trans hle

theorem length_openArray {c c' : Cfg σ} {here r : List Char}
    (h : c.openArray here r = .ok (.next c')) : c'.rest.length ≤ r.length := by
  have hle := length_skipWs_le r
  unfold Cfg.openArray at h
  split at h
  · cases h
  · dsimp only at h
    split at h
    · cases h
      rw [List.length_tail]
      exact (Nat.sub_le _ _).trans hle
    · cases h
      exact hle

theorem length_scanValue {c c' : Cfg σ} {r : List Char}
    (h : c.scanValue v input ('\"' :: r) = .ok (.next c')) : c'.rest.length ≤ r.length := by
  unfold Cfg.scanValue at h
  cases hstring : scanString ('\"' :: r) with
  | error e =>
    rw [hstring] at h
    cases h
  | ok scanned =>
    have hle :=
      length_scanString (show scanString ('\"' :: r) = .ok (scanned.1, scanned.2) from hstring)
    rw [hstring] at h
    simp only [bind, Except.bind] at h
    split at h
    · split at h
      · cases h
      · split at h
        · cases h
          exact hle
        · cases h
          exact hle
    · cases h
      exact hle

theorem length_valueStep {c c' : Cfg σ} (h : c.valueStep v input = .ok (.next c')) :
    c'.rest.length < c.rest.length := by
  have hle := length_skipWs_le c.rest
  unfold Cfg.valueStep at h
  split at h
  · cases h
  · next b r hskip =>
    rw [hskip, List.length_cons] at hle
    refine Nat.lt_of_lt_of_le (Nat.lt_succ_of_le ?_) hle
    split at h
    · exact length_openObject h
    · split at h
      · exact length_openArray h
      · split at h
        · next hquote =>
          subst hquote
          exact length_scanValue h
        · split at h
          · next hlead =>
            have htoken : isTokenChar b = true := by
              rcases hlead with rfl | hdigit | rfl | rfl | rfl
              · decide
              · exact isTokenChar_of_isDigit hdigit
              · decide
              · decide
              · decide
            unfold Cfg.scanScalar at h
            split at h
            · cases h
              rw [List.dropWhile_cons_of_pos htoken]
              exact (List.dropWhile_sublist _).length_le
            · cases h
          · cases h

theorem length_tail_skipWs {l : List Char} {c : Char} (h : (skipWs l).head? = some c) :
    (skipWs l).tail.length < l.length := by
  have hle := length_skipWs_le l
  rw [List.eq_cons_of_mem_head? h, List.length_cons] at hle
  exact hle

theorem length_afterStep {c c' : Cfg σ} (h : c.afterStep = .ok (.next c')) :
    c'.rest.length < c.rest.length := by
  unfold Cfg.afterStep at h
  dsimp only at h
  split at h
  · split at h <;> cases h
  · split at h
    · next hcomma =>
      cases hname : scanName (skipWs (skipWs c.rest).tail) with
      | error e =>
        rw [hname] at h
        cases h
      | ok scanned =>
        have hlt := length_scanName (show scanName _ = .ok (scanned.1, scanned.2) from hname)
        rw [hname] at h
        cases h
        exact (hlt.trans_le (length_skipWs_le _)).trans (length_tail_skipWs hcomma)
    · split at h
      · next hclose =>
        cases h
        exact length_tail_skipWs hclose
      · cases h
  · split at h
    · next hcomma =>
      split at h
      · cases h
        exact length_tail_skipWs hcomma
      · cases h
    · split at h
      · next hclose =>
        cases h
        exact length_tail_skipWs hclose
      · cases h

theorem length_step {c c' : Cfg σ} (h : c.step v input = .ok (.next c')) :
    c'.rest.length < c.rest.length := by
  unfold Cfg.step at h
  split at h
  · exact length_valueStep h
  · exact length_afterStep h

theorem run_eq_ok_iff {c c' : Cfg σ} {fuel : Nat} (hfuel : c.rest.length < fuel) :
    Cfg.run v input fuel c = .ok c' ↔ Steps v input c c' ∧ c'.step v input = .ok .done := by
  induction fuel generalizing c with
  | zero => exact absurd hfuel (Nat.not_lt_zero _)
  | succ fuel ih =>
    rw [Cfg.run]
    cases hstep : c.step v input with
    | error e =>
      constructor
      · intro h
        cases h
      · rintro ⟨hsteps, hdone⟩
        cases hsteps with
        | refl => rw [hstep] at hdone; cases hdone
        | cons hnext _ => rw [hstep] at hnext; cases hnext
    | ok turn =>
      cases turn with
      | done =>
        constructor
        · intro h
          cases h
          exact ⟨.refl, hstep⟩
        · rintro ⟨hsteps, hdone⟩
          cases hsteps with
          | refl => rfl
          | cons hnext _ => rw [hstep] at hnext; cases hnext
      | next c'' =>
        have hlt := length_step hstep
        dsimp only
        rw [ih (by omega)]
        constructor
        · rintro ⟨hsteps, hdone⟩
          exact ⟨.cons hstep hsteps, hdone⟩
        · rintro ⟨hsteps, hdone⟩
          cases hsteps with
          | refl => rw [hstep] at hdone; cases hdone
          | cons hnext hsteps =>
            rw [hstep] at hnext
            cases hnext
            exact ⟨hsteps, hdone⟩

/-! ### What the scanner gets through -/

/-- From `c` the scanner gets to the end. -/
def Accepts (v : Visitor σ) (input : List Char) (c : Cfg σ) : Prop :=
  ∃ c', Steps v input c c' ∧ c'.step v input = .ok .done

theorem Accepts.cases {c : Cfg σ} (h : Accepts v input c) :
    c.step v input = .ok .done ∨ ∃ c', c.step v input = .ok (.next c') ∧ Accepts v input c' := by
  obtain ⟨c', hsteps, hdone⟩ := h
  cases hsteps with
  | refl => exact .inl hdone
  | cons hstep hsteps => exact .inr ⟨_, hstep, _, hsteps, hdone⟩

theorem Accepts.of_steps {c c' : Cfg σ} (hsteps : Steps v input c c') (h : Accepts v input c) :
    Accepts v input c' := by
  induction hsteps with
  | refl => exact h
  | cons hstep _ ih =>
    rcases h.cases with hdone | ⟨c'', hnext, haccepts⟩
    · rw [hstep] at hdone
      cases hdone
    · rw [hstep] at hnext
      cases hnext
      exact ih haccepts

/-- A value starts at `rest`. -/
def SoundValue (v : Visitor σ) (input rest : List Char) : Prop :=
  ∀ path frames splices s, frames.length ≤ MAX_JSON_DEPTH →
    Accepts v input ⟨.value, rest, path, frames, splices, s⟩ →
    ∃ (w : Ws) (n : Node) (r : List Char) (res : Rewritten Node σ), rest = w.text ++ (n.text ++ r) ∧
      EndsBefore n r ∧ frames.length + n.depth ≤ MAX_JSON_DEPTH ∧ rewrite v path n s = some res

/-- An item just ended. -/
def SoundItems (v : Visitor σ) (input rest : List Char) : Prop :=
  ∀ i path frames splices s, frames.length + 1 ≤ MAX_JSON_DEPTH →
    Accepts v input ⟨.after, rest, .index i :: path, .array :: frames, splices, s⟩ →
    ∃ (items : List (Sep × Node)) (trail : Ws) (r : List Char)
      (res : Rewritten (List (Sep × Node)) σ), rest = Node.moreItemsText items ++
      (trail.text ++ ']' :: r) ∧ frames.length + 1 + Node.itemsDepth items ≤ MAX_JSON_DEPTH ∧
      rewriteItems v path (i + 1) items s = some res

/-- A member just ended. -/
def SoundMembers (v : Visitor σ) (input rest : List Char) : Prop :=
  ∀ seg path frames splices s, frames.length + 1 ≤ MAX_JSON_DEPTH →
    Accepts v input ⟨.after, rest, seg :: path, .object :: frames, splices, s⟩ →
    ∃ (members : List (Sep × Name × Node)) (trail : Ws) (r : List Char)
      (res : Rewritten (List (Sep × Name × Node)) σ),
      rest = Node.moreMembersText members ++ (trail.text ++ '\x7d' :: r) ∧
      frames.length + 1 + Node.membersDepth members ≤ MAX_JSON_DEPTH ∧
        rewriteMembers v path members s = some res

section Induction

variable {rest : List Char}

theorem soundValue_of_shorter (hvalue : ∀ r : List Char, r.length < rest.length →
    SoundValue v input r)
    (hitems : ∀ r : List Char, r.length < rest.length → SoundItems v input r)
    (hmembers : ∀ r : List Char, r.length < rest.length → SoundMembers v input r) :
    SoundValue v input rest := by
  intro path frames splices s hroom haccepts
  rcases haccepts.cases with hdone | ⟨c', hstep, hnext⟩
  · obtain ⟨c', hc', -⟩ := valueTurn_of_step hdone hroom
    cases hc'
  obtain ⟨c'', hc'', hturn⟩ := valueTurn_of_step hstep hroom
  cases hc''
  have hlt := length_step hstep
  cases hturn with
  | whole w n r res c hend hdepth h => exact ⟨w, n, r, res, rfl, hend, hdepth, h⟩
  | array w lead r splices' hopen =>
    obtain ⟨w', n, r', a, hr, hend, hdepth, ha⟩ := hvalue r hlt _ _ _ _ (by simpa using hopen) hnext
    subst hr
    obtain ⟨splices'', hpass⟩ := passes_node input w' splices' hend hdepth ha
    have hlt' : r'.length < _ := Nat.lt_of_le_of_lt (by simp; omega) hlt
    obtain ⟨items, trail, r'', b, hr', hdepth', hb⟩ :=
      hitems r' hlt' _ _ _ _ _ hopen (hnext.of_steps hpass.steps)
    subst hr'
    refine ⟨w, .array (lead.append w') n items trail, r'',
      ⟨.array (lead.append w') a.item b.item trail, a.changed || b.changed, b.state⟩, ?_,
      trivial, ?_, ?_⟩
    · simp [text_array_append]
    · rw [Node.depth]
      simp only [List.length_cons] at hdepth
      omega
    · rw [rewrite, ha, Option.bind_some, hb]
      rfl
  | object w lead name key r splices' hopen hkey =>
    obtain ⟨w', n, r', a, hr, hend, hdepth, ha⟩ := hvalue r hlt _ _ _ _ (by simpa using hopen) hnext
    subst hr
    obtain ⟨splices'', hpass⟩ := passes_node input w' splices' hend hdepth ha
    have hlt' : r'.length < _ := Nat.lt_of_le_of_lt (by simp; omega) hlt
    obtain ⟨members, trail, r'', b, hr', hdepth', hb⟩ :=
      hmembers r' hlt' _ _ _ _ _ hopen (hnext.of_steps hpass.steps)
    subst hr'
    refine ⟨w, .object lead ⟨name.key, name.beforeColon, w'⟩ n members trail, r'',
      ⟨.object lead ⟨name.key, name.beforeColon, w'⟩ a.item b.item trail, a.changed || b.changed,
        b.state⟩, ?_, trivial,
      ?_, ?_⟩
    · simp [text_object_append, Name.upToColon]
    · rw [Node.depth]
      simp only [List.length_cons] at hdepth
      omega
    · rw [rewrite, hkey, Option.bind_some, ha, Option.bind_some, hb]
      rfl

theorem soundItems_of_shorter (hvalue : ∀ r : List Char, r.length < rest.length →
    SoundValue v input r)
    (hitems : ∀ r : List Char, r.length < rest.length → SoundItems v input r) :
    SoundItems v input rest := by
  intro i path frames splices s hroom haccepts
  rcases haccepts.cases with hdone | ⟨c', hstep, hnext⟩
  · obtain ⟨w, r, ⟨_, hc'⟩ | ⟨_, hc'⟩⟩ := arrayTurn_of_step hdone <;> cases hc'
  have hlt := length_step hstep
  obtain ⟨w, r, ⟨hrest, hc'⟩ | ⟨hrest, hc'⟩⟩ := arrayTurn_of_step hstep
  · cases hc'
    obtain ⟨w', n, r', a, hr, hend, hdepth, ha⟩ := hvalue r hlt _ _ _ _ (by simpa using hroom) hnext
    subst hr
    obtain ⟨splices'', hpass⟩ := passes_node input w' splices hend hdepth ha
    have hlt' : r'.length < _ := Nat.lt_of_le_of_lt (by simp; omega) hlt
    obtain ⟨items, trail, r'', b, hr', hdepth', hb⟩ :=
      hitems r' hlt' _ _ _ _ _ hroom (hnext.of_steps hpass.steps)
    subst hr'
    refine ⟨(⟨w, w'⟩, n) :: items, trail, r'',
      ⟨(⟨w, w'⟩, a.item) :: b.item, a.changed || b.changed, b.state⟩, ?_, ?_, ?_⟩
    · rw [hrest, moreItemsText_append]
    · rw [Node.itemsDepth]
      simp only [List.length_cons] at hdepth
      omega
    · rw [rewriteItems, ha, Option.bind_some, hb]
      rfl
  · exact ⟨[], w, r, ⟨[], false, s⟩, hrest, hroom, by rw [rewriteItems]⟩

theorem soundMembers_of_shorter (hvalue : ∀ r : List Char, r.length < rest.length →
    SoundValue v input r)
    (hmembers : ∀ r : List Char, r.length < rest.length → SoundMembers v input r) :
    SoundMembers v input rest := by
  intro seg path frames splices s hroom haccepts
  rcases haccepts.cases with hdone | ⟨c', hstep, hnext⟩
  · rcases objectTurn_of_step hdone with ⟨_, _, _, _, _, _, hc'⟩ | ⟨_, _, _, hc'⟩ <;> cases hc'
  have hlt := length_step hstep
  rcases objectTurn_of_step hstep with ⟨sep, name, key, r, hkey, hrest, hc'⟩ | ⟨w, r, hrest, hc'⟩
  · cases hc'
    obtain ⟨w', n, r', a, hr, hend, hdepth, ha⟩ := hvalue r hlt _ _ _ _ (by simpa using hroom) hnext
    subst hr
    obtain ⟨splices'', hpass⟩ := passes_node input w' splices hend hdepth ha
    have hlt' : r'.length < _ := Nat.lt_of_le_of_lt (by simp; omega) hlt
    obtain ⟨members, trail, r'', b, hr', hdepth', hb⟩ :=
      hmembers r' hlt' _ _ _ _ _ hroom (hnext.of_steps hpass.steps)
    subst hr'
    refine ⟨(sep, ⟨name.key, name.beforeColon, w'⟩, n) :: members, trail, r'',
      ⟨(sep, ⟨name.key, name.beforeColon, w'⟩, a.item) :: b.item, a.changed || b.changed, b.state⟩,
      ?_, ?_, ?_⟩
    · rw [hrest, moreMembersText_append]
      rfl
    · rw [Node.membersDepth]
      simp only [List.length_cons] at hdepth
      omega
    · rw [rewriteMembers, hkey, Option.bind_some, ha, Option.bind_some, hb]
      rfl
  · exact ⟨[], w, r, ⟨[], false, s⟩, hrest, hroom, by rw [rewriteMembers]⟩

end Induction

/-- Wherever the scanner gets to the end from, a value, the rest of an array or the rest of an
object stands. -/
theorem exists_node_of_accepts (rest : List Char) :
    SoundValue v input rest ∧ SoundItems v input rest ∧ SoundMembers v input rest := by
  have hall : ∀ k, ∀ r : List Char, r.length < k →
      SoundValue v input r ∧ SoundItems v input r ∧ SoundMembers v input r := by
    intro k
    induction k with
    | zero => exact fun r hr => absurd hr (Nat.not_lt_zero _)
    | succ k ih =>
      intro r hr
      have hshorter : ∀ r' : List Char, r'.length < r.length → r'.length < k := by
        intro r' hr'
        omega
      have hvalue := fun r' hr' => (ih r' (hshorter r' hr')).1
      have hitems := fun r' hr' => (ih r' (hshorter r' hr')).2.1
      have hmembers := fun r' hr' => (ih r' (hshorter r' hr')).2.2
      exact ⟨soundValue_of_shorter hvalue hitems hmembers, soundItems_of_shorter hvalue hitems,
        soundMembers_of_shorter hvalue hmembers⟩
  exact hall _ rest (Nat.lt_succ_self _)

/-! ### Whole texts -/

/-- The document can be rewritten: it is not too deep, every member name and every selected string
stands for a text. -/
structure Fits (v : Visitor σ) (d : Document) (s : σ) (res : Rewritten Node σ) : Prop where
  depth : d.root.depth ≤ MAX_JSON_DEPTH
  rewrite : rewrite v [] d.root s = some res

/-- The document with another root. -/
def withRoot (d : Document) (root : Node) : Document := ⟨d.lead, root, d.trail⟩

theorem run_of_fits {d : Document} {s : σ} {res : Rewritten Node σ} (h : Fits v d s res) :
    ∃ c, Cfg.run v d.text (d.text.length + 1) (.start d.text s) = .ok c ∧ c.visitor = res.state ∧
      (c.splices = [] ↔ res.changed = false) ∧
      spliced d.text 0 c.splices = (withRoot d res.item).text := by
  have hend : EndsBefore d.root d.trail.text := by
    have hstops := stops_ws d.trail (r := []) (by rintro c t ⟨⟩)
    rw [List.append_nil] at hstops
    exact endsBefore_of_stops hstops
  have hdepth : ([] : List Frame).length + d.root.depth ≤ MAX_JSON_DEPTH := by simpa using h.depth
  obtain ⟨splices, hpass⟩ := passes_node d.text d.lead [] hend hdepth h.rewrite
  refine ⟨_, (run_eq_ok_iff (Nat.lt_succ_self _)).mpr ⟨hpass.steps, step_done d.trail⟩,
    rfl, by simpa using hpass.splices, ?_⟩
  have hwritten := hpass.written [] (written_start d.text)
  rw [← List.append_nil d.trail.text] at hwritten
  rw [hwritten.keep.eq_of_end]
  simp [Document.text, withRoot]

theorem exists_document_of_run {l : List Char} {s : σ} {c : Cfg σ}
    (h : Cfg.run v l (l.length + 1) (.start l s) = .ok c) :
    ∃ (d : Document) (res : Rewritten Node σ),
      l = d.text ∧ Fits v d s res := by
  have hrun := (run_eq_ok_iff (Nat.lt_succ_self _)).mp h
  obtain ⟨w, n, r, res, hl, hend, hdepth, hres⟩ :=
    (exists_node_of_accepts l).1 [] [] [] s (Nat.zero_le _) ⟨c, hrun⟩
  obtain ⟨splices, hpass⟩ := passes_node l w [] hend hdepth hres
  have haccepts : Accepts v l ⟨.after, r, [], [], splices, res.state⟩ := by
    rw [← hl] at hpass
    exact Accepts.of_steps hpass.steps ⟨c, hrun⟩
  have hblank : skipWs r = [] := by
    obtain hdone | ⟨c', hstep, -⟩ := haccepts.cases
    all_goals
      by_contra hne
      simp [Cfg.step, Cfg.afterStep, hne] at *
  have hsplit := wsOf_append_skipWs r
  rw [hblank, List.append_nil] at hsplit
  refine ⟨⟨w, n, wsOf r⟩, res, ?_, ⟨by simpa using hdepth, hres⟩⟩
  rw [hl, Document.text, hsplit]

/-- The scanner answers exactly for the texts of documents that fit, with the rewritten document if
anything in it was replaced. -/
theorem rewriteStringValues_eq_ok_iff {bytes : Bytes} {s : σ} {out : Option Bytes × σ} :
    rewriteStringValues v bytes s = .ok out ↔ ∃ (d : Document) (res : Rewritten Node σ),
      bytes = Utf8.bytes (String.ofList d.text) ∧ Fits v d s res ∧
      out =
        (if res.changed then some (Utf8.bytes (String.ofList (withRoot d res.item).text)) else none,
        res.state) := by
  have hanswer : ∀ {d : Document} {res : Rewritten Node σ}, Fits v d s res →
      rewriteStringValues v (Utf8.bytes (String.ofList d.text)) s =
        .ok
          (if res.changed then some (Utf8.bytes (String.ofList (withRoot d res.item).text))
            else none, res.state) := by
    intro d res hfits
    obtain ⟨c, hrun, hstate, hempty, hspliced⟩ := run_of_fits hfits
    simp only [rewriteStringValues, Utf8.decode?_bytes, String.toList_ofList, hrun, hempty,
      hspliced, hstate]
    cases res.changed with
    | false => rfl
    | true => rfl
  constructor
  · intro h
    have hok := h
    unfold rewriteStringValues at h
    split at h
    · cases h
    · next text htext =>
      split at h
      · cases h
      · next c hrun =>
        obtain ⟨d, res, hd, hfits⟩ := exists_document_of_run hrun
        have hbytes : bytes = Utf8.bytes (String.ofList d.text) := by
          rw [← hd, String.ofList_toList]
          exact Utf8.decode?_eq_some_iff.mp htext
        refine ⟨d, res, hbytes, hfits, ?_⟩
        rw [hbytes, hanswer hfits] at hok
        exact (Except.ok.inj hok).symm
  · rintro ⟨d, res, rfl, hfits, rfl⟩
    exact hanswer hfits

end JsonSplice
end Aisix
