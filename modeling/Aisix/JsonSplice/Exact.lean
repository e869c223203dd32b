import Aisix.JsonSplice.Removed

/-!
# Aisix.JsonSplice.Exact

Splicing is reading, changing and printing, for the texts of documents that can be read:
`splice_exact`. A document that names a member by half of a surrogate pair is JSON and cannot be:
`lone_surrogate_refused`.
-/

namespace Aisix
namespace JsonSplice

open Json Json.Syntax

/-- The members of the object a document is. -/
def membersOf : Node → List (Name × Node)
  | .object _ name first rest _ => (name, first) :: rest.map (·.2)
  | _ => []

def otherThan (key : String) (m : Name × Node) : Bool := m.1.key.decode != some key

variable {key : String}

theorem map_snd_filter (key : String) (rest : List (Sep × Name × Node)) :
    (rest.filter (keeps key)).map (·.2) = (rest.map (·.2)).filter (otherThan key) := by
  rw [List.filter_map]
  rfl

theorem membersOf_removeMember {n n' : Node} (h : removeMember key n = some n') :
    membersOf n' = (membersOf n).filter (otherThan key) := by
  unfold removeMember at h
  split at h
  · next lead name first rest trail =>
    have hrest := map_snd_filter key rest
    split at h
    · next hname =>
      have hgoes : ¬ otherThan key (name, first) = true := by simp [otherThan, hname]
      rw [membersOf, List.filter_cons_of_neg hgoes, ← hrest]
      split at h
      · next hfilter =>
        cases h
        rw [hfilter]
        rfl
      · next sep name' first' more hfilter =>
        cases h
        rw [hfilter]
        rfl
    · next hname =>
      have hstays : otherThan key (name, first) = true := by simpa [otherThan] using hname
      split at h
      · cases h
      · cases h
        rw [membersOf, membersOf, List.filter_cons_of_pos hstays, hrest]
  · cases h

theorem removeMember_eq_none_iff {n : Node} :
    removeMember key n = none ↔ ∀ m ∈ membersOf n, m.1.key.decode ≠ some key := by
  cases n with
  | object lead name first rest trail =>
    rw [membersOf, List.forall_mem_cons, List.forall_mem_map]
    unfold removeMember
    dsimp only
    split
    · next hname =>
      constructor
      · intro h
        split at h <;> cases h
      · intro h
        exact absurd hname h.1
    · next hname =>
      split
      · next hall =>
        refine iff_of_true rfl ⟨hname, ?_⟩
        intro m hm
        have hkeeps := List.all_eq_true.mp hall m hm
        simpa [keeps] using hkeeps
      · next hall =>
        refine iff_of_false (Option.some_ne_none _) ?_
        rintro ⟨-, hrest⟩
        refine hall (List.all_eq_true.mpr fun m hm => ?_)
        simpa [keeps] using hrest m hm
  | scalar t => simp [removeMember, membersOf]
  | string t => simp [removeMember, membersOf]
  | emptyArray ws => simp [removeMember, membersOf]
  | array lead first rest trail => simp [removeMember, membersOf]
  | emptyObject ws => simp [removeMember, membersOf]

/-! ### Values -/

variable {readNumber : NumberToken → Option Number}

def readMember (readNumber : NumberToken → Option Number) (m : Name × Node) :
    Option (String × Value) :=
  m.1.key.decode.bind fun k => (m.2.value? readNumber).map fun x => (k, x)

theorem members?_eq_mapM (rest : List (Sep × Name × Node)) :
    Node.members? readNumber rest = (rest.map (·.2)).mapM (readMember readNumber) := by
  induction rest with
  | nil => rfl
  | cons m rest ih =>
    obtain ⟨sep, name, n⟩ := m
    rw [Node.members?, ih, List.map_cons, List.mapM_cons, readMember]
    cases name.key.decode with
    | none => rfl
    | some k =>
      cases n.value? readNumber with
      | none => rfl
      | some x =>
        cases (rest.map (·.2)).mapM (readMember readNumber) with
        | none => rfl
        | some fs => rfl

def otherField (key : String) (f : String × Value) : Bool := f.1 != key

theorem mapM_filter_otherThan {ms : List (Name × Node)} :
    ∀ {fs : List (String × Value)}, ms.mapM (readMember readNumber) = some fs →
      (ms.filter (otherThan key)).mapM (readMember readNumber) =
      some (fs.filter (otherField key)) := by
  induction ms with
  | nil =>
    intro fs h
    cases h
    rfl
  | cons m ms ih =>
    intro fs h
    rw [List.mapM_cons] at h
    obtain ⟨f, hf, h⟩ := Option.bind_eq_some_iff.mp h
    obtain ⟨fs', hfs', h⟩ := Option.bind_eq_some_iff.mp h
    cases h
    have hname : m.1.key.decode = some f.1 := by
      obtain ⟨k, hk, hx⟩ := Option.bind_eq_some_iff.mp hf
      obtain ⟨x, -, rfl⟩ := Option.map_eq_some_iff.mp hx
      exact hk
    have hsame : otherThan key m = otherField key f := by simp [otherThan, otherField, hname, bne]
    cases hstays : otherField key f with
    | true =>
      rw [List.filter_cons_of_pos (hsame.trans hstays), List.filter_cons_of_pos hstays,
        List.mapM_cons, hf, ih hfs']
      rfl
    | false =>
      rw [List.filter_cons_of_neg (by simp [hsame, hstays]),
        List.filter_cons_of_neg (by simp [hstays]), ih hfs']

/-- The value without the members of the name. -/
def withoutMember (key : String) : Value → Value
  | .object fields => .object (fields.filter (otherField key))
  | x => x

theorem value?_object (lead : Ws) (name : Name) (first : Node) (rest : List (Sep × Name × Node))
    (trail : Ws) :
    (Node.object lead name first rest trail).value? readNumber =
      ((membersOf (.object lead name first rest trail)).mapM (readMember readNumber)).map
      .object := by
  rw [Node.value?, membersOf, List.mapM_cons, ← members?_eq_mapM, readMember]
  cases name.key.decode with
  | none => rfl
  | some k =>
    cases first.value? readNumber with
    | none => rfl
    | some x =>
      cases Node.members? readNumber rest with
      | none => rfl
      | some fs => rfl

theorem value?_of_removed {n n' : Node} (h : removeMember key n = some n') :
    n'.value? readNumber = ((membersOf n').mapM (readMember readNumber)).map .object := by
  unfold removeMember at h
  split at h
  · split at h
    · split at h
      · cases h
        rfl
      · cases h
        exact value?_object ..
    · split at h
      · cases h
      · cases h
        exact value?_object ..
  · cases h

theorem value?_removeMember {n n' : Node} {x : Value} (h : removeMember key n = some n')
    (hx : n.value? readNumber = some x) : n'.value? readNumber = some (withoutMember key x) := by
  rw [value?_of_removed h, membersOf_removeMember h]
  cases n with
  | object lead name first rest trail =>
    rw [value?_object] at hx
    obtain ⟨fs, hfs, rfl⟩ := Option.map_eq_some_iff.mp hx
    rw [mapM_filter_otherThan hfs]
    rfl
  | scalar t => cases h
  | string t => cases h
  | emptyArray ws => cases h
  | array lead first rest trail => cases h
  | emptyObject ws => cases h

/-! ### Both functions -/

def textBytes (d : Document) : Bytes := Utf8.bytes (String.ofList d.text)

/-- What the two functions answer, for every text and every visitor; `none` of a removal is a read
out of bounds. -/
theorem splice_exact {σ : Type} (v : Visitor σ) (s : σ) (key : String) (bytes : Bytes)
    (readNumber : NumberToken → Option Number) :
    (∀ out s', rewriteStringValues v bytes s = .ok (some out, s') ↔ ∃ d res, bytes = textBytes d ∧
      Fits v d s res ∧ res.changed = true ∧ out = textBytes (withRoot d res.item) ∧
      s' = res.state) ∧
    (∀ d res x, Fits v d s res → d.root.value? readNumber = some x →
      (withRoot d res.item).root.value? readNumber = some (mapStrings v [] x s).1) ∧
    (∀ out, removeTopLevelMember bytes key = some (.ok (some out)) ↔
      ∃ d n, bytes = textBytes d ∧ Valid d ∧ removeMember key d.root = some n ∧
      out = textBytes (withRoot d n)) ∧
    (removeTopLevelMember bytes key = some (.ok none) ↔ ∃ d, bytes = textBytes d ∧ Valid d ∧
      ∀ m ∈ membersOf d.root, m.1.key.decode ≠ some key) ∧
    removeTopLevelMember bytes key ≠ none ∧
    ∀ n n', removeMember key n = some n' → membersOf n' = (membersOf n).filter (otherThan key) ∧
      ∀ x, n.value? readNumber = some x → n'.value? readNumber = some (withoutMember key x) := by
  refine ⟨?_, ?_, ?_, ?_, removeTopLevelMember_ne_none bytes, ?_⟩
  · intro out s'
    rw [rewriteStringValues_eq_ok_iff]
    constructor
    · rintro ⟨d, res, hbytes, hfits, hout⟩
      obtain ⟨hsome, hstate⟩ := Prod.mk.inj hout
      cases hchanged : res.changed with
      | true =>
        rw [hchanged, if_pos rfl] at hsome
        exact ⟨d, res, hbytes, hfits, hchanged, Option.some.inj hsome, hstate⟩
      | false =>
        rw [hchanged, if_neg (by decide)] at hsome
        cases hsome
    · rintro ⟨d, res, hbytes, hfits, hchanged, hout, hstate⟩
      refine ⟨d, res, hbytes, hfits, ?_⟩
      rw [hchanged, if_pos rfl, hout, hstate]
      rfl
  · intro d res x hfits hx
    exact (value?_rewrite hfits.rewrite hx).1
  · intro out
    rw [removeTopLevelMember_eq_ok_iff]
    constructor
    · rintro ⟨d, hbytes, hvalid, hout⟩
      obtain ⟨n, hn, hout⟩ := Option.map_eq_some_iff.mp hout.symm
      exact ⟨d, n, hbytes, hvalid, hn, hout.symm⟩
    · rintro ⟨d, n, hbytes, hvalid, hn, hout⟩
      refine ⟨d, hbytes, hvalid, ?_⟩
      rw [hn, hout]
      rfl
  · rw [removeTopLevelMember_eq_ok_iff]
    constructor
    · rintro ⟨d, hbytes, hvalid, hout⟩
      exact ⟨d, hbytes, hvalid, removeMember_eq_none_iff.mp (Option.map_eq_none_iff.mp hout.symm)⟩
    · rintro ⟨d, hbytes, hvalid, hnone⟩
      refine ⟨d, hbytes, hvalid, ?_⟩
      rw [removeMember_eq_none_iff.mpr hnone]
      rfl
  · intro n n' h
    refine ⟨membersOf_removeMember h, ?_⟩
    intro x hx
    exact value?_removeMember h hx

/-! ### Half of a surrogate pair -/

/-- Selects the member `a` and replaces its text. -/
def replaceA : Visitor Unit := ⟨fun path s => (path == [.key "a"], s), fun _ s => (some "y", s)⟩

def loneName : Name := ⟨⟨[.unicode ⟨'d', '8', '0', '0', by decide⟩]⟩, .empty, .empty⟩

def nameA : Name := ⟨⟨[.plain 'a' (by decide)]⟩, .empty, .empty⟩

def valueX : StringToken := ⟨[.plain 'x' (by decide)]⟩

/-- An object with one member that nothing is the name of, and one that is to be replaced. -/
def loneSurrogate : Document :=
  ⟨.empty, .object .empty loneName (.scalar .null)
    [(⟨.empty, .empty⟩, nameA, .string valueX)] .empty, .empty⟩

theorem lone_surrogate_refused :
    loneSurrogate.text = "\x7b\"\\ud800\":null,\"a\":\"x\"\x7d".toList ∧
      loneSurrogate.root.depth ≤ MAX_JSON_DEPTH ∧
      ((nameA, .string valueX) ∈ membersOf loneSurrogate.root ∧ nameA.key.decode = some "a" ∧
      valueX.decode = some "x" ∧
        (replaceA.shouldRewrite [.key "a"] ()).1 = true ∧ (replaceA.rewrite "x" ()).1 = some "y") ∧
      ∃ e, rewriteStringValues replaceA (textBytes loneSurrogate) () = .error e := by
  refine ⟨by
    decide, by
      decide, ⟨List.mem_cons_of_mem _ List.mem_cons_self, by decide, by decide, by decide, rfl⟩, ?_⟩
  have hrun :
      ∃ e, Cfg.run replaceA loneSurrogate.text (loneSurrogate.text.length + 1)
      (.start loneSurrogate.text ()) =
      .error e := ⟨_, rfl⟩
  obtain ⟨e, he⟩ := hrun
  unfold rewriteStringValues textBytes
  rw [Utf8.decode?_bytes]
  simp only [String.toList_ofList, he]
  exact ⟨_, rfl⟩

end JsonSplice
end Aisix
