import Aisix.JsonSchema
import Mathlib.Data.List.Forall2

/-!
# Aisix.JsonSchema.Looser

One schema is looser than another when it takes every document the other takes and, where that is
asked for, has looked at no less of it. Keywords may be left out of an object when none is read
together with one that stays, and what they have looked at is not asked for (`Trimmed`).
-/

namespace Aisix
namespace JsonSchema

open Json

/-- What is valid stays valid, and with `keep` what has been looked at stays so. -/
def Outcome.Looser (keep : Bool) (o o' : Outcome) : Prop :=
  o.valid = true → o'.valid = true ∧
    (keep = true → (∀ n, o.names n = true → o'.names n = true) ∧ ∀ i, o.indices i = true →
      o'.indices i = true)

def Looser (keep : Bool) (s s' : Sem) : Prop := ∀ doc, (s doc).Looser keep (s' doc)

namespace Outcome

theorem Looser.refl (keep : Bool) (o : Outcome) : o.Looser keep o :=
  fun h => ⟨h, fun _ => ⟨fun _ h => h, fun _ h => h⟩⟩

theorem Looser.trans {keep : Bool} {o o' o'' : Outcome} (h : o.Looser keep o')
    (h' : o'.Looser keep o'') :
    o.Looser keep o'' := by
  intro hvalid
  obtain ⟨hvalid', hlooked⟩ := h hvalid
  obtain ⟨hvalid'', hlooked'⟩ := h' hvalid'
  refine ⟨hvalid'', fun hkeep => ⟨fun n hn => ?_, fun i hi => ?_⟩⟩
  · exact (hlooked' hkeep).1 n ((hlooked hkeep).1 n hn)
  · exact (hlooked' hkeep).2 i ((hlooked hkeep).2 i hi)

theorem looser_pass (o : Outcome) : o.Looser false pass := fun _ => ⟨rfl, nofun⟩

theorem looser_verdict {keep : Bool} {b b' : Bool} (h : b = true → b' = true) :
    (verdict b).Looser keep (verdict b') := fun hb => ⟨h hb, fun _ => ⟨nofun, nofun⟩⟩

theorem Looser.and {keep : Bool} {a a' b b' : Outcome} (ha : a.Looser keep a')
    (hb : b.Looser keep b') :
    (a.and b).Looser keep (a'.and b') := by
  intro hvalid
  obtain ⟨hva, hvb⟩ := (Bool.and_eq_true _ _).mp hvalid
  obtain ⟨hva', hla⟩ := ha hva
  obtain ⟨hvb', hlb⟩ := hb hvb
  refine ⟨(Bool.and_eq_true _ _).mpr ⟨hva', hvb'⟩, fun hkeep => ⟨fun n hn => ?_, fun i hi => ?_⟩⟩
  · exact (Bool.or_eq_true _ _).mpr
      (((Bool.or_eq_true _ _).mp hn).imp ((hla hkeep).1 n) ((hlb hkeep).1 n))
  · exact (Bool.or_eq_true _ _).mpr
      (((Bool.or_eq_true _ _).mp hi).imp ((hla hkeep).2 i) ((hlb hkeep).2 i))

theorem and_looser_left (a b : Outcome) : (a.and b).Looser false a := fun hvalid =>
  ⟨((Bool.and_eq_true _ _).mp hvalid).1, nofun⟩

theorem Looser.all {keep : Bool} {os os' : List Outcome}
    (h : List.Forall₂ (Outcome.Looser keep) os os') :
    (all os).Looser keep (all os') := by
  induction h with
  | nil => exact .refl keep pass
  | cons hhead _ ih => exact hhead.and ih

theorem valid_all {os : List Outcome} : (all os).valid = true ↔ ∀ o ∈ os, o.valid = true := by
  induction os with
  | nil => exact ⟨fun _ => nofun, fun _ => rfl⟩
  | cons o os ih =>
    rw [List.forall_mem_cons, ← ih, all, List.foldr_cons, ← all, Outcome.and, Bool.and_eq_true]

theorem Looser.any {keep : Bool} {os os' : List Outcome}
    (h : List.Forall₂ (Outcome.Looser keep) os os') :
    (any os).Looser keep (any os') := by
  have hmem : ∀ o ∈ os, ∃ o' ∈ os', o.Looser keep o' := by
    induction h with
    | nil => exact nofun
    | cons hhead _ ih =>
      refine List.forall_mem_cons.mpr ⟨⟨_, List.mem_cons_self, hhead⟩, fun o ho => ?_⟩
      obtain ⟨o', ho', hlooser⟩ := ih o ho
      exact ⟨o', List.mem_cons_of_mem _ ho', hlooser⟩
  have hfind : ∀ p q : Outcome →
      Bool, (∀ o o' : Outcome, o.Looser keep o' → p o = true → q o' = true) → os.any p = true →
      os'.any q = true := by
    intro p q hpq hany
    obtain ⟨o, ho, hp⟩ := List.any_eq_true.mp hany
    obtain ⟨o', ho', hlooser⟩ := hmem o ho
    exact List.any_eq_true.mpr ⟨o', ho', hpq o o' hlooser hp⟩
  intro hvalid
  refine ⟨hfind _ _ (fun o o' hlooser ho => (hlooser ho).1) hvalid,
    fun hkeep => ⟨fun n => hfind _ _ ?_, fun i => hfind _ _ ?_⟩⟩
  · intro o o' hlooser ho
    obtain ⟨hv, hn⟩ := (Bool.and_eq_true _ _).mp ho
    exact (Bool.and_eq_true _ _).mpr ⟨(hlooser hv).1, ((hlooser hv).2 hkeep).1 n hn⟩
  · intro o o' hlooser ho
    obtain ⟨hv, hi⟩ := (Bool.and_eq_true _ _).mp ho
    exact (Bool.and_eq_true _ _).mpr ⟨(hlooser hv).1, ((hlooser hv).2 hkeep).2 i hi⟩

theorem one_looser_any (keep : Bool) (os : List Outcome) : (one os).Looser keep (any os) :=
  fun hvalid =>
  ⟨((Bool.and_eq_true _ _).mp hvalid).2, fun _ => ⟨fun _ hn => hn, fun _ hi => hi⟩⟩

theorem Looser.one {keep : Bool} {os os' : List Outcome}
    (h : List.Forall₂ (fun o o' => o.Looser keep o' ∧ o'.Looser keep o) os os') :
    (one os).Looser keep (one os') := by
  have hcount : os.countP (·.valid) = os'.countP (·.valid) := by
    induction h with
    | nil => rfl
    | cons hhead _ ih =>
      have hvalid := Bool.eq_iff_iff.mpr ⟨fun hv => (hhead.1 hv).1, fun hv => (hhead.2 hv).1⟩
      rw [List.countP_cons, List.countP_cons, ih, hvalid]
  refine Looser.and (looser_verdict fun hone => ?_) (Looser.any (h.imp fun _ _ hboth => hboth.1))
  rwa [← hcount]

theorem Looser.neg {keep : Bool} {o o' : Outcome} (h : o'.Looser false o) :
    o.neg.Looser keep o'.neg := by
  refine looser_verdict fun hneg => ?_
  cases hvalid : o'.valid with
  | false => rfl
  | true =>
    rw [(h hvalid).1] at hneg
    cases hneg

theorem Looser.cond {keep : Bool} {o o' yes yes' no no' : Outcome} (h : o.Looser keep o')
    (h' : o'.Looser keep o) (hyes : yes.Looser keep yes') (hno : no.Looser keep no') :
    (o.cond yes no).Looser keep (o'.cond yes' no') := by
  unfold Outcome.cond
  by_cases hvalid : o.valid = true
  · rw [if_pos hvalid, if_pos (h hvalid).1]
    exact h.and hyes
  · rw [if_neg hvalid, if_neg fun hvalid' => hvalid (h' hvalid').1]
    exact hno

end Outcome

open Outcome

theorem Looser.refl (keep : Bool) (s : Sem) : Looser keep s s := fun doc => .refl keep (s doc)

theorem Looser.trans {keep : Bool} {s s' s'' : Sem} (h : Looser keep s s')
    (h' : Looser keep s' s'') :
    Looser keep s s'' := fun doc => (h doc).trans (h' doc)

/-- A schema that takes every document and says nothing of it is as loose as any where nothing is to
be kept. -/
theorem Looser.valid {keep : Bool} {s s' : Sem} (h : Looser keep s s') {doc : Value}
    (hvalid : (s doc).valid = true) :
    (s' doc).valid = true := (h doc hvalid).1

/-- Every schema of the one list has a tighter one in the other, and with `keep` none is lost. -/
def Selects (keep : Bool) (ss ss' : List Sem) : Prop :=
  (∀ s' ∈ ss', ∃ s ∈ ss, Looser false s s') ∧ (keep = true → ss ≠ [] → ss' ≠ [])

theorem Selects.of_forall₂ {keep : Bool} {ss ss' : List Sem}
    (h : List.Forall₂ (Looser false) ss ss') :
    Selects keep ss ss' := by
  refine ⟨?_, fun _ hne hnil => hne ?_⟩
  · induction h with
    | nil => exact nofun
    | cons hhead _ ih =>
      refine List.forall_mem_cons.mpr ⟨⟨_, List.mem_cons_self, hhead⟩, fun s' hs' => ?_⟩
      obtain ⟨s, hs, hlooser⟩ := ih s' hs'
      exact ⟨s, List.mem_cons_of_mem _ hs, hlooser⟩
  · subst hnil
    exact List.forall₂_nil_right_iff.mp h

theorem Selects.of_subset {ss ss' : List Sem} (h : ss' ⊆ ss) : Selects false ss ss' :=
  ⟨fun s' hs' => ⟨s', h hs', .refl false s'⟩, nofun⟩

theorem looser_fieldwise {keep : Bool} {select select' : String → List Sem}
    (h : ∀ n, Selects keep (select n) (select' n))
    (doc : Value) : (fieldwise select doc).Looser keep (fieldwise select' doc) := by
  intro hvalid
  refine ⟨List.all_eq_true.mpr fun e he => List.all_eq_true.mpr fun s' hs' => ?_,
    fun hkeep => ⟨fun n hn => ?_, fun _ h => h⟩⟩
  · obtain ⟨s, hs, hlooser⟩ := (h e.1).1 s' hs'
    exact hlooser.valid (List.all_eq_true.mp (List.all_eq_true.mp hvalid e he) s hs)
  · obtain ⟨hname, hne⟩ := (Bool.and_eq_true _ _).mp hn
    refine (Bool.and_eq_true _ _).mpr ⟨hname, ?_⟩
    have hne' := (h n).2 hkeep (by simpa using hne)
    simpa using hne'

theorem looser_itemwise {keep : Bool} {select select' : Nat → List Sem}
    (h : ∀ i, Selects keep (select i) (select' i))
    (doc : Value) : (itemwise select doc).Looser keep (itemwise select' doc) := by
  intro hvalid
  refine ⟨List.all_eq_true.mpr fun e he => List.all_eq_true.mpr fun s' hs' => ?_,
    fun hkeep => ⟨fun _ h => h, fun i hi => ?_⟩⟩
  · obtain ⟨s, hs, hlooser⟩ := (h e.2).1 s' hs'
    exact hlooser.valid (List.all_eq_true.mp (List.all_eq_true.mp hvalid e he) s hs)
  · obtain ⟨hindex, hne⟩ := (Bool.and_eq_true _ _).mp hi
    refine (Bool.and_eq_true _ _).mpr ⟨hindex, ?_⟩
    have hne' := (h i).2 hkeep (by simpa using hne)
    simpa using hne'

theorem looser_counted {keep : Bool} {least : Nat} {most : Option Nat} {s s' : Sem}
    (h : Looser false s s') (hmost : most ≠ none → Looser false s' s) (doc : Value) :
    (counted least most s doc).Looser keep (counted least most s' doc) := by
  cases doc with
  | array items =>
    have hle : (items.countP fun v => (s v).valid) ≤ items.countP fun v => (s' v).valid :=
      List.countP_mono_left fun v _ hv => h.valid hv
    intro hvalid
    obtain ⟨hleast, hwithin⟩ := (Bool.and_eq_true _ _).mp hvalid
    refine ⟨(Bool.and_eq_true _ _).mpr
      ⟨decide_eq_true (Nat.le_trans (of_decide_eq_true hleast) hle), ?_⟩,
      fun _ => ⟨fun _ h => h, fun i hi => ?_⟩⟩
    · cases most with
      | none => rfl
      | some m =>
        have hge : (items.countP fun v => (s' v).valid) ≤ items.countP fun v => (s v).valid :=
          List.countP_mono_left fun v _ hv => (hmost nofun).valid hv
        exact decide_eq_true (Nat.le_trans hge (of_decide_eq_true hwithin))
    · change items[i]?.any (fun v => (s' v).valid) = true
      change items[i]?.any (fun v => (s v).valid) = true at hi
      cases hitem : items[i]? with
      | none =>
        rw [hitem] at hi
        cases hi
      | some v =>
        rw [hitem] at hi
        exact h.valid hi
  | _ => exact .refl keep pass

/-! ### Two readings of one object -/

def maps : List String :=
  ["properties", "patternProperties", "dependentSchemas", "$defs", "definitions"]

def lists : List String := ["anyOf", "oneOf", "allOf", "prefixItems"]

/-- The schemas that stand under a keyword. -/
def subschemas (fields : List (String × Value)) (key : String) : List Value :=
  match fields.lookup key with
  | some (.object entries) =>
    if maps.contains key then entries.map
      (·.2) else if lists.contains key then [] else [.object entries]
  | some (.array items) => if maps.contains key then [] else items
  | some (.bool b) => [.bool b]
  | _ => []

section Readings

variable {f g : Value → Sem} {fields : List (String × Value)} {R : Sem → Sem → Prop}

theorem mapAt_rel {key : String} (hkey : maps.contains key = true)
    (h : ∀ w ∈ subschemas fields key, R (f w) (g w)) :
    List.Forall₂ (fun a b => a.1 = b.1 ∧ R a.2 b.2) (mapAt (members f fields) key)
      (mapAt (members g fields) key) := by
  rw [mapAt_members, mapAt_members]
  unfold subschemas at h
  cases hlookup : fields.lookup key with
  | none => exact .nil
  | some v =>
    rw [hlookup] at h
    cases v with
    | object entries =>
      dsimp only at h
      rw [if_pos hkey] at h
      refine List.forall₂_map_left_iff.mpr
        (List.forall₂_map_right_iff.mpr (List.forall₂_same.mpr fun e he => ?_))
      exact ⟨rfl, h e.2 (List.mem_map_of_mem he)⟩
    | _ => exact .nil

theorem listAt_rel {key : String} (hkey : maps.contains key = false)
    (h : ∀ w ∈ subschemas fields key, R (f w) (g w)) :
    Option.Rel (List.Forall₂ R) (listAt (members f fields) key)
      (listAt (members g fields) key) := by
  rw [listAt_members, listAt_members]
  unfold subschemas at h
  cases hlookup : fields.lookup key with
  | none => exact .none
  | some v =>
    rw [hlookup] at h
    cases v with
    | array items =>
      dsimp only at h
      rw [hkey, if_neg nofun] at h
      exact .some
        (List.forall₂_map_left_iff.mpr (List.forall₂_map_right_iff.mpr (List.forall₂_same.mpr h)))
    | _ => exact .none

theorem schemaAt_rel {key : String} (hkey : (maps ++ lists).contains key = false)
    (h : ∀ w ∈ subschemas fields key, R (f w) (g w)) :
    Option.Rel R (schemaAt (members f fields) key) (schemaAt (members g fields) key) := by
  rw [schemaAt_members, schemaAt_members]
  unfold subschemas at h
  cases hlookup : fields.lookup key with
  | none => exact .none
  | some v =>
    rw [hlookup] at h
    cases v with
    | object entries =>
      rw [List.contains_append] at hkey
      obtain ⟨hmap, hlist⟩ := Bool.or_eq_false_iff.mp hkey
      dsimp only at h
      rw [hmap, if_neg nofun, hlist, if_neg nofun] at h
      exact .some (h _ (List.mem_singleton_self _))
    | bool b => exact .some (h _ (List.mem_singleton_self _))
    | _ => exact .none

/-- How the schemas under each keyword compare in two readings. -/
structure Below (keep : Bool) (fields : List (String × Value)) (f g : Value → Sem) : Prop where
  inPlace : ∀ key ∈ ["allOf", "anyOf", "then", "else", "dependentSchemas"],
    ∀ w ∈ subschemas fields key, Looser keep (f w) (g w)
  chosen : ∀ key ∈ ["oneOf", "if"], ∀ w ∈ subschemas fields key, Looser keep (f w) (g w) ∧
    Looser keep (g w) (f w)
  negated : ∀ w ∈ subschemas fields "not", Looser false (g w) (f w)
  inside :
    ∀ key ∈ ["properties", "patternProperties", "additionalProperties", "propertyNames",
    "prefixItems", "items",
      "contains", "unevaluatedProperties", "unevaluatedItems"], ∀ w ∈ subschemas fields key,
      Looser false (f w) (g w)
  bounded : (fields.lookup "maxContains").bind Value.asU64? ≠ none →
    ∀ w ∈ subschemas fields "contains", Looser false (g w) (f w)

variable (V : Vocabulary) (resolve : String → Sem) {keep : Bool}

theorem forall₂_apply {ss ss' : List Sem} {R : Outcome → Outcome → Prop} (doc : Value)
    (h : List.Forall₂ (fun s s' => R (s doc) (s' doc)) ss ss') :
    List.Forall₂ R (ss.map (· doc)) (ss'.map (· doc)) :=
  List.forall₂_map_left_iff.mpr (List.forall₂_map_right_iff.mpr h)

theorem getD_rel {l l' : Option (List Sem)} {P : Sem → Sem → Prop}
    (h : Option.Rel (List.Forall₂ P) l l') : List.Forall₂ P (l.getD []) (l'.getD []) := by
  cases h with
  | none => exact .nil
  | some h => exact h

theorem toList_rel {o o' : Option Sem} {P : Sem → Sem → Prop} (h : Option.Rel P o o') :
    List.Forall₂ P o.toList o'.toList := by
  cases h with
  | none => exact .nil
  | some h => exact .cons h .nil

theorem elim_rel {α : Type} {P : α → α → Prop} {o o' : Option α} {F F' : α → Outcome}
    (h : Option.Rel P o o') (hF : ∀ a a', P a a' → (F a).Looser keep (F' a')) :
    (o.elim pass F).Looser keep (o'.elim pass F') := by
  cases h with
  | none => exact .refl keep pass
  | some h => exact hF _ _ h

theorem filter_rel {P : Sem → Sem → Prop} {es es' : List (String × Sem)} (present : String → Bool)
    (h : List.Forall₂ (fun a b => a.1 = b.1 ∧ P a.2 b.2) es es') :
    List.Forall₂ (fun a b => P a.2 b.2) (es.filter fun e => present e.1)
      (es'.filter fun e => present e.1) := by
  induction h with
  | nil => exact .nil
  | cons hhead _ ih =>
    rw [List.filter_cons, List.filter_cons, hhead.1]
    split
    · exact .cons hhead.2 ih
    · exact ih

theorem looser_inPlace (h : Below keep fields f g) (doc : Value) :
    ((parts V (members f fields)).inPlace resolve doc).Looser keep
    ((parts V (members g fields)).inPlace resolve doc) := by
  have hlist : ∀ key ∈ ["allOf", "anyOf", "then", "else", "dependentSchemas"],
      maps.contains key = false →
      Option.Rel (List.Forall₂ fun s s' => (s doc).Looser keep (s' doc))
        (listAt (members f fields) key) (listAt (members g fields) key) :=
    fun key hmem hkey => listAt_rel (R := fun s s' => (s doc).Looser keep (s' doc)) hkey fun w hw =>
      h.inPlace key hmem w hw doc
  refine Outcome.Looser.all (.cons ?_ (.cons ?_ (.cons ?_ (.cons ?_ (.cons ?_ (.cons ?_ .nil))))))
  · have href : (parts V (members g fields)).ref = (parts V (members f fields)).ref := by
      unfold parts
      dsimp only
      rw [lookup_members, lookup_members]
      cases fields.lookup "$ref" <;> rfl
    rw [href]
    exact .refl keep _
  · exact Outcome.Looser.all (forall₂_apply doc (getD_rel (hlist "allOf" (by decide) (by decide))))
  · have hany := hlist "anyOf" (by decide) (by decide)
    have hone :
        Option.Rel (List.Forall₂ fun s s' => (s doc).Looser keep (s' doc) ∧
        (s' doc).Looser keep (s doc)) (listAt (members f fields) "oneOf")
        (listAt (members g fields) "oneOf") :=
      listAt_rel (by decide) fun w hw => ⟨(h.chosen "oneOf" (by decide) w hw).1 doc,
        (h.chosen "oneOf" (by decide) w hw).2 doc⟩
    exact Outcome.Looser.and
      (elim_rel hany fun ss ss' hany => Outcome.Looser.any (forall₂_apply doc hany))
      (elim_rel hone fun ss ss' hone => Outcome.Looser.one (forall₂_apply doc hone))
  · exact elim_rel (schemaAt_rel (R := fun s s' => Looser false s' s) (by decide) h.negated)
      fun s s' hnot => Outcome.Looser.neg (hnot doc)
  · have hbranch : ∀ key ∈ ["allOf", "anyOf", "then", "else", "dependentSchemas"],
        (maps ++ lists).contains key = false →
        ((schemaAt (members f fields) key).elim pass (· doc)).Looser keep
          ((schemaAt (members g fields) key).elim pass (· doc)) :=
      fun key hmem hkey => elim_rel (schemaAt_rel hkey (h.inPlace key hmem)) fun s s' hlooser =>
        hlooser doc
    exact elim_rel (schemaAt_rel (R := fun s s' => Looser keep s s' ∧ Looser keep s' s) (by decide)
      (h.chosen "if" (by decide))) fun s s' htest => Outcome.Looser.cond (htest.1 doc) (htest.2 doc)
      (hbranch "then" (by decide) (by decide))
        (hbranch "else" (by decide) (by decide))
  · have hdependent :=
      filter_rel (P := fun s s' => (s doc).Looser keep (s' doc))
        ((docFields doc).map (·.1)).contains
      (mapAt_rel (R := fun s s' => (s doc).Looser keep (s' doc)) (by decide)
        fun w hw => h.inPlace "dependentSchemas" (by decide) w hw doc)
    exact Outcome.Looser.all
      (List.forall₂_map_left_iff.mpr (List.forall₂_map_right_iff.mpr hdependent))

theorem lookup_rel {P : Sem → Sem → Prop} {es es' : List (String × Sem)} (n : String)
    (h : List.Forall₂ (fun a b => a.1 = b.1 ∧ P a.2 b.2) es es') :
    Option.Rel P (es.lookup n) (es'.lookup n) := by
  induction h with
  | nil => exact .none
  | @cons a b es es' hhead _ ih =>
    rw [List.lookup_cons, List.lookup_cons, hhead.1]
    cases n == b.1 with
    | true => exact .some hhead.2
    | false => exact ih

theorem getElem?_rel {P : Sem → Sem → Prop} {ss ss' : List Sem} (h : List.Forall₂ P ss ss') :
    ∀ i : Nat, Option.Rel P ss[i]? ss'[i]? := by
  induction h with
  | nil => exact fun _ => .none
  | cons hhead _ ih =>
    intro i
    cases i with
    | zero => exact .some hhead
    | succ i => exact ih i

theorem isEmpty_eq {P : Sem → Sem → Prop} {ss ss' : List Sem} (h : List.Forall₂ P ss ss') :
    ss'.isEmpty = ss.isEmpty := by
  cases h <;> rfl

theorem named_rel (h : Below keep fields f g) (n : String) :
    List.Forall₂ (Looser false) ((parts V (members f fields)).named V n)
      ((parts V (members g fields)).named V n) := by
  have hnamed :=
    toList_rel (lookup_rel n (mapAt_rel (by decide) (h.inside "properties" (by decide))))
  have hmatched :=
    filter_rel (fun p => V.hits p n)
      (mapAt_rel (by decide) (h.inside "patternProperties" (by decide)))
  exact List.rel_append hnamed
    (List.forall₂_map_left_iff.mpr (List.forall₂_map_right_iff.mpr hmatched))

theorem member_rel (h : Below keep fields f g) (n : String) :
    List.Forall₂ (Looser false) ((parts V (members f fields)).member V n)
      ((parts V (members g fields)).member V n) := by
  refine List.rel_append (named_rel V h n) ?_
  rw [isEmpty_eq (named_rel V h n)]
  split
  · exact toList_rel (schemaAt_rel (by decide) (h.inside "additionalProperties" (by decide)))
  · exact .nil

theorem element_rel (h : Below keep fields f g) (i : Nat) :
    List.Forall₂ (Looser false) ((parts V (members f fields)).element i)
      ((parts V (members g fields)).element i) := by
  have hprefix := getD_rel (listAt_rel (by decide) (h.inside "prefixItems" (by decide)))
  have htuple := getD_rel (listAt_rel (by decide) (h.inside "items" (by decide)))
  have hlength :
      (parts V (members g fields)).prefixItems.length =
      (parts V (members f fields)).prefixItems.length :=
    hprefix.length_eq.symm
  refine List.rel_append
    (List.rel_append (toList_rel (getElem?_rel hprefix i)) (toList_rel (getElem?_rel htuple i))) ?_
  rw [hlength]
  split
  · exact toList_rel (schemaAt_rel (by decide) (h.inside "items" (by decide)))
  · exact .nil

theorem looser_children (h : Below keep fields f g) (doc : Value) :
    ((parts V (members f fields)).children V doc).Looser keep
    ((parts V (members g fields)).children V doc) := by
  refine Outcome.Looser.all (.cons ?_ (.cons ?_ (.cons ?_ (.cons ?_ .nil))))
  · exact looser_fieldwise (fun n => Selects.of_forall₂ (member_rel V h n)) doc
  · have hnames := schemaAt_rel (by decide) (h.inside "propertyNames" (by decide))
    refine looser_verdict fun hvalid => List.all_eq_true.mpr fun e he => ?_
    have hname := List.all_eq_true.mp hvalid e he
    unfold parts at hname ⊢
    dsimp only at hname ⊢
    generalize schemaAt (members f fields) "propertyNames" = o at hnames hname
    generalize schemaAt (members g fields) "propertyNames" = o' at hnames
    cases hnames with
    | none => rfl
    | some hlooser => exact hlooser.valid hname
  · exact looser_itemwise (fun i => Selects.of_forall₂ (element_rel V h i)) doc
  · have hcontains : Option.Rel (fun s s' => Looser false s s' ∧
          ((fields.lookup "maxContains").bind Value.asU64? ≠ none → Looser false s' s))
        (schemaAt (members f fields) "contains") (schemaAt (members g fields) "contains") :=
      schemaAt_rel (by decide) fun w hw => ⟨h.inside "contains" (by decide) w hw,
        fun hmax => h.bounded hmax w hw⟩
    refine elim_rel hcontains fun s s' hboth => ?_
    unfold parts
    dsimp only
    rw [natAt_members, natAt_members, natAt_members, natAt_members]
    exact looser_counted hboth.1 hboth.2 doc

theorem selects_left {α : Type} {looked looked' : α → Bool} {o o' : Option Sem}
    (h : Option.Rel (Looser false) o o')
    (hlooked : o' ≠ none → ∀ a, looked a = true → looked' a = true) (a : α) :
    Selects false (if looked a then [] else o.toList) (if looked' a then [] else o'.toList) := by
  refine ⟨fun s' hs' => ?_, nofun⟩
  split at hs'
  · cases hs'
  · next hnot =>
    cases h with
    | none => cases hs'
    | @some s _ hlooser =>
      obtain rfl := Option.mem_toList.mp hs' |> Option.some.inj
      refine ⟨s, ?_, hlooser⟩
      rw [if_neg fun hin => hnot (hlooked nofun a hin)]
      exact List.mem_singleton_self s

theorem names_all (os : List Outcome) (n : String) : (all os).names n = os.any (·.names n) := by
  induction os with
  | nil => rfl
  | cons o os ih => rw [List.any_cons, ← ih, all, List.foldr_cons, ← all, Outcome.and]

theorem indices_all (os : List Outcome) (i : Nat) : (all os).indices i = os.any (·.indices i) := by
  induction os with
  | nil => rfl
  | cons o os ih => rw [List.any_cons, ← ih, all, List.foldr_cons, ← all, Outcome.and]

theorem fieldwise_names_left {looked : String → Bool} {o : Option Sem} {doc : Value} {n : String} :
    (fieldwise (fun n => if looked n then [] else o.toList) doc).names n = true ↔
      n ∈ (docFields doc).map (·.1) ∧ looked n = false ∧ o ≠ none := by
  unfold fieldwise
  cases hlooked : looked n <;> cases o <;> simp [hlooked]

theorem itemwise_indices_left {looked : Nat → Bool} {o : Option Sem} {doc : Value} {i : Nat} :
    (itemwise (fun i => if looked i then [] else o.toList) doc).indices i = true ↔
      i < (docItems doc).length ∧ looked i = false ∧ o ≠ none := by
  unfold itemwise
  cases hlooked : looked i <;> cases o <;> simp [hlooked]

theorem ne_none_rel {P : Sem → Sem → Prop} {o o' : Option Sem} (h : Option.Rel P o o') :
    o ≠ none ↔ o' ≠ none := by
  cases h <;> simp

theorem looser_outcome {p p' : Parts} {inner : Bool} {doc : Value}
    (h : (p.looked V resolve doc).Looser inner (p'.looked V resolve doc))
    (hkeep : keep = true → inner = true)
    (hproperties : Option.Rel (Looser false) p.unevaluatedProperties p'.unevaluatedProperties)
    (hitems : Option.Rel (Looser false) p.unevaluatedItems p'.unevaluatedItems)
    (hinner : p'.unevaluatedProperties ≠ none ∨ p'.unevaluatedItems ≠ none → inner = true) :
    (p.outcome V resolve doc).Looser keep (p'.outcome V resolve doc) := by
  intro hvalid
  obtain ⟨hlooked, hrest⟩ := List.forall_mem_cons.mp (valid_all.mp hvalid)
  obtain ⟨hfields, hrest⟩ := List.forall_mem_cons.mp hrest
  have helements := hrest _ (List.mem_singleton_self _)
  obtain ⟨hlooked', hmore⟩ := h hlooked
  have hfields' :=
    looser_fieldwise (selects_left hproperties fun hne => (hmore (hinner (.inl hne))).1) doc hfields
  have helements' :=
    looser_itemwise (selects_left hitems fun hne => (hmore (hinner (.inr hne))).2) doc helements
  refine ⟨valid_all.mpr ?_, fun hk => ⟨fun n hn => ?_, fun i hi => ?_⟩⟩
  · exact List.forall_mem_cons.mpr
      ⟨hlooked', List.forall_mem_cons.mpr ⟨hfields'.1, List.forall_mem_singleton.mpr helements'.1⟩⟩
  · have hstays := (hmore (hkeep hk)).1 n
    unfold Parts.outcome at hn ⊢
    rw [names_all, List.any_cons, Bool.or_eq_true, List.any_cons, Bool.or_eq_true,
      fieldwise_names_left] at hn
    rw [names_all, List.any_cons, Bool.or_eq_true, List.any_cons, Bool.or_eq_true,
      fieldwise_names_left]
    rcases hn with hn | ⟨hname, -, hne⟩ | hn
    · exact .inl (hstays hn)
    · by_cases hseen : (p'.looked V resolve doc).names n = true
      · exact .inl hseen
      · exact .inr (.inl ⟨hname, Bool.eq_false_iff.mpr hseen, (ne_none_rel hproperties).mp hne⟩)
    · cases hn
  · have hstays := (hmore (hkeep hk)).2 i
    unfold Parts.outcome at hi ⊢
    rw [indices_all, List.any_cons, Bool.or_eq_true, List.any_cons, Bool.or_eq_true, List.any_cons,
      Bool.or_eq_true, itemwise_indices_left] at hi
    rw [indices_all, List.any_cons, Bool.or_eq_true, List.any_cons, Bool.or_eq_true, List.any_cons,
      Bool.or_eq_true, itemwise_indices_left]
    rcases hi with hi | hi | ⟨hplace, -, hne⟩ | hi
    · exact .inl (hstays hi)
    · cases hi
    · by_cases hseen : (p'.looked V resolve doc).indices i = true
      · exact .inl hseen
      · exact .inr (.inr (.inl ⟨hplace, Bool.eq_false_iff.mpr hseen, (ne_none_rel hitems).mp hne⟩))
    · cases hi

/-- Whether a keyword of the object asks what has been looked at. -/
def asksLooked (fields : List (String × Value)) : Bool :=
  ((fields.lookup "unevaluatedProperties").filter isSchema).isSome ||
    ((fields.lookup "unevaluatedItems").filter isSchema).isSome

theorem asksLooked_of_schemaAt (g : Value → Sem) {key : String}
    (hkey : key = "unevaluatedProperties" ∨ key = "unevaluatedItems")
    (hne : schemaAt (members g fields) key ≠ none) :
    asksLooked fields = true := by
  rw [schemaAt_members] at hne
  have hsome : ((fields.lookup key).filter isSchema).isSome = true := by
    cases hfilter : (fields.lookup key).filter isSchema with
    | none => exact absurd (by rw [hfilter]; rfl) hne
    | some _ => rfl
  unfold asksLooked
  rcases hkey with rfl | rfl
  · rw [hsome, Bool.true_or]
  · rw [hsome, Bool.or_true]

theorem looser_of_below (h : Below (keep || asksLooked fields) fields f g) :
    Looser keep ((parts V (members f fields)).outcome V resolve)
      ((parts V (members g fields)).outcome V resolve) := by
  intro doc
  have hlooked :
      ((parts V (members f fields)).looked V resolve doc).Looser (keep || asksLooked fields)
      ((parts V (members g fields)).looked V resolve doc) := by
    refine Outcome.Looser.all
      (.cons ?_ (.cons (looser_inPlace V resolve h doc) (.cons (looser_children V h doc) .nil)))
    refine looser_verdict fun hvalid => ?_
    rwa [asserted_members] at hvalid ⊢
  refine looser_outcome V resolve hlooked (fun hkeep => by rw [hkeep, Bool.true_or]) ?_
    ?_ fun hne => ?_
  · exact schemaAt_rel (by decide) (h.inside "unevaluatedProperties" (by decide))
  · exact schemaAt_rel (by decide) (h.inside "unevaluatedItems" (by decide))
  · rw [hne.elim (asksLooked_of_schemaAt g (.inl rfl)) (asksLooked_of_schemaAt g (.inr rfl)),
      Bool.or_true]

end Readings

/-! ## Keywords left out -/

/-- Keywords of `p` are left out in `p'`; with `inner` somebody asks what the others have looked at.
-/
structure Trimmed (inner : Bool) (p p' : Parts) : Prop where
  asserted : ∀ doc, p.asserted doc = true → p'.asserted doc = true
  ref : p'.ref = p.ref
  allOf : p'.allOf = p.allOf ∨ inner = false ∧ p'.allOf = []
  chosen : ∀ doc, (p.chosen doc).Looser inner (p'.chosen doc)
  negated : p'.negated = p.negated ∨ p'.negated = none
  test : p'.test = p.test ∧ p'.consequence = p.consequence ∧ p'.alternative = p.alternative ∨
    inner = false ∧ p'.test = none
  dependentSchemas : p'.dependentSchemas = p.dependentSchemas ∨ inner = false ∧
    p'.dependentSchemas = []
  properties : p'.properties = p.properties
  additionalProperties : p'.patternProperties = p.patternProperties ∧
    p'.additionalProperties = p.additionalProperties ∨
    inner = false ∧ (p'.patternProperties = p.patternProperties ∨ p'.patternProperties = []) ∧
      p'.additionalProperties = none
  propertyNames : p'.propertyNames = p.propertyNames ∨ p'.propertyNames = none
  tuple : p'.tuple = p.tuple
  items : p'.items = p.items
  prefixItems : p'.prefixItems = p.prefixItems ∨ inner = false ∧ p'.prefixItems = [] ∧
    (p.items = none ∨ p.prefixItems = [])
  contains : p'.contains = p.contains ∧ p'.minContains = p.minContains ∧
    p'.maxContains = p.maxContains ∨ inner = false ∧ p'.contains = none
  unevaluatedProperties : p'.unevaluatedProperties = p.unevaluatedProperties ∨ inner = false ∧
    p'.unevaluatedProperties = none
  unevaluatedItems : p'.unevaluatedItems = p.unevaluatedItems ∨ inner = false ∧
    p'.unevaluatedItems = none

section Trim

variable (V : Vocabulary) (resolve : String → Sem) {inner : Bool} {p p' : Parts}

theorem all_trimmed {α : Type} {l l' : List α} {F : α → Outcome}
    (h : l' = l ∨ inner = false ∧ l' = []) :
    (all (l.map F)).Looser inner (all (l'.map F)) := by
  rcases h with rfl | ⟨rfl, rfl⟩
  · exact .refl inner _
  · exact looser_pass _

theorem inPlace_trimmed (h : Trimmed inner p p') (doc : Value) :
    (p.inPlace resolve doc).Looser inner (p'.inPlace resolve doc) := by
  refine Outcome.Looser.all
    (.cons ?_ (.cons ?_ (.cons (h.chosen doc) (.cons ?_ (.cons ?_ (.cons ?_ .nil))))))
  · rw [h.ref]
    exact .refl inner _
  · exact all_trimmed h.allOf
  · rcases h.negated with heq | heq
    · rw [heq]
      exact .refl inner _
    · rw [heq]
      cases p.negated with
      | none => exact .refl inner _
      | some s => exact fun _ => ⟨rfl, fun _ => ⟨nofun, nofun⟩⟩
  · rcases h.test with ⟨htest, hyes, hno⟩ | ⟨rfl, htest⟩
    · rw [htest, hyes, hno]
      exact .refl inner _
    · rw [htest]
      exact looser_pass _
  · rcases h.dependentSchemas with heq | ⟨rfl, heq⟩
    · rw [heq]
      exact .refl inner _
    · rw [heq]
      exact looser_pass _

theorem member_trimmed (h : Trimmed inner p p') (n : String) :
    Selects inner (p.member V n) (p'.member V n) := by
  rcases h.additionalProperties with ⟨hpattern, hadditional⟩ | ⟨rfl, hpattern, hadditional⟩
  · have heq : p'.member V n = p.member V n := by
      unfold Parts.member Parts.named
      rw [h.properties, hpattern, hadditional]
    rw [heq]
    exact ⟨fun s hs => ⟨s, hs, .refl false s⟩, fun _ hne => hne⟩
  · refine .of_subset fun s hs => ?_
    unfold Parts.member Parts.named at hs ⊢
    rw [h.properties, hadditional, Option.toList_none, ite_self, List.append_nil] at hs
    refine List.mem_append_left _ ?_
    rcases hpattern with hpattern | hpattern
    · rwa [hpattern] at hs
    · rw [hpattern, List.filter_nil, List.map_nil, List.append_nil] at hs
      exact List.mem_append_left _ hs

theorem element_trimmed (h : Trimmed inner p p') (i : Nat) :
    Selects inner (p.element i) (p'.element i) := by
  rcases h.prefixItems with heq | ⟨rfl, hnil, hitems⟩
  · have heq : p'.element i = p.element i := by
      unfold Parts.element
      rw [h.tuple, h.items, heq]
    rw [heq]
    exact ⟨fun s hs => ⟨s, hs, .refl false s⟩, fun _ hne => hne⟩
  · refine .of_subset fun s hs => ?_
    unfold Parts.element at hs ⊢
    rw [h.tuple, h.items, hnil] at hs
    rcases hitems with hitems | hitems
    · rw [hitems, Option.toList_none, ite_self, List.append_nil, List.getElem?_nil,
        Option.toList_none, List.nil_append] at hs
      exact List.mem_append_left _ (List.mem_append_right _ hs)
    · rwa [hitems]

theorem children_trimmed (h : Trimmed inner p p') (doc : Value) :
    (p.children V doc).Looser inner (p'.children V doc) := by
  refine Outcome.Looser.all (.cons ?_ (.cons ?_ (.cons ?_ (.cons ?_ .nil))))
  · exact looser_fieldwise (member_trimmed V h) doc
  · refine looser_verdict fun hvalid => ?_
    rcases h.propertyNames with heq | heq
    · rwa [heq]
    · rw [heq]
      exact List.all_eq_true.mpr fun _ _ => rfl
  · exact looser_itemwise (element_trimmed h) doc
  · rcases h.contains with ⟨heq, hleast, hmost⟩ | ⟨rfl, heq⟩
    · rw [heq, hleast, hmost]
      exact .refl inner _
    · rw [heq]
      exact looser_pass _

theorem left_trimmed {o o' : Option Sem} (h : o' = o ∨ inner = false ∧ o' = none)
    (hinner : inner = true) : Option.Rel (Looser false) o o' := by
  obtain rfl := h.resolve_right fun hfalse => by rw [hfalse.1] at hinner; cases hinner
  cases o' with
  | none => exact .none
  | some s => exact .some (.refl false s)

theorem looser_of_trimmed {keep : Bool} (h : Trimmed inner p p')
    (hkeep : keep = true → inner = true)
    (hinner : p'.unevaluatedProperties ≠ none ∨ p'.unevaluatedItems ≠ none → inner = true) :
    Looser keep (p.outcome V resolve) (p'.outcome V resolve) := by
  intro doc
  have hlooked : (p.looked V resolve doc).Looser inner (p'.looked V resolve doc) :=
    Outcome.Looser.all (.cons (looser_verdict (h.asserted doc))
      (.cons (inPlace_trimmed resolve h doc) (.cons (children_trimmed V h doc) .nil)))
  cases hcase : inner with
  | true =>
    exact looser_outcome V resolve hlooked hkeep (left_trimmed h.unevaluatedProperties hcase)
      (left_trimmed h.unevaluatedItems hcase) hinner
  | false =>
    -- Nothing is left over for the `unevaluated` keywords, which are not there.
    have hnone : ∀ {o : Option Sem}, (o ≠ none → inner = true) → o = none := by
      intro o himp
      by_contra hne
      rw [himp hne] at hcase
      cases hcase
    have hproperties := hnone fun hne => hinner (.inl hne)
    have hitems := hnone fun hne => hinner (.inr hne)
    have hkeep' : keep = false := by
      cases keep with
      | false => rfl
      | true =>
        rw [hkeep rfl] at hcase
        cases hcase
    rw [hkeep']
    intro hvalid
    have hlooked' := (hlooked (valid_all.mp hvalid _ List.mem_cons_self)).1
    refine ⟨valid_all.mpr
      (List.forall_mem_cons.mpr
        ⟨hlooked', List.forall_mem_cons.mpr ⟨?_, List.forall_mem_singleton.mpr ?_⟩⟩), nofun⟩
    · refine List.all_eq_true.mpr fun e _ => List.all_eq_true.mpr fun s hs => ?_
      rw [hproperties] at hs
      dsimp only [Option.toList_none] at hs
      rw [ite_self] at hs
      cases hs
    · refine List.all_eq_true.mpr fun e _ => List.all_eq_true.mpr fun s hs => ?_
      rw [hitems] at hs
      dsimp only [Option.toList_none] at hs
      rw [ite_self] at hs
      cases hs

end Trim

end JsonSchema
end Aisix
