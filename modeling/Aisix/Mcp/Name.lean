import Mathlib.Data.List.Basic
import Mathlib.Data.String.Basic

/-!
# Aisix.Mcp.Name

Names in the client-facing `<server>__<tool>` form: how they are put together, split and stripped,
and the rule for server names under which the split gives the parts back (`splitOnce_namespaced`).
-/

namespace Aisix
namespace Mcp

section Text

variable {α : Type} [DecidableEq α]

/-- `str::strip_prefix`. -/
def stripPrefix : List α → List α → Option (List α)
  | [], s => some s
  | _ :: _, [] => none
  | p :: ps, c :: s => if p = c then stripPrefix ps s else none

/-- `str::strip_suffix`. -/
def stripSuffix (suffix s : List α) : Option (List α) :=
  (stripPrefix suffix.reverse s.reverse).map List.reverse

/-- `str::split_once`: around the first occurrence of the separator. -/
def splitOnce (sep : List α) : List α → Option (List α × List α)
  | [] => (stripPrefix sep []).map ([], ·)
  | c :: s =>
    match stripPrefix sep (c :: s) with
    | some rest => some ([], rest)
    | none => (splitOnce sep s).map fun parts => (c :: parts.1, parts.2)

/-- `str::rsplit_once`: around the last occurrence. -/
def rsplitOnce (sep s : List α) : Option (List α × List α) :=
  (splitOnce sep.reverse s.reverse).map fun parts => (parts.2.reverse, parts.1.reverse)

theorem stripPrefix_eq_some {p s r : List α} : stripPrefix p s = some r ↔ s = p ++ r := by
  induction p generalizing s with
  | nil => simp [stripPrefix, eq_comm]
  | cons c p ih =>
    cases s with
    | nil => simp [stripPrefix]
    | cons d s =>
      by_cases h : c = d
      · simp [stripPrefix, h, ih]
      · simp [stripPrefix, h, Ne.symm h]

theorem splitOnce_eq_some {sep s a b : List α} (h : splitOnce sep s = some (a, b)) :
    s = a ++ sep ++ b := by
  induction s generalizing a with
  | nil =>
    obtain ⟨r, hr, heq⟩ := Option.map_eq_some_iff.1 h
    obtain ⟨rfl, rfl⟩ := Prod.mk.inj heq
    exact stripPrefix_eq_some.1 hr
  | cons c s ih =>
    rw [splitOnce] at h
    split at h
    · rename_i r hr
      obtain ⟨rfl, rfl⟩ := Prod.mk.inj (Option.some.inj h)
      exact stripPrefix_eq_some.1 hr
    · obtain ⟨parts, hparts, heq⟩ := Option.map_eq_some_iff.1 h
      obtain ⟨rfl, rfl⟩ := Prod.mk.inj heq
      rw [ih hparts]
      rfl

/-- The split is at the first occurrence: what follows any other one is a suffix of what follows it.
-/
theorem exists_splitOnce (sep before after : List α) :
    ∃ a b, splitOnce sep (before ++ (sep ++ after)) = some (a, b) ∧ after <:+ b := by
  induction before with
  | nil =>
    have hstrip : stripPrefix sep (sep ++ after) = some after := stripPrefix_eq_some.2 rfl
    cases hs : sep ++ after with
    | nil =>
      rw [hs] at hstrip
      exact ⟨[], after, by rw [List.nil_append, splitOnce, hstrip]; rfl, List.suffix_rfl⟩
    | cons c s =>
      rw [hs] at hstrip
      exact ⟨[], after, by rw [List.nil_append, splitOnce, hstrip], List.suffix_rfl⟩
  | cons c before ih =>
    rw [List.cons_append, splitOnce]
    cases hstrip : stripPrefix sep (c :: (before ++ (sep ++ after))) with
    | some rest =>
      have hword := stripPrefix_eq_some.1 hstrip
      have hlength := congrArg List.length hword
      simp only [List.length_cons, List.length_append] at hlength
      have hafter : after <:+ sep ++ rest := by
        rw [← hword, ← List.append_assoc, ← List.cons_append]
        exact List.suffix_append _ after
      exact ⟨[], rest, rfl, List.suffix_of_suffix_length_le hafter
        (List.suffix_append sep rest) (by omega)⟩
    | none =>
      obtain ⟨a, b, hsplit, hsuffix⟩ := ih
      exact ⟨c :: a, b, by rw [hsplit]; rfl, hsuffix⟩

theorem splitOnce_eq_none_iff {sep s : List α} : splitOnce sep s = none ↔ ¬ sep <:+: s := by
  constructor
  · rintro h ⟨before, after, rfl⟩
    obtain ⟨a, b, hsplit, -⟩ := exists_splitOnce sep before after
    rw [List.append_assoc, hsplit] at h
    cases h
  · intro h
    cases hsplit : splitOnce sep s with
    | none => rfl
    | some parts => exact absurd ⟨parts.1, parts.2, (splitOnce_eq_some hsplit).symm⟩ h

theorem splitOnce_letter_iff {c : α} {s a b : List α} :
    splitOnce [c] s = some (a, b) ↔ s = a ++ c :: b ∧ c ∉ a := by
  constructor
  · intro h
    have hs := splitOnce_eq_some h
    rw [List.append_assoc, List.singleton_append] at hs
    refine ⟨hs, fun hmem => ?_⟩
    obtain ⟨before, after, rfl⟩ := List.append_of_mem hmem
    obtain ⟨a', b', hsplit, hsuffix⟩ := exists_splitOnce [c] before (after ++ c :: b)
    rw [hs, List.append_assoc, List.cons_append] at h
    rw [List.singleton_append, h] at hsplit
    obtain ⟨-, rfl⟩ := Prod.mk.inj (Option.some.inj hsplit)
    have hlength := hsuffix.length_le
    simp only [List.length_append, List.length_cons] at hlength
    omega
  · rintro ⟨rfl, hmem⟩
    induction a with
    | nil => simp [splitOnce, stripPrefix]
    | cons d a ih =>
      have hd : c ≠ d := fun heq => hmem (heq ▸ List.mem_cons_self)
      have hstrip : stripPrefix [c] (d :: (a ++ c :: b)) = none := by rw [stripPrefix, if_neg hd]
      rw [List.cons_append, splitOnce, hstrip, ih fun hmem' => hmem (List.mem_cons_of_mem d hmem')]
      rfl

theorem rsplitOnce_letter_iff {c : α} {s a b : List α} :
    rsplitOnce [c] s = some (a, b) ↔ s = a ++ c :: b ∧ c ∉ b := by
  rw [rsplitOnce, List.reverse_singleton, Option.map_eq_some_iff]
  constructor
  · rintro ⟨⟨x, y⟩, hsplit, heq⟩
    obtain ⟨rfl, rfl⟩ := Prod.mk.inj heq
    obtain ⟨hs, hmem⟩ := splitOnce_letter_iff.1 hsplit
    refine ⟨List.reverse_injective ?_, by rwa [List.mem_reverse]⟩
    rw [hs]
    simp
  · rintro ⟨rfl, hmem⟩
    exact ⟨(b.reverse, a.reverse),
      splitOnce_letter_iff.2 ⟨by simp, by rwa [List.mem_reverse]⟩, by simp⟩

theorem stripSuffix_eq_some {suffix s r : List α} :
    stripSuffix suffix s = some r ↔ s = r ++ suffix := by
  rw [stripSuffix, Option.map_eq_some_iff]
  constructor
  · rintro ⟨t, ht, rfl⟩
    have hs := congrArg List.reverse (stripPrefix_eq_some.1 ht)
    rwa [List.reverse_reverse, List.reverse_append, List.reverse_reverse] at hs
  · rintro rfl
    exact ⟨r.reverse, stripPrefix_eq_some.2 (List.reverse_append ..), List.reverse_reverse r⟩

end Text

def TOOL_NAMESPACE_SEPARATOR : String := "__"

def namespaced (server tool : String) : String := server ++ TOOL_NAMESPACE_SEPARATOR ++ tool

/-- The read pattern of server names, `^(?:[^_]|_[^_])*$`. -/
def matchesNamePattern : List Char → Bool
  | [] => true
  | [c] => c != '_'
  | c :: d :: rest =>
    if c = '_' then d != '_' && matchesNamePattern rest else matchesNamePattern (d :: rest)

/-- What a server may be called. -/
def ServerName (name : String) : Prop := name ≠ "" ∧ matchesNamePattern name.toList = true

instance (name : String) : Decidable (ServerName name) :=
  inferInstanceAs (Decidable (name ≠ "" ∧ matchesNamePattern name.toList = true))

def splitName (name : String) : Option (String × String) :=
  (splitOnce TOOL_NAMESPACE_SEPARATOR.toList name.toList).map fun parts =>
    (String.ofList parts.1, String.ofList parts.2)

def stripServerPrefix (server name : String) : Option String :=
  ((stripPrefix server.toList name.toList).bind (stripPrefix TOOL_NAMESPACE_SEPARATOR.toList)).map
    String.ofList

theorem toList_namespaced (server tool : String) :
    (namespaced server tool).toList = server.toList ++ '_' :: '_' :: tool.toList := by
  rw [namespaced, String.toList_append, String.toList_append, List.append_assoc]
  rfl

/-- The separator first stands behind a name that follows the rule, whatever the tool is called. -/
theorem splitOnce_of_matches {s t : List Char} (h : matchesNamePattern s = true) :
    splitOnce ['_', '_'] (s ++ '_' :: '_' :: t) = some (s, t) := by
  induction s using matchesNamePattern.induct with
  | case1 => rfl
  | case2 c =>
    have hc : c ≠ '_' := by simpa [matchesNamePattern] using h
    simp [splitOnce, stripPrefix, hc.symm]
  | case3 d rest ih =>
    simp only [matchesNamePattern, if_true, Bool.and_eq_true, bne_iff_ne] at h
    obtain ⟨hd, hrest⟩ := h
    simp [splitOnce, stripPrefix, hd.symm, ih hrest]
  | case4 c d rest hc ih =>
    simp only [matchesNamePattern, if_neg hc] at h
    have := ih h
    simp only [List.cons_append] at this ⊢
    rw [splitOnce, this]
    simp [stripPrefix, Ne.symm hc]

theorem splitName_namespaced {server : String} (h : ServerName server) (tool : String) :
    splitName (namespaced server tool) = some (server, tool) := by
  have hsep : TOOL_NAMESPACE_SEPARATOR.toList = ['_', '_'] := rfl
  rw [splitName, hsep, toList_namespaced, splitOnce_of_matches h.2]
  simp

theorem splitName_eq_some {name server tool : String} (h : splitName name = some (server, tool)) :
    name = namespaced server tool := by
  obtain ⟨⟨a, b⟩, hsplit, heq⟩ := Option.map_eq_some_iff.1 h
  obtain ⟨rfl, rfl⟩ := Prod.mk.inj heq
  refine String.toList_injective ?_
  rw [splitOnce_eq_some hsplit, toList_namespaced, String.toList_ofList, String.toList_ofList,
    List.append_assoc]
  rfl

/-- For any server, `strip_server_prefix` undoes the prefixing and nothing else. -/
theorem stripServerPrefix_eq_some {server name tool : String} :
    stripServerPrefix server name = some tool ↔ name = namespaced server tool := by
  rw [stripServerPrefix, Option.map_eq_some_iff]
  constructor
  · rintro ⟨r, hr, rfl⟩
    obtain ⟨q, hq, hsep⟩ := Option.bind_eq_some_iff.1 hr
    refine String.toList_injective ?_
    rw [stripPrefix_eq_some.1 hq, stripPrefix_eq_some.1 hsep, toList_namespaced,
      String.toList_ofList]
    rfl
  · rintro rfl
    refine ⟨tool.toList, ?_, String.ofList_toList⟩
    rw [Option.bind_eq_some_iff]
    refine ⟨'_' :: '_' :: tool.toList, ?_, ?_⟩
    · rw [stripPrefix_eq_some, toList_namespaced]
    · rw [stripPrefix_eq_some]
      rfl

@[simp] theorem stripServerPrefix_namespaced (server tool : String) :
    stripServerPrefix server (namespaced server tool) = some tool :=
  stripServerPrefix_eq_some.2 rfl

end Mcp
end Aisix
