import Aisix.ResourceTable.Indices
import Mathlib.Data.Prod.Lex
import Mathlib.Data.String.Basic

/-!
# Aisix.Pricing.Index

The prices by key, made of the pricing tables of a snapshot: of several documents with one key the
latest written wins (`flatten_eq_some_iff`), whatever order a table lists them in.
-/

namespace Aisix
namespace Pricing

open Etcd

/-- A pricing document; a price is the bits of a float. -/
structure Pricing where
  key : String
  inputPer1k : UInt64
  outputPer1k : UInt64
  deriving DecidableEq

abbrev Entry := ResourceEntry Pricing

structure ModelCost where
  inputPer1k : UInt64
  outputPer1k : UInt64
  cachedInputPer1k : Option UInt64
  cacheWritePer1k : Option UInt64
  deriving DecidableEq

/-- A document carries no cache rates. -/
def costOf (p : Pricing) : ModelCost := ⟨p.inputPer1k, p.outputPer1k, none, none⟩

/-- A price with the revision and the id it won with. -/
structure Candidate where
  revision : Int
  id : String
  cost : ModelCost
  deriving DecidableEq

namespace Candidate

def of (entry : Entry) : Candidate := ⟨entry.revision, entry.id, costOf entry.value⟩

def rank (c : Candidate) : Int ×ₗ String := toLex (c.revision, c.id)

end Candidate

abbrev Flat := String → Option Candidate

def flattenStep (out : Flat) (entry : Entry) : Flat :=
  let candidate := Candidate.of entry
  match out entry.value.key with
  | some current =>
    if candidate.rank ≤ current.rank then out
    else Function.update out entry.value.key (some candidate)
  | none => Function.update out entry.value.key (some candidate)

/-- One table's prices by key. -/
def flatten (entries : List Entry) : Flat := entries.foldl flattenStep fun _ => none

structure PricingIndex where
  byKey : String → Option ModelCost

namespace PricingIndex

/-- The global prices, and over them those of the environment. -/
def build (entries globalEntries : List Entry) : PricingIndex where
  byKey key := ((flatten entries key).map (·.cost)).or ((flatten globalEntries key).map (·.cost))

def get (index : PricingIndex) (key : String) : Option ModelCost := index.byKey key

end PricingIndex

/-! ### Which document wins -/

/-- The document with the greatest revision, and of these with the greatest id, among those with the
key. -/
structure Greatest (entries : List Entry) (key : String) (e : Entry) : Prop where
  mem : e ∈ entries
  keyed : e.value.key = key
  max : ∀ e' ∈ entries, e'.value.key = key → (Candidate.of e').rank ≤ (Candidate.of e).rank

/-- What has been kept so far under a key. -/
def Kept (entries : List Entry) (key : String) : Option Candidate → Prop
  | none => ∀ e ∈ entries, e.value.key ≠ key
  | some c => ∃ e, Greatest entries key e ∧ c = .of e

theorem kept_flattenStep {entries : List Entry} {out : Flat} (h : ∀ key, Kept entries key (out key))
    (entry : Entry) (key : String) : Kept (entries ++ [entry]) key (flattenStep out entry key) := by
  have hother : ∀ {c}, Kept entries key c → key ≠ entry.value.key →
      Kept (entries ++ [entry]) key c := by
    intro c hkept hkey
    cases c with
    | none =>
      intro e he
      rcases List.mem_append.mp he with he | he
      · exact hkept e he
      · rw [List.mem_singleton.mp he]
        exact hkey.symm
    | some c =>
      obtain ⟨e, hgreatest, rfl⟩ := hkept
      refine ⟨e, ⟨List.mem_append_left _ hgreatest.mem, hgreatest.keyed, fun e' he' hkey' => ?_⟩,
        rfl⟩
      rcases List.mem_append.mp he' with he' | he'
      · exact hgreatest.max e' he' hkey'
      · rw [List.mem_singleton.mp he'] at hkey'
        exact absurd hkey'.symm hkey
  have hnew :
      (∀ e ∈ entries, e.value.key = entry.value.key →
        (Candidate.of e).rank ≤ (Candidate.of entry).rank) →
      Kept (entries ++ [entry]) key
        (Function.update out entry.value.key (some (.of entry)) key) := by
    intro hmax
    by_cases hkey : key = entry.value.key
    · subst hkey
      rw [Function.update_self]
      refine ⟨entry,
        ⟨List.mem_append_right _ (List.mem_singleton_self _), rfl, fun e' he' hkey' => ?_⟩, rfl⟩
      rcases List.mem_append.mp he' with he' | he'
      · exact hmax e' he' hkey'
      · rw [List.mem_singleton.mp he']
    · rw [Function.update_of_ne hkey]
      exact hother (h key) hkey
  unfold flattenStep
  have hown := h entry.value.key
  cases hout : out entry.value.key with
  | none =>
    rw [hout] at hown
    exact hnew fun e he hkey => absurd hkey (hown e he)
  | some current =>
    rw [hout] at hown
    obtain ⟨e, hgreatest, rfl⟩ := hown
    dsimp only
    split
    · next hle =>
      by_cases hkey : key = entry.value.key
      · subst hkey
        rw [hout]
        refine ⟨e, ⟨List.mem_append_left _ hgreatest.mem, hgreatest.keyed, fun e' he' hkey' => ?_⟩,
          rfl⟩
        rcases List.mem_append.mp he' with he' | he'
        · exact hgreatest.max e' he' hkey'
        · rw [List.mem_singleton.mp he']
          exact hle
      · exact hother (h key) hkey
    · next hlt =>
      exact hnew fun e' he' hkey => (hgreatest.max e' he' hkey).trans (le_of_not_ge hlt)

theorem kept_flatten (entries : List Entry) (key : String) :
    Kept entries key (flatten entries key) := by
  induction entries using List.reverseRecOn generalizing key with
  | nil =>
    intro e he
    cases he
  | append_singleton entries entry ih =>
    unfold flatten
    rw [List.foldl_concat]
    exact kept_flattenStep ih entry key

theorem Greatest.unique {entries : List Entry} {key : String} {e e' : Entry}
    (hnodup : (entries.map (·.id)).Nodup) (h : Greatest entries key e)
    (h' : Greatest entries key e') : e = e' := by
  have hrank := le_antisymm (h'.max e h.mem h.keyed) (h.max e' h'.mem h'.keyed)
  exact List.inj_on_of_nodup_map hnodup h.mem h'.mem (Prod.ext_iff.mp (toLex_inj.mp hrank)).2

theorem flatten_eq_some_iff {entries : List Entry} (hnodup : (entries.map (·.id)).Nodup)
    {key : String} {c : Candidate} :
    flatten entries key = some c ↔ ∃ e, Greatest entries key e ∧ c = .of e := by
  have hkept := kept_flatten entries key
  constructor
  · intro h
    rw [h] at hkept
    exact hkept
  · rintro ⟨e, hgreatest, rfl⟩
    cases h : flatten entries key with
    | none =>
      rw [h] at hkept
      exact absurd hgreatest.keyed (hkept e hgreatest.mem)
    | some c =>
      rw [h] at hkept
      obtain ⟨e', hgreatest', rfl⟩ := hkept
      rw [hgreatest'.unique hnodup hgreatest]

theorem flatten_eq_none_iff {entries : List Entry} {key : String} :
    flatten entries key = none ↔ ∀ e ∈ entries, e.value.key ≠ key := by
  have hkept := kept_flatten entries key
  constructor
  · intro h
    rw [h] at hkept
    exact hkept
  · intro hnone
    cases h : flatten entries key with
    | none => rfl
    | some c =>
      rw [h] at hkept
      obtain ⟨e, hgreatest, -⟩ := hkept
      exact absurd hgreatest.keyed (hnone e hgreatest.mem)

theorem Greatest.perm {entries entries' : List Entry} {key : String} {e : Entry}
    (h : Greatest entries key e) (hperm : entries.Perm entries') : Greatest entries' key e :=
  ⟨hperm.mem_iff.mp h.mem, h.keyed, fun e' he' => h.max e' (hperm.mem_iff.mpr he')⟩

theorem flatten_perm {entries entries' : List Entry} (hnodup : (entries.map (·.id)).Nodup)
    (hperm : entries.Perm entries') : flatten entries = flatten entries' := by
  funext key
  have hnodup' : (entries'.map (·.id)).Nodup := (hperm.map _).nodup_iff.mp hnodup
  refine Option.ext fun c => ?_
  rw [flatten_eq_some_iff hnodup, flatten_eq_some_iff hnodup']
  constructor
  · rintro ⟨e, h, rfl⟩
    exact ⟨e, h.perm hperm, rfl⟩
  · rintro ⟨e, h, rfl⟩
    exact ⟨e, h.perm hperm.symm, rfl⟩

namespace PricingIndex

variable {entries entries' globalEntries globalEntries' : List Entry}

theorem build_perm (hnodup : (entries.map (·.id)).Nodup)
    (hnodup' : (globalEntries.map (·.id)).Nodup) (hperm : entries.Perm entries')
    (hperm' : globalEntries.Perm globalEntries') :
    build entries globalEntries = build entries' globalEntries' := by
  unfold build
  rw [flatten_perm hnodup hperm, flatten_perm hnodup' hperm']

/-- A key has the price of its latest document in the environment, or else of its latest global one.
-/
theorem get_build_eq_some_iff (hnodup : (entries.map (·.id)).Nodup)
    (hnodup' : (globalEntries.map (·.id)).Nodup) {key : String} {cost : ModelCost} :
    (build entries globalEntries).get key = some cost ↔
      (∃ e, Greatest entries key e ∧ cost = costOf e.value) ∨
        (∀ e ∈ entries, e.value.key ≠ key) ∧ ∃ e, Greatest globalEntries key e ∧
          cost = costOf e.value := by
  have hcost : ∀ {rows : List Entry}, (rows.map (·.id)).Nodup →
      ((flatten rows key).map (·.cost) = some cost ↔ ∃ e, Greatest rows key e ∧
        cost = costOf e.value) := by
    intro rows hrows
    rw [Option.map_eq_some_iff]
    constructor
    · rintro ⟨c, hc, rfl⟩
      obtain ⟨e, hgreatest, rfl⟩ := (flatten_eq_some_iff hrows).mp hc
      exact ⟨e, hgreatest, rfl⟩
    · rintro ⟨e, hgreatest, rfl⟩
      exact ⟨.of e, (flatten_eq_some_iff hrows).mpr ⟨e, hgreatest, rfl⟩, rfl⟩
  unfold get build
  rw [Option.or_eq_some_iff, hcost hnodup, hcost hnodup', Option.map_eq_none_iff,
    flatten_eq_none_iff]

end PricingIndex

end Pricing
end Aisix
