import Aisix.Least
import Aisix.Mcp.Wildcard
import Aisix.ResourceTable.Indices
import Mathlib.Data.Prod.Lex
import Mathlib.Data.String.Basic

/-!
# Aisix.ModelResolve

The row of the model table that serves a requested name (`resolve_model`): the row of that name, or
else the most specific alias with one `*` that covers it.
-/

namespace Aisix
namespace ModelResolve

open Etcd Mcp ResourceTable

/-- What resolution reads of a model; the three kinds below have no upstream of their own. -/
structure Model where
  displayName : String
  modelName : Option String
  isRouting : Bool
  isEnsemble : Bool
  isSemantic : Bool
  deriving DecidableEq

abbrev Row := ResourceEntry Model

def isDirect (model : Model) : Bool := !(model.isRouting || model.isEnsemble || model.isSemantic)

/-- The model table, with its wildcard rows in the order in which the map lists them. -/
structure ModelTable extends ResourceTable Model Model.displayName where
  wildcardEntries : List Row
  tracked : wildcardEntries.Perm (rows.filter fun e => Indices.isWildcard e.value.displayName)

/-- The upstream name for what the alias's star stood for. -/
def resolveUpstreamModelName (model : Model) (capture : String) : String :=
  match model.modelName with
  | some t =>
    match splitOnce ['*'] t.toList with
    | some (front, back) => String.ofList front ++ capture ++ String.ofList back
    | none => t
  | none => capture

/-- The more literal text, the more specific. -/
def specificity (model : Model) : Nat := model.displayName.utf8ByteSize - 1

/-- One row of the loop in `best_wildcard_row`. -/
def consider (requested : String) (best : Option (Nat × Row × String)) (entry : Row) :
    Option (Nat × Row × String) :=
  let model := entry.value
  if model.isRouting || model.isEnsemble || model.isSemantic then best
  else
    match wildcardCapture model.displayName requested with
    | none => best
    | some capture =>
      let wins :=
        match best with
        | none => true
        | some (s, e, _) => specificity model > s || (specificity model == s && entry.id < e.id)
      if wins then some (specificity model, entry, resolveUpstreamModelName model capture) else best

def bestWildcardRow (t : ModelTable) (requested : String) : Option (Row × String) :=
  (t.wildcardEntries.foldl (consider requested) none).map fun best => best.2

/-- The row that serves a name; an alias comes with the upstream name filled in. -/
def resolveModel (t : ModelTable) (requested : String) : Option Row :=
  match t.getByName requested with
  | some exact => some exact
  | none => (bestWildcardRow t requested).map fun (entry, upstream) =>
    { entry with value := { entry.value with modelName := some upstream } }

def rowServesName (model : Model) (requested : String) : Bool :=
  if model.isRouting || model.isEnsemble || model.isSemantic then false
  else model.displayName == requested ||
    (Indices.isWildcard model.displayName && (wildcardCapture model.displayName requested).isSome)

def wildcardUpstreamModel (row : Model) (requested : String) : Option String :=
  (wildcardCapture row.displayName requested).map (resolveUpstreamModelName row)

/-- The table that the maps show, however the wildcard map is iterated. -/
def ModelTable.ofIndices {t : Indices Model} {r : ResourceTable Model Model.displayName}
    (h : Indices.Shows t r)
    {order : List Row} (horder : order.Perm t.wildcardEntries) : ModelTable where
  toResourceTable := r
  wildcardEntries := order
  tracked := by
    have hkeyed : ∀ id e, t.wildcards.lookup id = some e → e.id = id :=
      fun id e he => h.keyed id e ((h.wildcards id e).1 he).1
    have hnodup : t.wildcardEntries.Nodup := by
      rw [Indices.wildcardEntries_eq]
      exact (KeyMap.nodup_map_values hkeyed).of_map
    refine horder.trans
      ((List.perm_ext_iff_of_nodup hnodup (r.nodup.of_map.filter _)).2 fun e => ?_)
    rw [Indices.wildcardEntries_eq, KeyMap.mem_values, List.mem_filter, ← h.rows, Indices.stored,
      KeyMap.mem_values]
    simp only [h.wildcards, exists_and_right]

/-! ### The most specific alias -/

/-- A direct row with an alias that covers the name. -/
structure Covers (requested : String) (model : Model) : Prop where
  direct : isDirect model = true
  one_star : model.displayName.toList.count '*' = 1
  fills : ∃ g, requested = fillStars model.displayName [g]

/-- Among the rows that cover the name, the longest alias, and of these the lowest id. -/
structure Best (t : ModelTable) (requested : String) (e : Row) : Prop where
  mem : e ∈ t.rows
  covers : Covers requested e.value
  first : ∀ e' ∈ t.rows, Covers requested e'.value →
    e'.value.displayName.utf8ByteSize < e.value.displayName.utf8ByteSize ∨
      (e'.value.displayName.utf8ByteSize = e.value.displayName.utf8ByteSize ∧ e.id ≤ e'.id)

def isCovered (requested : String) (e : Row) : Bool :=
  isDirect e.value && (wildcardCapture e.value.displayName requested).isSome

/-- What the loop keeps of a row. -/
def ranked (requested : String) (e : Row) : Nat × Row × String :=
  (specificity e.value, e, (wildcardUpstreamModel e.value requested).getD "")

/-- Smaller for more literal text, and then for a lower id. -/
def rank (e : Row) : ℕᵒᵈ ×ₗ String := toLex (OrderDual.toDual (specificity e.value), e.id)

theorem isCovered_iff {requested : String} {e : Row} :
    isCovered requested e = true ↔ Covers requested e.value := by
  rw [isCovered, Bool.and_eq_true, Option.isSome_iff_exists]
  constructor
  · rintro ⟨hdirect, capture, hcapture⟩
    obtain ⟨hstar, hfill⟩ := wildcardCapture_eq_some.1 hcapture
    exact ⟨hdirect, hstar, capture, hfill⟩
  · rintro ⟨hdirect, hstar, g, hfill⟩
    exact ⟨hdirect, g, wildcardCapture_eq_some.2 ⟨hstar, hfill⟩⟩

theorem rank_lt_iff {e e' : Row} :
    rank e < rank e' ↔ specificity e.value > specificity e'.value ∨
      (specificity e.value = specificity e'.value ∧ e.id < e'.id) := by
  rw [rank, rank, Prod.Lex.toLex_lt_toLex]
  rfl

theorem consider_map (requested : String) (best : Option Row) (e : Row) :
    consider requested (best.map (ranked requested)) e =
      (if isCovered requested e then List.argAux (fun x y => rank x < rank y) best e else best).map
      (ranked requested) := by
  unfold consider isCovered isDirect
  dsimp only
  split
  · next hkind => simp [hkind]
  · next hkind =>
    cases hcapture : wildcardCapture e.value.displayName requested with
    | none => simp
    | some capture =>
      have hranked : (specificity e.value, e, resolveUpstreamModelName e.value capture) =
          ranked requested e := by
        rw [ranked, wildcardUpstreamModel, hcapture]
        rfl
      simp only [Bool.not_eq_true] at hkind
      simp only [hkind, Bool.not_false, Option.isSome_some, Bool.and_self, if_true, hranked]
      cases best with
      | none => rfl
      | some e' =>
        have hwins : (specificity e.value > specificity e'.value ||
            (specificity e.value == specificity e'.value && decide (e.id < e'.id))) = true ↔
              rank e < rank e' := by
          rw [rank_lt_iff]
          simp
        dsimp only [Option.map_some, List.argAux, ranked]
        by_cases hlt : rank e < rank e'
        · rw [if_pos hlt]
          exact if_pos (hwins.2 hlt)
        · rw [if_neg hlt]
          exact if_neg (mt hwins.1 hlt)

theorem foldl_consider (requested : String) (entries : List Row) (best : Option Row) :
    entries.foldl (consider requested) (best.map (ranked requested)) =
      ((entries.filter (isCovered requested)).foldl (List.argAux fun x y => rank x < rank y)
      best).map (ranked requested) := by
  induction entries generalizing best with
  | nil => rfl
  | cons e entries ih =>
    rw [List.foldl_cons, consider_map, ih, List.filter_cons]
    split <;> rfl

theorem bestWildcardRow_eq (t : ModelTable) (requested : String) :
    bestWildcardRow t requested =
      ((t.wildcardEntries.filter (isCovered requested)).argmin rank).map fun e =>
      (e, (wildcardUpstreamModel e.value requested).getD "") := by
  have hfold := foldl_consider requested t.wildcardEntries none
  rw [Option.map_none] at hfold
  rw [bestWildcardRow, hfold, Option.map_map]
  rfl

theorem isWildcard_of_covers {requested : String} {model : Model} (h : Covers requested model) :
    Indices.isWildcard model.displayName = true := by
  rw [Indices.isWildcard, List.contains_iff_mem]
  exact List.count_pos_iff.1 (by rw [h.one_star]; exact Nat.one_pos)

theorem mem_covered_iff {t : ModelTable} {requested : String} {e : Row} :
    e ∈ t.wildcardEntries.filter (isCovered requested) ↔ e ∈ t.rows ∧ Covers requested e.value := by
  rw [List.mem_filter, t.tracked.mem_iff, List.mem_filter, isCovered_iff]
  constructor
  · rintro ⟨⟨hmem, -⟩, hcovers⟩
    exact ⟨hmem, hcovers⟩
  · rintro ⟨hmem, hcovers⟩
    exact ⟨⟨hmem, isWildcard_of_covers hcovers⟩, hcovers⟩

theorem rank_le_iff {requested : String} {e e' : Row} (h : Covers requested e.value)
    (h' : Covers requested e'.value) :
    rank e ≤ rank e' ↔ e'.value.displayName.utf8ByteSize < e.value.displayName.utf8ByteSize ∨
      (e'.value.displayName.utf8ByteSize = e.value.displayName.utf8ByteSize ∧ e.id ≤ e'.id) := by
  have hpos : ∀ {m : Model}, Covers requested m → 0 < m.displayName.utf8ByteSize := by
    intro m hm
    refine Nat.pos_of_ne_zero fun hzero => ?_
    have hone := hm.one_star
    rw [String.utf8ByteSize_eq_zero_iff.1 hzero] at hone
    cases hone
  have hsize := hpos h
  have hsize' := hpos h'
  rw [rank, rank, Prod.Lex.toLex_le_toLex]
  change specificity e'.value < specificity e.value ∨ specificity e.value = specificity e'.value ∧
      e.id ≤ e'.id ↔ _
  unfold specificity
  constructor
  · rintro (hlt | ⟨heq, hid⟩)
    · exact .inl (by omega)
    · exact .inr ⟨by omega, hid⟩
  · rintro (hlt | ⟨heq, hid⟩)
    · exact .inl (by omega)
    · exact .inr ⟨by omega, hid⟩

theorem argmin_eq_some_iff (t : ModelTable) (requested : String) (e : Row) :
    (t.wildcardEntries.filter (isCovered requested)).argmin rank = some e ↔ Best t requested e := by
  rw [Least.argmin_eq_some_iff, mem_covered_iff]
  · constructor
    · rintro ⟨⟨hmem, hcovers⟩, hleast⟩
      exact ⟨hmem, hcovers, fun e' hmem' hcovers' =>
        (rank_le_iff hcovers hcovers').1 (hleast e' (mem_covered_iff.2 ⟨hmem', hcovers'⟩))⟩
    · intro h
      refine ⟨⟨h.mem, h.covers⟩, fun e' he' => ?_⟩
      obtain ⟨hmem', hcovers'⟩ := mem_covered_iff.1 he'
      exact (rank_le_iff h.covers hcovers').2 (h.first e' hmem' hcovers')
  · intro a ha b hb heq
    have hid : a.id = b.id := congrArg (fun r : ℕᵒᵈ ×ₗ String => (ofLex r).2) heq
    exact ResourceTable.eq_of_id (mem_covered_iff.1 ha).1 (mem_covered_iff.1 hb).1 hid

theorem wildcardUpstreamModel_of_covers {requested : String} {model : Model}
    (h : Covers requested model) :
    wildcardUpstreamModel model requested =
      some ((wildcardUpstreamModel model requested).getD "") := by
  obtain ⟨g, hfill⟩ := h.fills
  rw [wildcardUpstreamModel, wildcardCapture_eq_some.2 ⟨h.one_star, hfill⟩]
  rfl

theorem bestWildcardRow_eq_some_iff {t : ModelTable} {requested : String} {e : Row}
    {upstream : String} : bestWildcardRow t requested = some (e, upstream) ↔
      Best t requested e ∧ wildcardUpstreamModel e.value requested = some upstream := by
  rw [bestWildcardRow_eq, Option.map_eq_some_iff]
  constructor
  · rintro ⟨e', hmin, heq⟩
    obtain ⟨rfl, rfl⟩ := Prod.mk.inj heq
    have hbest := (argmin_eq_some_iff t requested e').1 hmin
    exact ⟨hbest, wildcardUpstreamModel_of_covers hbest.covers⟩
  · rintro ⟨hbest, hupstream⟩
    exact ⟨e, (argmin_eq_some_iff t requested e).2 hbest, by rw [hupstream]; rfl⟩

theorem bestWildcardRow_eq_none_iff {t : ModelTable} {requested : String} :
    bestWildcardRow t requested = none ↔ ∀ e ∈ t.rows, ¬ Covers requested e.value := by
  rw [bestWildcardRow_eq, Option.map_eq_none_iff, List.argmin_eq_none,
    List.eq_nil_iff_forall_not_mem]
  simp only [mem_covered_iff, not_and]

/-! ### Resolution -/

theorem rowServesName_of_covers {requested : String} {model : Model} (h : Covers requested model)
    (upstream : Option String) :
    rowServesName { model with modelName := upstream } requested = true := by
  obtain ⟨g, hfill⟩ := h.fills
  have hdirect : (model.isRouting || model.isEnsemble || model.isSemantic) = false := by
    rw [← Bool.not_eq_true']
    exact h.direct
  rw [rowServesName, if_neg (by rw [hdirect]; decide), isWildcard_of_covers h,
    wildcardCapture_eq_some.2 ⟨h.one_star, hfill⟩]
  exact Bool.or_true _

theorem rowServesName_self (model : Model) :
    rowServesName model model.displayName = isDirect model := by
  rw [rowServesName, isDirect, beq_self_eq_true, Bool.true_or]
  cases model.isRouting || model.isEnsemble || model.isSemantic <;> rfl

theorem resolveModel_exact {t : ModelTable} {requested : String} {e : Row}
    (h : t.getByName requested = some e) :
    resolveModel t requested = some e ∧ rowServesName e.value requested = isDirect e.value := by
  refine ⟨by rw [resolveModel, h], ?_⟩
  rw [← ResourceTable.name_of_getByName h]
  exact rowServesName_self e.value

theorem resolveModel_alias {t : ModelTable} {requested : String} (h : t.getByName requested = none)
    (r : Row) :
    resolveModel t requested = some r ↔ ∃ e, Best t requested e ∧
      r =
        { e with value := { e.value with modelName := wildcardUpstreamModel e.value requested }
        } := by
  rw [resolveModel, h]
  dsimp only
  rw [Option.map_eq_some_iff]
  constructor
  · rintro ⟨⟨e, upstream⟩, hrow, rfl⟩
    obtain ⟨hbest, hupstream⟩ := bestWildcardRow_eq_some_iff.1 hrow
    exact ⟨e, hbest, by rw [hupstream]⟩
  · rintro ⟨e, hbest, rfl⟩
    have hupstream := wildcardUpstreamModel_of_covers hbest.covers
    exact ⟨(e, _), bestWildcardRow_eq_some_iff.2 ⟨hbest, hupstream⟩, by rw [hupstream]; rfl⟩

theorem resolveModel_none {t : ModelTable} {requested : String} (h : t.getByName requested = none) :
    resolveModel t requested = none ↔ ∀ e ∈ t.rows, ¬ Covers requested e.value := by
  rw [resolveModel, h]
  dsimp only
  rw [Option.map_eq_none_iff, bestWildcardRow_eq_none_iff]

/-- Patterns decide their words, and a name is served by its own row, or else by the best alias that
covers it, with the upstream name filled in. -/
theorem resolveModel_spec :
    (∀ pattern candidate, wildcardMatches pattern candidate = true ↔
      ∃ gaps : List String, gaps.length = pattern.toList.count '*' ∧
        candidate = fillStars pattern gaps) ∧
    (∀ pattern candidate, pattern.toList.count '*' = 1 →
      (wildcardCapture pattern candidate).isSome = wildcardMatches pattern candidate ∧
        ∀ capture, wildcardCapture pattern candidate = some capture →
          fillStars pattern [capture] = candidate) ∧
    ∀ (t : ModelTable) (requested : String),
      (t.Complete → ∀ e ∈ t.rows, e.value.displayName = requested →
        ∃ exact, t.getByName requested = some exact) ∧
      (∀ e, t.getByName requested = some e → e ∈ t.rows ∧ e.value.displayName = requested ∧
        resolveModel t requested = some e ∧ rowServesName e.value requested = isDirect e.value) ∧
      (t.getByName requested = none →
        (∀ r, resolveModel t requested = some r ↔ ∃ e, Best t requested e ∧
          r =
            { e with value := { e.value with modelName := wildcardUpstreamModel e.value requested }
              }) ∧
        (∀ e, Best t requested e → (wildcardUpstreamModel e.value requested).isSome ∧
          ∀ upstream, rowServesName { e.value with modelName := upstream } requested = true) ∧
        (resolveModel t requested = none ↔ ∀ e ∈ t.rows, ¬ Covers requested e.value)) := by
  refine ⟨wildcardMatches_iff,
    fun pattern candidate hstar => ⟨isSome_wildcardCapture hstar candidate, ?_⟩,
    fun t requested => ⟨?_, ?_, ?_⟩⟩
  · intro capture hcapture
    exact (wildcardCapture_eq_some.1 hcapture).2.symm
  · rintro hcomplete e he rfl
    obtain ⟨id, hid⟩ := hcomplete e he
    obtain ⟨exact, hexact, rfl, -⟩ := t.owned _ _ hid
    exact ⟨exact, ResourceTable.getByName_eq_some.2 ⟨hexact, hid⟩⟩
  · intro e he
    exact ⟨(ResourceTable.getByName_eq_some.1 he).1, ResourceTable.name_of_getByName he,
      resolveModel_exact he⟩
  · intro hnone
    refine ⟨resolveModel_alias hnone, fun e hbest => ⟨?_, rowServesName_of_covers hbest.covers⟩,
      resolveModel_none hnone⟩
    rw [wildcardUpstreamModel_of_covers hbest.covers]
    rfl

/-- One routing group. -/
def routingTable : ModelTable where
  toResourceTable := ResourceTable.empty.insert ⟨"m1", ⟨"pool", none, true, false, false⟩, 1⟩
  wildcardEntries := []
  tracked := .refl _

/-- A routing group is found by its name, but is no row that `row_serves_name` vouches for. -/
theorem routing_row_not_served :
    resolveModel routingTable "pool" = some ⟨"m1", ⟨"pool", none, true, false, false⟩, 1⟩ ∧
      rowServesName ⟨"pool", none, true, false, false⟩ "pool" = false := by
  decide

end ModelResolve
end Aisix
