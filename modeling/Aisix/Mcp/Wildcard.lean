import Aisix.ByteOffsets
import Aisix.Glob
import Aisix.Mcp.Name

/-!
# Aisix.Mcp.Wildcard

The `*` patterns of access lists and model aliases. `wildcard_matches` takes any number of stars and
decides the words of the pattern (`wildcardMatches_iff`); `wildcard_capture` takes one, and answers
with what it stood for.
-/

namespace Aisix
namespace Mcp

open ByteOffsets Glob

/-- The inner literals of a pattern, each at its leftmost occurrence. -/
def matchParts : List (List Char) → List Char → Bool
  | [], _ => true
  | part :: parts, rest =>
    match splitOnce part rest with
    | some (_, rest) => matchParts parts rest
    | none => false

def wildcardMatches (pattern candidate : String) : Bool :=
  match splitOnce ['*'] pattern.toList with
  | none => pattern == candidate
  | some (head, tail) =>
    let (middle, last) := (rsplitOnce ['*'] tail).getD ([], tail)
    match (stripPrefix head candidate.toList).bind (stripSuffix last) with
    | none => false
    | some rest => matchParts ((middle.splitOn '*').filter fun p => !p.isEmpty) rest

/-- What a pattern's only star stood for; the lengths are in bytes. -/
def wildcardCapture (pattern candidate : String) : Option String :=
  match splitOnce ['*'] pattern.toList with
  | none => none
  | some (pre, suffix) =>
    if suffix.contains '*' then none
    else if len candidate.toList < len pre + len suffix then none
    else if pre.isPrefixOf candidate.toList && suffix.isSuffixOf candidate.toList then
      some (String.ofList (upTo (onward candidate.toList (len pre))
        (len candidate.toList - len suffix - len pre)))
    else none

/-- The pattern with the strings in place of its stars, in order. -/
def fillStars (pattern : String) (gaps : List String) : String :=
  String.ofList (fill '*' pattern.toList (gaps.map String.toList))

/-- Taking each piece at its first occurrence finds the pieces in order if they can be found at all.
-/
theorem matchParts_iff (parts : List (List Char)) (rest : List Char) :
    matchParts parts rest = true ↔ Scattered parts rest := by
  induction parts generalizing rest with
  | nil => exact iff_of_true rfl trivial
  | cons part parts ih =>
    rw [matchParts]
    constructor
    · intro h
      split at h
      · next a b hsplit =>
        have hrest := splitOnce_eq_some hsplit
        rw [List.append_assoc] at hrest
        exact ⟨a, b, hrest, (ih b).1 h⟩
      · cases h
    · rintro ⟨g, t, rfl, ht⟩
      obtain ⟨a, b, hsplit, u, rfl⟩ := exists_splitOnce part g t
      rw [hsplit]
      -- what is left has the later pieces: it ends with what was left of the other reading
      exact (ih _).2 (ht.append u)

theorem stripEnds_eq_some {front back s r : List Char} :
    (stripPrefix front s).bind (stripSuffix back) = some r ↔ s = front ++ (r ++ back) := by
  rw [Option.bind_eq_some_iff]
  constructor
  · rintro ⟨t, ht, hr⟩
    rw [stripPrefix_eq_some.1 ht, stripSuffix_eq_some.1 hr]
  · rintro rfl
    exact ⟨r ++ back, stripPrefix_eq_some.2 rfl, stripSuffix_eq_some.2 rfl⟩

theorem matches_of_ends {front back middle s : List Char} (hfront : '*' ∉ front)
    (hback : '*' ∉ back) : Matches '*' (front ++ ('*' :: (middle ++ ['*']) ++ back)) s ↔
      ∃ r, s = front ++ (r ++ back) ∧
        Scattered ((middle.splitOn '*').filter fun p => !p.isEmpty) r := by
  constructor
  · intro h
    obtain ⟨a, b, rfl, ha, hb⟩ := matches_append_iff.1 h
    obtain ⟨r, d, rfl, hr, hd⟩ := matches_append_iff.1 hb
    rw [(matches_literal_iff hfront).1 ha, (matches_literal_iff hback).1 hd]
    exact ⟨r, rfl, (matches_starred_iff middle).1 hr⟩
  · rintro ⟨r, rfl, hr⟩
    exact matches_append_iff.2 ⟨front, r ++ back, rfl, (matches_literal_iff hfront).2 rfl,
      matches_append_iff.2 ⟨r, back, rfl, (matches_starred_iff middle).2 hr,
        (matches_literal_iff hback).2 rfl⟩⟩

theorem notMem_of_splitOnce {s : List Char} {c : Char} (h : splitOnce [c] s = none) : c ∉ s :=
  fun hmem =>
  splitOnce_eq_none_iff.1 h ((List.singleton_infix_iff _ _).2 hmem)

theorem notMem_of_rsplitOnce {s : List Char} {c : Char} (h : rsplitOnce [c] s = none) : c ∉ s :=
  fun hmem =>
  notMem_of_splitOnce (Option.map_eq_none_iff.1 h) (List.mem_reverse.2 hmem)

theorem wildcardMatches_iff_matches (pattern candidate : String) :
    wildcardMatches pattern candidate = true ↔ Matches '*' pattern.toList candidate.toList := by
  unfold wildcardMatches
  cases hsplit : splitOnce ['*'] pattern.toList with
  | none =>
    rw [matches_literal_iff (notMem_of_splitOnce hsplit), String.toList_inj]
    exact beq_iff_eq.trans eq_comm
  | some parts =>
    obtain ⟨front, tail⟩ := parts
    obtain ⟨hpattern, hfront⟩ := splitOnce_letter_iff.1 hsplit
    rw [hpattern]
    dsimp only
    cases hlast : rsplitOnce ['*'] tail with
    | none =>
      rw [matches_single_iff hfront (notMem_of_rsplitOnce hlast)]
      dsimp only [Option.getD_none]
      constructor
      · intro h
        split at h
        · cases h
        · next r hr => exact ⟨r, by rw [stripEnds_eq_some.1 hr, List.append_assoc]⟩
      · rintro ⟨r, hr⟩
        rw [List.append_assoc] at hr
        rw [stripEnds_eq_some.2 hr]
        rfl
    | some parts =>
      obtain ⟨middle, back⟩ := parts
      obtain ⟨rfl, hback⟩ := rsplitOnce_letter_iff.1 hlast
      have hword :
          front ++ '*' :: (middle ++ '*' :: back) = front ++
          ('*' :: (middle ++ ['*']) ++ back) := by simp
      rw [hword, matches_of_ends hfront hback]
      dsimp only [Option.getD_some]
      constructor
      · intro h
        split at h
        · cases h
        · next r hr => exact ⟨r, stripEnds_eq_some.1 hr, (matchParts_iff _ r).1 h⟩
      · rintro ⟨r, hr, hparts⟩
        rw [stripEnds_eq_some.2 hr]
        exact (matchParts_iff _ r).2 hparts

/-- `wildcard_matches` accepts the pattern with any strings in place of its stars, and nothing else.
-/
theorem wildcardMatches_iff (pattern candidate : String) :
    wildcardMatches pattern candidate = true ↔
      ∃ gaps : List String, gaps.length = pattern.toList.count '*' ∧
        candidate = fillStars pattern gaps := by
  rw [wildcardMatches_iff_matches, matches_iff_fill]
  constructor
  · rintro ⟨gaps, hlength, hfill⟩
    refine ⟨gaps.map String.ofList, by rw [List.length_map, hlength], String.toList_injective ?_⟩
    have hgaps : (gaps.map String.ofList).map String.toList = gaps := by
      rw [List.map_map]
      exact (List.map_congr_left fun g _ => String.toList_ofList).trans (List.map_id gaps)
    rw [fillStars, String.toList_ofList, hgaps, hfill]
  · rintro ⟨gaps, hlength, rfl⟩
    exact ⟨gaps.map String.toList, by rw [List.length_map, hlength], String.toList_ofList⟩

/-! ### One star -/

theorem slice_ends (front r back : List Char) :
    upTo (onward (front ++ (r ++ back)) (len front))
      (len (front ++ (r ++ back)) - len back - len front) = r := by
  have hfront : onward (front ++ (r ++ back)) (len front) = r ++ back := by
    have hoffset := onward_offset (front ++ (r ++ back)) front.length
    rwa [offset, List.take_left, List.drop_left] at hoffset
  have hr : upTo (r ++ back) (len r) = r := by
    have hoffset := upTo_offset (r ++ back) r.length
    rwa [offset, List.take_left] at hoffset
  rw [hfront, len_append, len_append]
  have hlen : len front + (len r + len back) - len back - len front = len r := by omega
  rw [hlen, hr]

theorem exists_between {front back s : List Char} (hfront : front <+: s) (hback : back <:+ s)
    (hroom : len front + len back ≤ len s) : ∃ r, s = front ++ (r ++ back) := by
  obtain ⟨rest, rfl⟩ := hfront
  rw [len_append] at hroom
  obtain ⟨lead, hlead⟩ := hback
  rcases List.append_eq_append_iff.1 hlead with ⟨u, rfl, rfl⟩ | ⟨u, rfl, hrest⟩
  · -- the suffix would begin inside the prefix
    have hlength := length_le_len u
    simp only [len_append] at hroom
    have hu : u = [] := List.length_eq_zero_iff.1 (by omega)
    exact ⟨[], by rw [hu]; rfl⟩
  · exact ⟨u, by rw [hrest]⟩

theorem exists_of_count_eq_one {s : List Char} (h : s.count '*' = 1) :
    ∃ front back, s = front ++ '*' :: back ∧ '*' ∉ front ∧ '*' ∉ back := by
  obtain ⟨front, back, rfl, hfront⟩ :=
    List.eq_append_cons_of_mem (List.count_pos_iff.1 (by omega : 0 < s.count '*'))
  refine ⟨front, back, rfl, hfront, List.count_eq_zero.1 ?_⟩
  rw [List.count_append, List.count_cons_self] at h
  omega

theorem fillStars_single {pattern : String} {front back : List Char}
    (h : pattern.toList = front ++ '*' :: back) (hfront : '*' ∉ front) (hback : '*' ∉ back)
    (g : String) :
    (fillStars pattern [g]).toList = front ++ (g.toList ++ back) := by
  rw [fillStars, String.toList_ofList, h]
  exact (fill_single hfront hback g.toList).trans (List.append_assoc ..)

/-- `wildcard_capture` answers with the string that makes the candidate of a pattern with one star.
-/
theorem wildcardCapture_eq_some {pattern candidate capture : String} :
    wildcardCapture pattern candidate = some capture ↔
      pattern.toList.count '*' = 1 ∧ candidate = fillStars pattern [capture] := by
  constructor
  · intro h
    unfold wildcardCapture at h
    split at h
    · cases h
    · next front back hsplit =>
      obtain ⟨hpattern, hfront⟩ := splitOnce_letter_iff.1 hsplit
      split at h
      · cases h
      · next hstar =>
        have hback : '*' ∉ back := fun hmem => hstar (List.contains_iff_mem.2 hmem)
        split at h
        · cases h
        · next hroom =>
          split at h
          · next hends =>
            obtain ⟨hpre, hsuf⟩ := Bool.and_eq_true_iff.1 hends
            obtain ⟨r, hr⟩ :=
              exists_between (List.isPrefixOf_iff_prefix.1 hpre) (List.isSuffixOf_iff_suffix.1 hsuf)
              (Nat.le_of_not_lt hroom)
            rw [hr, slice_ends] at h
            refine ⟨?_, String.toList_injective ?_⟩
            · rw [hpattern, List.count_append, List.count_cons_self, List.count_eq_zero.2 hfront,
                List.count_eq_zero.2 hback]
            · rw [fillStars_single hpattern hfront hback, ← Option.some.inj h,
                String.toList_ofList, hr]
          · cases h
  · rintro ⟨hcount, rfl⟩
    obtain ⟨front, back, hpattern, hfront, hback⟩ := exists_of_count_eq_one hcount
    unfold wildcardCapture
    rw [splitOnce_letter_iff.2 ⟨hpattern, hfront⟩, fillStars_single hpattern hfront hback]
    dsimp only
    rw [if_neg (by rw [List.contains_iff_mem]; exact hback),
      if_neg (by simp only [len_append]; omega), if_pos, slice_ends, String.ofList_toList]
    rw [Bool.and_eq_true_iff, List.isPrefixOf_iff_prefix, List.isSuffixOf_iff_suffix]
    exact ⟨List.prefix_append _ _, (List.suffix_append _ _).trans (List.suffix_append _ _)⟩

theorem isSome_wildcardCapture {pattern : String} (h : pattern.toList.count '*' = 1)
    (candidate : String) :
    (wildcardCapture pattern candidate).isSome = wildcardMatches pattern candidate := by
  rw [Bool.eq_iff_iff, Option.isSome_iff_exists, wildcardMatches_iff]
  constructor
  · rintro ⟨capture, hcapture⟩
    exact ⟨[capture], h.symm, (wildcardCapture_eq_some.1 hcapture).2⟩
  · rintro ⟨gaps, hlength, hfill⟩
    obtain ⟨capture, rfl⟩ := List.length_eq_one_iff.1 (hlength.trans h)
    exact ⟨capture, wildcardCapture_eq_some.2 ⟨h, hfill⟩⟩

end Mcp
end Aisix
