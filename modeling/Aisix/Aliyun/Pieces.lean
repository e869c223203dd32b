import Aisix.ByteOffsets

/-!
# Aisix.Aliyun.Pieces

The pieces one moderation check sends: the text cut from its end backwards into overlapping byte
ranges, while the call budget lasts.
-/

namespace Aisix
namespace Aliyun

open ByteOffsets

/-- Characters shared by consecutive pieces of one check. -/
def PIECE_OVERLAP_CHARS : Nat := 128

/-- Most calls one check makes. -/
def MAX_CALLS_PER_CHECK : Nat := 16

inductive PiecePlan where
  /-- Byte ranges into the text, newest first. Text before `uncheckedBytes` is covered by no piece.
  -/
  | pieces (ranges : List (Nat × Nat)) (uncheckedBytes : Nat)
  | tooLong
  deriving DecidableEq, Repr

/-- `maxChars` characters back from `stop`, or the start of the text. -/
def pieceStart (text : List Char) (maxChars stop : Nat) : Nat :=
  ((charIndices 0 (upTo text stop)).reverse[maxChars - 1]?.map (·.1)).getD 0

/-- Where the next piece ends: so many characters into this one. -/
def nextStop (text : List Char) (start : Nat) : Nat :=
  ((charIndices 0 (onward text start))[PIECE_OVERLAP_CHARS]?.map fun e => start + e.1).getD
    (len text)

/-- The loop; the first argument bounds its passes. -/
def planLoop (text : List Char) (mustCoverFrom maxChars : Nat) :
    Nat → List (Nat × Nat) → Nat → Option PiecePlan
  | 0, _, _ => none
  | passes + 1, ranges, stop =>
    let start := pieceStart text maxChars stop
    let ranges := ranges ++ [(start, stop)]
    if start = 0 then some (.pieces ranges 0)
    else if ranges.length = MAX_CALLS_PER_CHECK then
      some (if start ≤ mustCoverFrom then .pieces ranges start else .tooLong)
    else planLoop text mustCoverFrom maxChars passes ranges (nextStop text start)

def planPieces (passes : Nat) (text : List Char) (mustCoverFrom maxChars : Nat) :
    Option PiecePlan :=
  planLoop text mustCoverFrom maxChars passes [] (len text)

/-! ### What a plan is for -/

/-- How many characters two ranges share. -/
def shared (text : List Char) (r r' : Nat × Nat) : Nat :=
  (chars text (max r.1 r'.1) (min r.2 r'.2)).card

/-- At most the allowed number of pieces, each on character boundaries and within the cap,
consecutive ones sharing exactly the overlap, that together are the text from `unchecked` on. -/
structure Cover (text : List Char) (maxChars : Nat) (ranges : List (Nat × Nat)) (unchecked : Nat) :
    Prop where
  count : ranges.length ≤ MAX_CALLS_PER_CHECK
  boundaries : ∀ r ∈ ranges, Boundary text r.1 ∧ Boundary text r.2
  capped : ∀ r ∈ ranges, (chars text r.1 r.2).card ≤ maxChars
  overlap : ranges.IsChain fun r r' => shared text r r' = PIECE_OVERLAP_CHARS
  union : ∀ b, (∃ r ∈ ranges, r.1 ≤ b ∧ b < r.2) ↔ unchecked ≤ b ∧ b < len text

/-- Every run of at most `PIECE_OVERLAP_CHARS` characters in the covered text lies in one piece. -/
def Gapless (text : List Char) (ranges : List (Nat × Nat)) (unchecked : Nat) : Prop :=
  ∀ a b, Boundary text a → Boundary text b → unchecked ≤ a → a ≤ b →
    (chars text a b).card ≤ PIECE_OVERLAP_CHARS → ∃ r ∈ ranges, r.1 ≤ a ∧ b ≤ r.2

/-! ### The two cuts -/

theorem pieceStart_offset (text : List Char) {maxChars k : Nat} (hmax : 0 < maxChars)
    (hk : k ≤ text.length) :
    pieceStart text maxChars (offset text k) = offset text (k - maxChars) := by
  unfold pieceStart
  rw [upTo_offset]
  have hlength : (charIndices 0 (text.take k)).length = k := by
    rw [length_charIndices, List.length_take, Nat.min_eq_left hk]
  by_cases hshort : k < maxChars
  · rw [List.getElem?_eq_none (by rw [List.length_reverse, hlength]; omega)]
    have hzero : k - maxChars = 0 := by omega
    rw [hzero, offset_zero]
    rfl
  · rw [List.getElem?_reverse (by omega), hlength, getElem?_charIndices]
    have hindex : k - 1 - (maxChars - 1) = k - maxChars := by omega
    have hlt : k - maxChars < (text.take k).length := by
      rw [List.length_take]
      omega
    rw [hindex, List.getElem?_eq_getElem hlt]
    simp only [Option.map_some, Option.getD_some, Nat.zero_add, offset, List.take_take]
    rw [Nat.min_eq_left (by omega)]

theorem nextStop_offset (text : List Char) (j : Nat) :
    nextStop text (offset text j) = offset text (j + PIECE_OVERLAP_CHARS) := by
  unfold nextStop
  rw [onward_offset, getElem?_charIndices]
  by_cases hshort : PIECE_OVERLAP_CHARS < (text.drop j).length
  · rw [List.getElem?_eq_getElem hshort]
    simp only [Option.map_some, Option.getD_some, Nat.zero_add, offset_add]
  · rw [List.getElem?_eq_none (by omega)]
    rw [List.length_drop] at hshort
    have hend : offset text (j + PIECE_OVERLAP_CHARS) = len text := offset_of_length_le (by omega)
    rw [hend]
    rfl

/-! ### The loop -/

/-- The pieces cut so far, of which the last spans the characters from `s` to `e`. -/
structure Cut (text : List Char) (maxChars : Nat) (ranges : List (Nat × Nat)) (s e : Nat) :
    Prop where
  last : ranges.getLast? = some (offset text s, offset text e)
  order : s ≤ e ∧ e ≤ text.length
  full : 0 < s → e = s + maxChars
  spent : 0 < s → s + ranges.length * maxChars = text.length + (ranges.length - 1) *
    PIECE_OVERLAP_CHARS
  boundaries : ∀ r ∈ ranges, Boundary text r.1 ∧ Boundary text r.2
  capped : ∀ r ∈ ranges, (chars text r.1 r.2).card ≤ maxChars
  overlap : ranges.IsChain fun r r' => shared text r r' = PIECE_OVERLAP_CHARS
  union : ∀ b, (∃ r ∈ ranges, r.1 ≤ b ∧ b < r.2) ↔ offset text s ≤ b ∧ b < len text
  gapless : Gapless text ranges (offset text s)

theorem Cut.cover {text : List Char} {maxChars s e : Nat} {ranges : List (Nat × Nat)}
    (h : Cut text maxChars ranges s e) (hcount : ranges.length ≤ MAX_CALLS_PER_CHECK) :
    Cover text maxChars ranges (offset text s) :=
  ⟨hcount, h.boundaries, h.capped, h.overlap, h.union⟩

theorem boundary_offset {text : List Char} {k : Nat} (hk : k ≤ text.length) :
    Boundary text (offset text k) :=
  ⟨k, hk, rfl⟩

theorem cut_first (text : List Char) (maxChars : Nat) :
    Cut text maxChars [(offset text (text.length - maxChars), len text)]
      (text.length - maxChars) text.length := by
  have hend : offset text text.length = len text := offset_of_length_le (Nat.le_refl _)
  constructor
  · rw [List.getLast?_singleton, hend]
  · omega
  · intro hs
    omega
  · intro hs
    simp only [List.length_singleton]
    omega
  · intro r hr
    rw [List.mem_singleton.mp hr, ← hend]
    exact ⟨boundary_offset (by omega), boundary_offset (Nat.le_refl _)⟩
  · intro r hr
    rw [List.mem_singleton.mp hr, ← hend, card_chars_offset (Nat.le_refl _)]
    omega
  · exact List.isChain_singleton _
  · intro b
    simp
  · intro a b ha hb hfrom hab hcard
    refine ⟨_, List.mem_singleton_self _, hfrom, ?_⟩
    obtain ⟨k, hk, rfl⟩ := hb
    rw [← hend]
    exact offset_mono text hk

theorem Cut.next {text : List Char} {maxChars s e : Nat} {ranges : List (Nat × Nat)}
    (h : Cut text maxChars ranges s e) (hmax : PIECE_OVERLAP_CHARS < maxChars) (hs : 0 < s) :
    Cut text maxChars (ranges ++ [(offset text (s + PIECE_OVERLAP_CHARS - maxChars),
      offset text (s + PIECE_OVERLAP_CHARS))]) (s + PIECE_OVERLAP_CHARS - maxChars)
        (s + PIECE_OVERLAP_CHARS) := by
  have hfull := h.full hs
  have horder := h.order
  have hmem : (offset text s, offset text e) ∈ ranges := List.mem_of_getLast? h.last
  have hstart : offset text (s + PIECE_OVERLAP_CHARS - maxChars) ≤ offset text s :=
    offset_mono text (by omega)
  have hstop : offset text (s + PIECE_OVERLAP_CHARS) ≤ offset text e := offset_mono text (by omega)
  have hreach : offset text s ≤ offset text (s + PIECE_OVERLAP_CHARS) := offset_mono text (by omega)
  constructor
  · rw [List.getLast?_concat]
  · omega
  · intro hpos
    omega
  · intro hpos
    have hspent := h.spent hs
    have hne : ranges.length ≠ 0 := by
      intro hnil
      rw [List.length_eq_zero_iff.mp hnil] at hmem
      cases hmem
    have hone : (ranges.length - 1) * PIECE_OVERLAP_CHARS + PIECE_OVERLAP_CHARS =
        ranges.length * PIECE_OVERLAP_CHARS := by
      rw [← Nat.succ_mul, Nat.succ_eq_add_one, Nat.sub_add_cancel (by omega)]
    rw [List.length_append, List.length_singleton, Nat.add_sub_cancel, Nat.add_mul, Nat.one_mul]
    omega
  · intro r hr
    rcases List.mem_append.mp hr with hr | hr
    · exact h.boundaries r hr
    · rw [List.mem_singleton.mp hr]
      exact ⟨boundary_offset (by omega), boundary_offset (by omega)⟩
  · intro r hr
    rcases List.mem_append.mp hr with hr | hr
    · exact h.capped r hr
    · rw [List.mem_singleton.mp hr, card_chars_offset (by omega)]
      omega
  · refine List.isChain_append.mpr ⟨h.overlap, List.isChain_singleton _, fun r hr r' hr' => ?_⟩
    rw [h.last] at hr
    cases hr
    cases hr'
    unfold shared
    rw [Nat.max_eq_left hstart, Nat.min_eq_right hstop, card_chars_offset (by omega)]
    omega
  · intro b
    have hold := h.union b
    simp only [List.mem_append, List.mem_singleton, or_and_right, exists_or, exists_eq_left]
    rw [hold]
    have hlen : offset text (s + PIECE_OVERLAP_CHARS) ≤ len text := by
      rw [← offset_of_length_le (Nat.le_refl text.length)]
      exact offset_mono text (by omega)
    omega
  · intro a b ha hb hfrom hab hcard
    by_cases hin : offset text s ≤ a
    · obtain ⟨r, hr, hwithin⟩ := h.gapless a b ha hb hin hab hcard
      exact ⟨r, List.mem_append_left _ hr, hwithin⟩
    · refine ⟨_, List.mem_append_right _ (List.mem_singleton_self _), hfrom, ?_⟩
      obtain ⟨i, hi, rfl⟩ := ha
      obtain ⟨j, hj, rfl⟩ := hb
      have his : i < s := (offset_lt_offset_iff hi (by omega)).mp (by omega)
      rw [card_chars_offset hj] at hcard
      exact offset_mono text (by omega)

/-! ### How far back pieces can reach -/

/-- The characters that start in some piece. -/
def covered (text : List Char) (ranges : List (Nat × Nat)) : Finset Nat :=
  ranges.foldr (fun r acc => chars text r.1 r.2 ∪ acc) ∅

theorem mem_covered {text : List Char} {ranges : List (Nat × Nat)} {k : Nat} :
    k ∈ covered text ranges ↔ k < text.length ∧ ∃ r ∈ ranges, r.1 ≤ offset text k ∧
      offset text k < r.2 := by
  induction ranges with
  | nil => simp [covered]
  | cons r rs ih =>
    have hcons : covered text (r :: rs) = chars text r.1 r.2 ∪ covered text rs := rfl
    rw [hcons, Finset.mem_union, ih, mem_chars, ← and_or_left, List.exists_mem_cons_iff]

theorem card_covered_le {text : List Char} {maxChars : Nat} {ranges : List (Nat × Nat)}
    (hne : ranges ≠ []) (hcapped : ∀ r ∈ ranges, (chars text r.1 r.2).card ≤ maxChars)
    (hoverlap : ranges.IsChain fun r r' => shared text r r' = PIECE_OVERLAP_CHARS) :
    (covered text ranges).card + (ranges.length - 1) * PIECE_OVERLAP_CHARS ≤
    ranges.length * maxChars := by
  induction ranges with
  | nil => exact absurd rfl hne
  | cons r rs ih =>
    have hr := hcapped r (List.mem_cons_self ..)
    have hcons : covered text (r :: rs) = chars text r.1 r.2 ∪ covered text rs := rfl
    cases rs with
    | nil => simpa [covered] using hr
    | cons r' rs =>
      obtain ⟨hshared, hrest⟩ := List.isChain_cons_cons.mp hoverlap
      have hrec :=
        ih (List.cons_ne_nil _ _) (fun q hq => hcapped q (List.mem_cons_of_mem _ hq)) hrest
      have hinter : PIECE_OVERLAP_CHARS ≤ (chars text r.1 r.2 ∩ covered text (r' :: rs)).card := by
        rw [← hshared, shared, ← chars_inter]
        exact Finset.card_le_card (Finset.inter_subset_inter_left Finset.subset_union_left)
      have hunion := Finset.card_union_add_card_inter (chars text r.1 r.2) (covered text (r' :: rs))
      rw [hcons]
      simp only [List.length_cons, Nat.add_sub_cancel, Nat.add_mul, Nat.one_mul] at hrec ⊢
      omega

theorem Cover.reach {text : List Char} {maxChars u : Nat} {ranges : List (Nat × Nat)}
    (h : Cover text maxChars ranges u) (hmax : PIECE_OVERLAP_CHARS < maxChars) (hu : u < len text) :
    ∃ k < text.length, u = offset text k ∧
      text.length - k + (MAX_CALLS_PER_CHECK - 1) * PIECE_OVERLAP_CHARS ≤
        MAX_CALLS_PER_CHECK * maxChars := by
  obtain ⟨r, hr, hru, hur⟩ := (h.union u).mpr ⟨Nat.le_refl _, hu⟩
  obtain ⟨⟨k, hk, hstart⟩, -⟩ := h.boundaries r hr
  have hfrom : u ≤ r.1 := ((h.union r.1).mp ⟨r, hr, Nat.le_refl _, by omega⟩).1
  have huk : u = offset text k := by omega
  have hlt : k < text.length := by
    by_contra hge
    rw [huk, offset_of_length_le (Nat.le_of_not_lt hge)] at hu
    omega
  have hcovered : covered text ranges = chars text (offset text k) (offset text text.length) := by
    ext i
    rw [mem_covered, mem_chars, ← huk, h.union, offset_of_length_le (Nat.le_refl _)]
  have hcard := card_covered_le (List.ne_nil_of_mem hr) h.capped h.overlap
  rw [hcovered, card_chars_offset (Nat.le_refl _)] at hcard
  refine ⟨k, hlt, huk, ?_⟩
  have hcount := h.count
  have hpieces : 0 < ranges.length := List.length_pos_of_mem hr
  obtain ⟨spare, hspare⟩ := Nat.exists_eq_add_of_le hcount
  obtain ⟨m, hm⟩ := Nat.exists_eq_add_of_lt hmax
  have hsum : (MAX_CALLS_PER_CHECK - 1) * PIECE_OVERLAP_CHARS =
      (ranges.length - 1) * PIECE_OVERLAP_CHARS + spare * PIECE_OVERLAP_CHARS := by
    rw [← Nat.add_mul, hspare]
    congr 1
    omega
  have hmore : spare * PIECE_OVERLAP_CHARS ≤ spare * maxChars :=
    Nat.mul_le_mul_left _ (Nat.le_of_lt hmax)
  rw [hsum, hspare, Nat.add_mul]
  omega

/-! ### The plan -/

/-- What a plan has to be. -/
def PiecePlan.Right (text : List Char) (mustCoverFrom maxChars : Nat) : PiecePlan → Prop
  | pieces ranges unchecked =>
    Cover text maxChars ranges unchecked ∧ unchecked ≤ mustCoverFrom ∧ Gapless text ranges unchecked
  | tooLong =>
    ¬ ∃ ranges unchecked, Cover text maxChars ranges unchecked ∧ unchecked ≤ mustCoverFrom

/-- Where all pieces are used up before the part that must be covered, no cover reaches it. -/
theorem Cut.tooLong {text : List Char} {maxChars mustCoverFrom s e : Nat}
    {ranges : List (Nat × Nat)} (h : Cut text maxChars ranges s e)
    (hmax : PIECE_OVERLAP_CHARS < maxChars) (hused : ranges.length = MAX_CALLS_PER_CHECK)
    (hmust : mustCoverFrom < offset text s) :
    PiecePlan.tooLong.Right text mustCoverFrom maxChars := by
  rintro ⟨ranges', u, hcover, hu⟩
  have hs : 0 < s := by
    rcases Nat.eq_zero_or_pos s with rfl | hs
    · rw [offset_zero] at hmust
      omega
    · exact hs
  have horder := h.order
  have hlen : offset text s ≤ len text := by
    rw [← offset_of_length_le (Nat.le_refl text.length)]
    exact offset_mono text (by omega)
  obtain ⟨k, hk, rfl, hreach⟩ := hcover.reach hmax (by omega)
  have hks : k < s := (offset_lt_offset_iff (Nat.le_of_lt hk) (by omega)).mp (by omega)
  have hspent := h.spent hs
  rw [hused] at hspent
  omega

theorem planLoop_right {text : List Char} {mustCoverFrom maxChars : Nat}
    (hmax : PIECE_OVERLAP_CHARS < maxChars) (passes : Nat) {ranges : List (Nat × Nat)}
    {stop s e : Nat} (hstart : pieceStart text maxChars stop = offset text s)
    (h : Cut text maxChars (ranges ++ [(offset text s, stop)]) s e)
    (hcount : ranges.length < MAX_CALLS_PER_CHECK)
    (hpasses : MAX_CALLS_PER_CHECK ≤ ranges.length + passes) :
    ∃ plan, planLoop text mustCoverFrom maxChars passes ranges stop = some plan ∧
      plan.Right text mustCoverFrom maxChars := by
  induction passes generalizing ranges stop s e with
  | zero => omega
  | succ passes ih =>
    have hlength : (ranges ++ [(offset text s, stop)]).length = ranges.length + 1 := by simp
    simp only [planLoop, hstart]
    split
    · next hzero =>
      refine ⟨_, rfl, ?_⟩
      have hcover := h.cover (by omega)
      have hgapless := h.gapless
      rw [hzero] at hcover hgapless
      exact ⟨hzero ▸ hcover, Nat.zero_le _, hzero ▸ hgapless⟩
    · next hpos =>
      have hs : 0 < s := by
        rcases Nat.eq_zero_or_pos s with rfl | hs
        · exact absurd (offset_zero text) hpos
        · exact hs
      split
      · next hused =>
        refine ⟨_, rfl, ?_⟩
        split
        · next hreached => exact ⟨h.cover (by omega), hreached, h.gapless⟩
        · next hmust => exact h.tooLong hmax hused (Nat.lt_of_not_le hmust)
      · next hleft =>
        have hfull := h.full hs
        have horder := h.order
        have hcut := h.next hmax hs
        rw [nextStop_offset]
        refine ih (pieceStart_offset text (by omega) (by omega)) hcut (by omega) (by omega)

/-- The plan is always made, within as many passes as calls are allowed: either its pieces cover the
text back to where it must be covered and leave no gap, or no cover with so many pieces reaches
there. -/
theorem planPieces_right (text : List Char) (mustCoverFrom maxChars passes : Nat)
    (hmax : PIECE_OVERLAP_CHARS < maxChars) (hpasses : MAX_CALLS_PER_CHECK ≤ passes) :
    ∃ plan, planPieces passes text mustCoverFrom maxChars = some plan ∧
      plan.Right text mustCoverFrom maxChars := by
  have hend : offset text text.length = len text := offset_of_length_le (Nat.le_refl _)
  have hstart : pieceStart text maxChars (len text) = offset text (text.length - maxChars) := by
    rw [← hend]
    exact pieceStart_offset text (by omega) (Nat.le_refl _)
  exact planLoop_right hmax passes hstart (cut_first text maxChars) (by decide)
    (by simpa using hpasses)

/-- 250 accented letters are cut into two pieces, which share 128 letters of two bytes each. -/
theorem planPieces_right_cut :
    planPieces 16 (List.replicate 250 'é') 1 200 = some (.pieces [(100, 500), (0, 356)] 0) ∧
      ∃ plan, planPieces 16 (List.replicate 250 'é') 1 200 = some plan ∧
        plan.Right (List.replicate 250 'é') 1 200 :=
  ⟨by decide +kernel, planPieces_right (List.replicate 250 'é') 1 200 16 (by decide) (by decide)⟩

end Aliyun
end Aisix
