import Aisix.Delimited
import Aisix.HeldContent.Responses
import Aisix.JsonText
import Aisix.ToldTexts

/-!
# Aisix.HeldContent.Ledger

The ledger of a Responses stream knows the latest text of each slot by its size and its hash: as
long as it has room it charges what is owed for the texts that an event tells, and it is saturated
as soon as the slots are more than it has room for.
-/

namespace Aisix
namespace HeldContent

open Delimited Json ToldTexts

/-! ### Keys -/

theorem len_ofList (cs : List Char) : len (String.ofList cs) = size Char.utf8Size cs := by
  unfold len
  induction cs with
  | nil => rfl
  | cons c cs ih =>
    have hcons : String.ofList (c :: cs) = String.singleton c ++ String.ofList cs := by
      refine String.toList_injective ?_
      simp
    rw [hcons, String.utf8ByteSize_append, String.utf8ByteSize_singleton, ih]
    rfl

theorem len_eq (s : String) : len s = size Char.utf8Size s.toList := by
  rw [← len_ofList, String.ofList_toList]

theorem size_eq_zero_iff {cs : List Char} : size Char.utf8Size cs = 0 ↔ cs = [] := by
  constructor
  · intro h
    cases cs with
    | nil => rfl
    | cons c cs =>
      have hpos := c.utf8Size_pos
      rw [size] at h
      omega
  · rintro rfl
    rfl

theorem append_inj_of_size {a b r r' : List Char} (h : a ++ r = b ++ r')
    (hsize : size Char.utf8Size a = size Char.utf8Size b) : a = b ∧ r = r' := by
  rcases List.append_eq_append_iff.mp h with ⟨u, rfl, hu⟩ | ⟨u, rfl, hu⟩
  · rw [size_append] at hsize
    obtain rfl := size_eq_zero_iff.mp (show size Char.utf8Size u = 0 by omega)
    exact ⟨(List.append_nil a).symm, hu⟩
  · rw [size_append] at hsize
    obtain rfl := size_eq_zero_iff.mp (show size Char.utf8Size u = 0 by omega)
    exact ⟨List.append_nil b, hu.symm⟩

theorem notMem_decimal {c : Char} (hc : c.isDigit = false) (n : Nat) : c ∉ Nat.toDigits 10 n := by
  intro hmem
  rw [isDigit_toDigits hmem] at hc
  cases hc

def Place.tag : Place → String
  | .content _ _ => "content"
  | .reasoning _ _ => "reasoning"
  | .tool _ _ => "tool"

def Place.rest : Place → List Char
  | .content index field => Nat.toDigits 10 index ++ '/' :: field.name.toList
  | .reasoning group index => group.name.toList ++ '/' :: Nat.toDigits 10 index
  | .tool toolType field => toolType.name.toList ++ '/' :: (toolType.field field).toList

theorem toList_place (place : Place) :
    place.text.toList = '/' :: (place.tag.toList ++ '/' :: place.rest) := by
  have hslash : "/".toList = ['/'] := by decide
  have hcontent : "/content/".toList = '/' :: ("content".toList ++ ['/']) := by decide
  have hreasoning : "/reasoning/".toList = '/' :: ("reasoning".toList ++ ['/']) := by decide
  have htool : "/tool/".toList = '/' :: ("tool".toList ++ ['/']) := by decide
  cases place with
  | content index field =>
    simp only [Place.text, Place.tag, Place.rest, decimal, String.toList_append,
      String.toList_ofList, hslash, hcontent, List.append_assoc, List.cons_append, List.nil_append]
  | reasoning group index =>
    simp only [Place.text, Place.tag, Place.rest, decimal, String.toList_append,
      String.toList_ofList, hslash, hreasoning, List.append_assoc, List.cons_append,
      List.nil_append]
  | tool toolType field =>
    simp only [Place.text, Place.tag, Place.rest, String.toList_append, hslash, htool,
      List.append_assoc, List.cons_append, List.nil_append]

theorem toList_key (slot : Slot) :
    slot.key.toList = Nat.toDigits 10 (len slot.base.itemId) ++ ':' :: (slot.base.itemId.toList ++
      ':' ::
        (Nat.toDigits 10 slot.base.outputIndex ++ '/' ::
        (slot.place.tag.toList ++ '/' :: slot.place.rest))) := by
  have hcolon : ":".toList = [':'] := by decide
  unfold Slot.key Base.text
  simp only [decimal, String.toList_append, String.toList_ofList, toList_place, hcolon,
    List.append_assoc, List.cons_append, List.nil_append]

theorem notMem_tag (place : Place) : '/' ∉ place.tag.toList := by
  cases place with
  | content index field => exact show '/' ∉ "content".toList by decide
  | reasoning group index => exact show '/' ∉ "reasoning".toList by decide
  | tool toolType field => exact show '/' ∉ "tool".toList by decide

theorem place_inj {p q : Place} (htag : p.tag = q.tag) (hrest : p.rest = q.rest) : p = q := by
  cases p with
  | content index field =>
    cases q with
    | content index' field' =>
      obtain ⟨hindex, hfield⟩ :=
        segment_cons_inj (notMem_decimal (by decide) _) (notMem_decimal (by decide) _) hrest
      rw [toDigits_inj hindex]
      cases field <;> cases field' <;> first | rfl | exact absurd hfield (by decide)
    | reasoning group index' => exact absurd (show "content" = "reasoning" from htag) (by decide)
    | tool toolType field' => exact absurd (show "content" = "tool" from htag) (by decide)
  | reasoning group index =>
    cases q with
    | content index' field' => exact absurd (show "reasoning" = "content" from htag) (by decide)
    | reasoning group' index' =>
      have hgroup : ∀ group : ReasoningGroup, '/' ∉ group.name.toList := by
        intro group
        cases group <;> decide
      obtain ⟨hname, hindex⟩ := segment_cons_inj (hgroup group) (hgroup group') hrest
      rw [toDigits_inj hindex]
      cases group <;> cases group' <;> first | rfl | exact absurd hname (by decide)
    | tool toolType field' => exact absurd (show "reasoning" = "tool" from htag) (by decide)
  | tool toolType field =>
    cases q with
    | content index' field' => exact absurd (show "tool" = "content" from htag) (by decide)
    | reasoning group' index' => exact absurd (show "tool" = "reasoning" from htag) (by decide)
    | tool toolType' field' =>
      have htype : ∀ toolType : ToolType, '/' ∉ toolType.name.toList := by
        intro toolType
        cases toolType <;> decide
      obtain ⟨hname, hfield⟩ := segment_cons_inj (htype toolType) (htype toolType') hrest
      have hsame : toolType = toolType' := by
        cases toolType <;> cases toolType' <;> first | rfl | exact absurd hname (by decide)
      subst hsame
      cases toolType <;> cases field <;> cases field' <;> first | rfl |
        exact absurd hfield (by decide)

theorem key_injective : Function.Injective Slot.key := by
  intro slot slot' h
  have hlist := congrArg String.toList h
  rw [toList_key, toList_key] at hlist
  obtain ⟨hlen, hrest⟩ :=
    segment_cons_inj (notMem_decimal (by decide) _) (notMem_decimal (by decide) _) hlist
  have hsize := toDigits_inj hlen
  rw [len_eq, len_eq] at hsize
  obtain ⟨hid, hrest⟩ := append_inj_of_size hrest hsize
  obtain ⟨hindex, hplace⟩ :=
    segment_cons_inj (notMem_decimal (by decide) _) (notMem_decimal (by decide) _)
    (List.cons.inj hrest).2
  obtain ⟨htag, hplace⟩ := segment_cons_inj (notMem_tag _) (notMem_tag _) hplace
  obtain ⟨⟨itemId, outputIndex⟩, place⟩ := slot
  obtain ⟨⟨itemId', outputIndex'⟩, place'⟩ := slot'
  obtain rfl := String.toList_injective hid
  obtain rfl := toDigits_inj hindex
  obtain rfl := place_inj (String.toList_injective htag) hplace
  rfl

/-! ### One carrier -/

theorem splitAtByte_append (a b : List Char) :
    splitAtByte (a ++ b) (size Char.utf8Size a) = some (a, b) := by
  induction a with
  | nil =>
    cases b <;> rfl
  | cons c a ih =>
    have hpos := c.utf8Size_pos
    obtain ⟨n, hn⟩ : ∃ n, size Char.utf8Size (c :: a) = n + 1 :=
      ⟨size Char.utf8Size (c :: a) - 1, by
      rw [size]
      omega⟩
    have hsplit : size Char.utf8Size (c :: a) = c.utf8Size + size Char.utf8Size a := rfl
    rw [hn, List.cons_append, splitAtByte, if_pos (by omega), show n + 1 - c.utf8Size =
      size Char.utf8Size a by omega, ih]
    rfl

theorem of_splitAtByte {cs a b : List Char} {n : Nat} (h : splitAtByte cs n = some (a, b)) :
    cs = a ++ b := by
  induction cs generalizing n a b with
  | nil =>
    cases n with
    | zero =>
      cases h
      rfl
    | succ n => cases h
  | cons c cs ih =>
    cases n with
    | zero =>
      cases h
      rfl
    | succ n =>
      rw [splitAtByte] at h
      split at h
      · obtain ⟨⟨a', b'⟩, hrest, hpair⟩ := Option.map_eq_some_iff.mp h
        cases hpair
        rw [ih hrest]
        rfl
      · cases h

/-- What is kept of a text. -/
def carrierOf (text : List Char) : ResponsesHeldCarrier :=
  ⟨size Char.utf8Size text, Utf8.bytes (String.ofList text)⟩

def telling (text : String) : ResponsesCarrierMode → Telling Char
  | .delta => .piece text.toList
  | .snapshot => .snapshot text.toList

theorem newCarrier_eq (text : String) : newCarrier text = carrierOf text.toList := by
  unfold newCarrier carrierOf
  rw [len_eq, String.ofList_toList]

theorem carrierOf_append (a b : List Char) :
    (⟨size Char.utf8Size (a ++ b), (carrierOf a).hash ++
      Utf8.bytes (String.ofList b)⟩ : ResponsesHeldCarrier) =
      carrierOf (a ++ b) := by
  unfold carrierOf
  dsimp only
  rw [Utf8.bytes_ofList, Utf8.bytes_ofList, Utf8.bytes_ofList, List.flatMap_append]

variable {δ : Type*} [DecidableEq δ] {digest : List UInt8 → δ}

theorem sameDigest_iff (hdigest : Function.Injective digest) {text known : List Char} :
    sameDigest digest text (carrierOf known).hash = true ↔ text = known := by
  unfold sameDigest carrierOf
  rw [decide_eq_true_iff, hdigest.eq_iff]
  constructor
  · intro h
    have hlist := congrArg String.toList (Utf8.bytes_injective h)
    rwa [String.toList_ofList, String.toList_ofList] at hlist
  · rintro rfl
    rfl

theorem observeKnown_eq (hdigest : Function.Injective digest) (known : List Char) (text : String)
    (mode : ResponsesCarrierMode) :
    observeKnown digest (carrierOf known) text mode =
      (owedFor Char.utf8Size known (telling text mode),
      carrierOf (after known (telling text mode))) := by
  cases mode with
  | delta =>
    have hcarrier := carrierOf_append known text.toList
    rw [size_append, String.ofList_toList] at hcarrier
    unfold observeKnown telling owedFor after
    dsimp only
    rw [len_eq, ← hcarrier]
    rfl
  | snapshot =>
    unfold observeKnown telling owedFor after
    dsimp only
    by_cases hsame : len text = (carrierOf known).bytes ∧
      sameDigest digest text.toList (carrierOf known).hash = true
    · obtain rfl := (sameDigest_iff hdigest).mp hsame.2
      rw [if_pos hsame, if_pos (List.prefix_refl _), List.drop_length]
      rfl
    · rw [if_neg hsame]
      by_cases hpre : known <+: text.toList
      · obtain ⟨rest, hrest⟩ := hpre
        have hsplit : splitAtByte text.toList (carrierOf known).bytes = some (known, rest) := by
          rw [← hrest]
          exact splitAtByte_append known rest
        rw [hsplit]
        dsimp only
        rw [if_pos ((sameDigest_iff hdigest).mpr rfl), if_pos ⟨rest, hrest⟩, len_ofList, len_eq,
          ← hrest, List.drop_left, carrierOf_append]
      · rw [if_neg hpre]
        have hfull :
            (len text, newCarrier text) =
            (size Char.utf8Size text.toList, carrierOf text.toList) := by
          rw [newCarrier_eq, len_eq]
        split
        · next pre suffix hsplit =>
          rw [if_neg]
          · exact hfull
          · intro hdig
            rw [(sameDigest_iff hdigest).mp hdig] at hsplit
            exact hpre ⟨suffix, (of_splitAtByte hsplit).symm⟩
        · exact hfull

/-! ### The ledger and the texts it knows -/

/-- The ledger keeps the carrier of each known text, and no other. -/
structure Tracks (s : ResponsesHeldContent) (known : Slot → List Char) (slots : Finset Slot) :
    Prop where
  running : s.saturated = false
  carriers : ∀ slot,
    s.carriers.lookup slot.key = if slot ∈ slots then some (carrierOf (known slot)) else none
  count : s.carriers.keys.length = slots.card
  unknown : ∀ slot, slot ∉ slots → known slot = []

theorem tracks_default : Tracks .default (fun _ => []) ∅ where
  running := rfl
  carriers _ := rfl
  count := rfl
  unknown _ _ := rfl

/-- What an observation tells; an empty text tells nothing. -/
def told (o : Observation) : Option (Told Slot Char) :=
  (o.text.filter fun text => !text.isEmpty).map fun text => ⟨o.slot, telling text o.mode⟩

def tellings (os : List Observation) : List (Told Slot Char) := os.filterMap told

theorem length_keys_insert_of_none {m : KeyMap String ResponsesHeldCarrier} {key : String}
    (h : m.lookup key = none)
    (c : ResponsesHeldCarrier) : (m.insert key c).keys.length = m.keys.length + 1 := by
  have hnotMem : key ∉ m.keys := fun hmem => AList.lookup_eq_none.mp h (AList.mem_keys.mpr hmem)
  rw [AList.keys_insert, List.length_cons, List.erase_of_not_mem hnotMem]

theorem length_keys_insert_of_some {m : KeyMap String ResponsesHeldCarrier} {key : String}
    {c : ResponsesHeldCarrier} (h : m.lookup key = some c) (c' : ResponsesHeldCarrier) :
    (m.insert key c').keys.length = m.keys.length := by
  have hmem : key ∈ m.keys := by
    refine AList.mem_keys.mp (AList.lookup_isSome.mp ?_)
    rw [h]
    rfl
  have hpos : 0 < m.keys.length := List.length_pos_of_mem hmem
  rw [AList.keys_insert, List.length_cons, List.length_erase_of_mem hmem]
  omega

section Step

variable {s : ResponsesHeldContent} {known : Slot → List Char} {slots : Finset Slot}

theorem tracks_insert (h : Tracks s known slots) {slot : Slot} {t : Told Slot Char}
    (hkey : t.key = some slot)
    (hcount : (s.carriers.insert slot.key (carrierOf (after (known slot) t.telling))).keys.length =
      (insert slot slots).card) :
    Tracks
      { s with carriers := s.carriers.insert slot.key (carrierOf (after (known slot) t.telling)) }
      (tell known t) (slots ∪ keys [t]) := by
  have hslots : slots ∪ keys [t] = insert slot slots := by
    rw [keys_singleton_some hkey, Finset.union_comm, Finset.singleton_union]
  refine ⟨h.running, ?_, ?_, unknown_tell h.unknown⟩
  · intro slot'
    rw [hslots]
    by_cases hsame : slot' = slot
    · subst hsame
      rw [AList.lookup_insert, if_pos (Finset.mem_insert_self _ _), tell_self hkey]
    · have hne : slot'.key ≠ slot.key := fun heq => hsame (key_injective heq)
      rw [AList.lookup_insert_ne hne, h.carriers, tell_of_ne hkey hsame]
      by_cases hmem : slot' ∈ slots
      · rw [if_pos hmem, if_pos (Finset.mem_insert_of_mem hmem)]
      · have hnot : slot' ∉ insert slot slots :=
          fun hin => (Finset.mem_insert.mp hin).elim hsame hmem
        rw [if_neg hmem, if_neg hnot]
  · rw [hslots]
    exact hcount

theorem told_none {o : Observation} (h : told o = none) (s : ResponsesHeldContent) :
    observeText digest s (o.slot.map Slot.key) o.text o.mode = (0, s) := by
  unfold observeText
  rw [Option.map_eq_none_iff.mp h]

theorem observeText_tracks (hdigest : Function.Injective digest) (h : Tracks s known slots)
    {o : Observation} {t : Told Slot Char} (ht : told o = some t)
    (hroom : (slots ∪ keys [t]).card ≤ MAX_RESPONSES_HELD_CARRIERS) :
    (observeText digest s (o.slot.map Slot.key) o.text o.mode).1 = owed Char.utf8Size known t ∧
      Tracks (observeText digest s (o.slot.map Slot.key) o.text o.mode).2 (tell known t)
        (slots ∪ keys [t]) := by
  obtain ⟨text, htext, rfl⟩ := Option.map_eq_some_iff.mp ht
  unfold observeText
  rw [htext]
  dsimp only
  cases hslot : o.slot with
  | none =>
    have hkey : (⟨o.slot, telling text o.mode⟩ : Told Slot Char).key = none := hslot
    rw [← hslot, keys_singleton_none hkey, tell_none hkey, Finset.union_empty]
    unfold owed
    dsimp only
    rw [hslot]
    dsimp only [Option.map_none]
    refine ⟨?_, h⟩
    rw [len_eq]
    cases o.mode <;> rfl
  | some slot =>
    have hkey : (⟨some slot, telling text o.mode⟩ : Told Slot Char).key = some slot := rfl
    have hcard : slots ∪ keys [(⟨some slot, telling text o.mode⟩ : Told Slot Char)] =
        insert slot slots := by
      rw [keys_singleton_some hkey, Finset.union_comm, Finset.singleton_union]
    rw [hslot, hcard] at hroom
    have hlookup := h.carriers slot
    dsimp only [Option.map_some]
    by_cases hmem : slot ∈ slots
    · rw [if_pos hmem] at hlookup
      have hcount :=
        length_keys_insert_of_some hlookup (carrierOf (after (known slot) (telling text o.mode)))
      rw [hlookup]
      dsimp only
      rw [observeKnown_eq hdigest]
      refine ⟨rfl, tracks_insert h hkey ?_⟩
      rw [hcount, h.count, Finset.insert_eq_of_mem hmem]
    · rw [if_neg hmem] at hlookup
      have hafter : after (known slot) (telling text o.mode) = text.toList := by
        rw [h.unknown slot hmem]
        cases o.mode <;> rfl
      have hcount :=
        length_keys_insert_of_none hlookup (carrierOf (after (known slot) (telling text o.mode)))
      rw [Finset.card_insert_of_notMem hmem] at hroom
      have howed : owed Char.utf8Size known ⟨some slot, telling text o.mode⟩ = len text := by
        unfold owed
        dsimp only
        rw [h.unknown slot hmem, len_eq]
        cases o.mode with
        | delta => rfl
        | snapshot => rfl
      have hnew : newCarrier text = carrierOf (after (known slot) (telling text o.mode)) := by
        rw [newCarrier_eq, hafter]
      rw [hlookup]
      dsimp only
      rw [if_neg (by rw [h.count]; omega), howed, hnew]
      refine ⟨rfl, tracks_insert h hkey ?_⟩
      rw [hcount, h.count, Finset.card_insert_of_notMem hmem]

theorem observeText_full (h : Tracks s known slots) {o : Observation} {t : Told Slot Char}
    (ht : told o = some t) (hfull : slots.card ≤ MAX_RESPONSES_HELD_CARRIERS)
    (hover : MAX_RESPONSES_HELD_CARRIERS < (slots ∪ keys [t]).card) :
    (observeText digest s (o.slot.map Slot.key) o.text o.mode).2.saturated = true := by
  obtain ⟨text, htext, rfl⟩ := Option.map_eq_some_iff.mp ht
  unfold observeText
  rw [htext]
  dsimp only
  cases hslot : o.slot with
  | none =>
    rw [keys_singleton_none hslot, Finset.union_empty] at hover
    omega
  | some slot =>
    rw [keys_singleton_some hslot, Finset.union_comm, Finset.singleton_union] at hover
    have hmem : slot ∉ slots := by
      intro hmem
      rw [Finset.insert_eq_of_mem hmem] at hover
      omega
    rw [Finset.card_insert_of_notMem hmem] at hover
    have hlookup := h.carriers slot
    rw [if_neg hmem] at hlookup
    dsimp only [Option.map_some]
    rw [hlookup]
    dsimp only
    rw [if_pos (by rw [h.count]; omega)]

theorem observeText_saturated (h : s.saturated = true) (key text : Option String)
    (mode : ResponsesCarrierMode) :
    (observeText digest s key text mode).2.saturated = true := by
  unfold observeText
  split
  · exact h
  · split
    · exact h
    · split
      · split
        · rfl
        · exact h
      · exact h

theorem observeAll_saturated (h : s.saturated = true) (os : List Observation) :
    (observeAll digest s os).2.saturated = true := by
  induction os generalizing s with
  | nil => exact h
  | cons o os ih =>
    unfold observeAll
    exact ih (observeText_saturated h _ _ _)

theorem observeAll_tracks (hdigest : Function.Injective digest) (h : Tracks s known slots)
    {os : List Observation}
    (hroom : (slots ∪ keys (tellings os)).card ≤ MAX_RESPONSES_HELD_CARRIERS) :
    (observeAll digest s os).1 = owedAll Char.utf8Size known (tellings os) ∧
      Tracks (observeAll digest s os).2 (tellAll known (tellings os))
        (slots ∪ keys (tellings os)) := by
  induction os generalizing s known slots with
  | nil =>
    have hempty : slots ∪ keys ([] : List (Told Slot Char)) = slots := Finset.union_empty slots
    unfold tellings at hroom ⊢
    rw [List.filterMap_nil, hempty]
    exact ⟨rfl, h⟩
  | cons o os ih =>
    unfold observeAll
    dsimp only
    cases ht : told o with
    | none =>
      have hskip : tellings (o :: os) = tellings os := by
        unfold tellings
        rw [List.filterMap_cons, ht]
      rw [hskip] at hroom ⊢
      rw [told_none ht]
      obtain ⟨hcharge, htracks⟩ := ih h hroom
      refine ⟨?_, htracks⟩
      rw [Nat.zero_add]
      exact hcharge
    | some t =>
      have hcons : tellings (o :: os) = t :: tellings os := by
        unfold tellings
        rw [List.filterMap_cons, ht]
      rw [hcons, keys_cons, ← Finset.union_assoc] at hroom ⊢
      have hsub : slots ∪ keys [t] ⊆ slots ∪ keys [t] ∪ keys (tellings os) :=
        Finset.subset_union_left
      have hfirst := Finset.card_le_card hsub
      obtain ⟨hcharge, htracks⟩ := observeText_tracks hdigest h ht (by omega)
      obtain ⟨hcharges, htracked⟩ := ih htracks hroom
      rw [hcharge, hcharges]
      exact ⟨rfl, htracked⟩

theorem observeAll_full (hdigest : Function.Injective digest) (h : Tracks s known slots)
    {os : List Observation} (hfull : slots.card ≤ MAX_RESPONSES_HELD_CARRIERS)
    (hover : MAX_RESPONSES_HELD_CARRIERS < (slots ∪ keys (tellings os)).card) :
    (observeAll digest s os).2.saturated = true := by
  induction os generalizing s known slots with
  | nil =>
    have hempty : slots ∪ keys ([] : List (Told Slot Char)) = slots := Finset.union_empty slots
    unfold tellings at hover
    rw [List.filterMap_nil, hempty] at hover
    omega
  | cons o os ih =>
    unfold observeAll
    dsimp only
    cases ht : told o with
    | none =>
      have hskip : tellings (o :: os) = tellings os := by
        unfold tellings
        rw [List.filterMap_cons, ht]
      rw [hskip] at hover
      rw [told_none ht]
      exact ih h hfull hover
    | some t =>
      have hcons : tellings (o :: os) = t :: tellings os := by
        unfold tellings
        rw [List.filterMap_cons, ht]
      rw [hcons, keys_cons, ← Finset.union_assoc] at hover
      by_cases hroom : (slots ∪ keys [t]).card ≤ MAX_RESPONSES_HELD_CARRIERS
      · obtain ⟨-, htracks⟩ := observeText_tracks hdigest h ht hroom
        exact ih htracks hroom hover
      · exact observeAll_saturated (observeText_full h ht hfull (Nat.lt_of_not_le hroom)) os

end Step

/-! ### A stream -/

/-- What the events tell. -/
def tellingsOf (events : List Value) : List (Told Slot Char) :=
  events.flatMap fun event => tellings (observations event)

/-- The latest text of each slot. -/
def texts (events : List Value) : Slot → List Char := tellAll (fun _ => []) (tellingsOf events)

/-- The slots that the events address. -/
def addressed (events : List Value) : Finset Slot := keys (tellingsOf events)

theorem tellingsOf_concat (events : List Value) (event : Value) :
    tellingsOf (events ++ [event]) = tellingsOf events ++ tellings (observations event) := by
  unfold tellingsOf
  rw [List.flatMap_append, List.flatMap_singleton]

theorem texts_concat (events : List Value) (event : Value) :
    texts (events ++ [event]) = tellAll (texts events) (tellings (observations event)) := by
  unfold texts
  rw [tellingsOf_concat, tellAll_append]

theorem addressed_concat (events : List Value) (event : Value) :
    addressed (events ++ [event]) = addressed events ∪ keys (tellings (observations event)) := by
  unfold addressed
  rw [tellingsOf_concat, keys_append]

theorem card_addressed_le (events : List Value) (event : Value) :
    (addressed events).card ≤ (addressed (events ++ [event])).card := by
  rw [addressed_concat]
  exact Finset.card_le_card Finset.subset_union_left

theorem unknown_texts (events : List Value) :
    ∀ slot, slot ∉ addressed events → texts events slot = [] := by
  intro slot hslot
  have hnone : slot ∉ ∅ ∪ addressed events → texts events slot = [] :=
    unknown_tellAll (fun _ _ => rfl) slot
  rw [Finset.empty_union] at hnone
  exact hnone hslot

theorem ledgerAfter_concat (events : List Value) (event : Value) :
    ledgerAfter digest (events ++ [event]) =
      (observeEvent digest (ledgerAfter digest events) event).2 := by
  unfold ledgerAfter
  rw [List.foldl_append]
  rfl

/-- As long as no more slots are addressed than the ledger has room for it knows their texts; from
then on it is saturated. -/
theorem ledgerAfter_spec (hdigest : Function.Injective digest) (events : List Value) :
    ((addressed events).card ≤ MAX_RESPONSES_HELD_CARRIERS →
      Tracks (ledgerAfter digest events) (texts events) (addressed events)) ∧
    (MAX_RESPONSES_HELD_CARRIERS < (addressed events).card →
    (ledgerAfter digest events).saturated = true) := by
  induction events using List.reverseRecOn with
  | nil => exact ⟨fun _ => tracks_default, fun h => absurd h (by decide)⟩
  | append_singleton events event ih =>
    obtain ⟨htracks, hsaturated⟩ := ih
    have hmono := card_addressed_le events event
    rw [ledgerAfter_concat]
    unfold observeEvent
    constructor
    · intro hroom
      have hbefore := htracks (by omega)
      rw [hbefore.running, if_neg Bool.false_ne_true]
      rw [addressed_concat] at hroom ⊢
      rw [texts_concat]
      exact (observeAll_tracks hdigest hbefore hroom).2
    · intro hover
      by_cases hbefore : (addressed events).card ≤ MAX_RESPONSES_HELD_CARRIERS
      · have hrunning := htracks hbefore
        rw [hrunning.running, if_neg Bool.false_ne_true]
        rw [addressed_concat] at hover
        exact observeAll_full hdigest hrunning hbefore hover
      · have hstopped := hsaturated (by omega)
        rw [hstopped, if_pos rfl]
        exact hstopped

theorem saturated_iff (hdigest : Function.Injective digest) (events : List Value) :
    (ledgerAfter digest events).saturated = true ↔
    MAX_RESPONSES_HELD_CARRIERS < (addressed events).card := by
  obtain ⟨htracks, hsaturated⟩ := ledgerAfter_spec hdigest events
  constructor
  · intro h
    by_contra hroom
    rw [(htracks (by omega)).running] at h
    cases h
  · exact hsaturated

theorem charge_of_room (hdigest : Function.Injective digest) {events : List Value} {event : Value}
    (h : (addressed (events ++ [event])).card ≤ MAX_RESPONSES_HELD_CARRIERS) :
    charge digest (ledgerAfter digest events) event =
      owedAll Char.utf8Size (texts events) (tellings (observations event)) := by
  have hmono := card_addressed_le events event
  have hbefore := (ledgerAfter_spec hdigest events).1 (by omega)
  rw [addressed_concat] at h
  obtain ⟨hcharge, htracks⟩ := observeAll_tracks hdigest hbefore h
  unfold charge observeEvent
  rw [hbefore.running, if_neg Bool.false_ne_true]
  dsimp only
  rw [htracks.running, if_neg Bool.false_ne_true, hcharge]
  rfl

theorem charge_of_over (hdigest : Function.Injective digest) {events : List Value} {event : Value}
    (h : MAX_RESPONSES_HELD_CARRIERS < (addressed (events ++ [event])).card) :
    charge digest (ledgerAfter digest events) event = responsesEvent event := by
  unfold charge observeEvent
  by_cases hbefore : (addressed events).card ≤ MAX_RESPONSES_HELD_CARRIERS
  · have hrunning := (ledgerAfter_spec hdigest events).1 hbefore
    rw [addressed_concat] at h
    have hfull := observeAll_full hdigest hrunning hbefore h
    rw [hrunning.running, if_neg Bool.false_ne_true]
    dsimp only
    rw [hfull, if_pos rfl]
    rfl
  · have hstopped := (ledgerAfter_spec hdigest events).2 (by omega)
    rw [hstopped, if_pos rfl]
    rfl

theorem chargedFrom_append (s : ResponsesHeldContent) (events : List Value) (event : Value) :
    chargedFrom digest s (events ++ [event]) = chargedFrom digest s events +
      charge digest (events.foldl (fun s event => (observeEvent digest s event).2) s) event := by
  induction events generalizing s with
  | nil =>
    rw [List.nil_append, chargedFrom, chargedFrom, chargedFrom, List.foldl_nil]
    exact Nat.add_comm _ _
  | cons e events ih =>
    rw [List.cons_append, chargedFrom, chargedFrom, ih, List.foldl_cons, Nat.add_assoc]

theorem charged_concat (events : List Value) (event : Value) :
    charged digest (events ++ [event]) = charged digest events +
      charge digest (ledgerAfter digest events) event :=
  chargedFrom_append .default events event

end HeldContent
end Aisix
