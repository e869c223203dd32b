import Aisix.CircularWalk
import Aisix.Etcd.Observed
import Mathlib.Data.List.Sort

/-!
# Aisix.Etcd.ServedRecords

The records of what is served, merged from the observed entries and the pins in the order of their
keys; and the result about both (`publishServed_exact`): the version moves with what is served, and
the records list it.
-/

namespace Aisix
namespace Etcd
namespace ObservedState

variable {canonicalJson : Bytes → Option Bytes}

/-- The pins with their keys, in order. -/
def pinnedRecords (canonicalJson : Bytes → Option Bytes) (stale : KeyMap String StaleServing) :
    List (String × Record) :=
  ((KeyMap.values stale).map fun pin => (pin.entry.key, pin.record canonicalJson)).insertionSort
    fun a b => a.1 ≤ b.1

def below (key : String) (p : String × Record) : Bool := p.1 < key

/-- One walk over the entries, each pin emitted in its own place in the ordering. -/
def mergePinned (rejected : List String) :
    List (String × Record) → List (String × Record) → List (String × Record)
  | [], pinned => pinned
  | e :: state, pinned =>
    let own (pinned : List (String × Record)) :=
      if e.1 ∈ rejected then mergePinned rejected state pinned
      else e :: mergePinned rejected state pinned
    pinned.takeWhile (below e.1) ++
      match pinned.dropWhile (below e.1) with
      | p :: rest => if p.1 = e.1 then p :: mergePinned rejected state rest else own (p :: rest)
      | [] => own []

def servedRecords (canonicalJson : Bytes → Option Bytes) (state : List (String × Record))
    (p : Publication) : List Record :=
  (mergePinned p.rejected state (pinnedRecords canonicalJson p.stale)).map (·.2)

/-! ### The merge -/

/-- Keys in strictly ascending order. -/
def Ascending (l : List (String × Record)) : Prop := l.Pairwise fun a b => a.1 < b.1

/-- What a merge has: the pins, and the entries that are neither pinned nor rejected. -/
def Merged (rejected : List String) (state pinned : List (String × Record)) (e : String × Record) :
    Prop :=
  e ∈ pinned ∨ e ∈ state ∧ e.1 ∉ pinned.map (·.1) ∧ e.1 ∉ rejected

theorem split_ascending {pinned : List (String × Record)} (h : Ascending pinned) (key : String) :
    pinned.takeWhile (below key) = pinned.filter (below key) ∧
      pinned.dropWhile (below key) = pinned.filter fun p => !below key p := by
  refine CircularWalk.parted_split (h.imp fun {a b} hlt hb => ?_)
  exact decide_eq_true (lt_trans hlt (of_decide_eq_true hb))

theorem mem_map_fst {l : List (String × Record)} {k : String} (h : ∀ e ∈ l, k < e.1) :
    k ∉ l.map (·.1) := by
  intro hk
  obtain ⟨e, he, heq⟩ := List.mem_map.mp hk
  exact absurd (h e he) (by rw [heq]; exact lt_irrefl k)

theorem own_spec {rejected : List String} {e : String × Record}
    {state pinned merged : List (String × Record)} (hstate : ∀ e' ∈ state, e.1 < e'.1)
    (hpinned : ∀ p ∈ pinned, e.1 < p.1) (hmerged : Ascending merged)
    (hmem : ∀ x, x ∈ merged ↔ Merged rejected state pinned x) :
    Ascending (if e.1 ∈ rejected then merged else e :: merged) ∧
      (∀ x ∈ if e.1 ∈ rejected then merged else e :: merged, e.1 ≤ x.1) ∧
      ∀ x, x ∈ (if e.1 ∈ rejected then merged else e :: merged) ↔
        Merged rejected (e :: state) pinned x := by
  have hlater : ∀ x ∈ merged, e.1 < x.1 := by
    intro x hx
    rcases (hmem x).mp hx with hx | ⟨hx, -⟩
    · exact hpinned x hx
    · exact hstate x hx
  have hout : e.1 ∉ pinned.map (·.1) := mem_map_fst hpinned
  split
  · next hrejected =>
    refine ⟨hmerged, fun x hx => le_of_lt (hlater x hx), fun x => ?_⟩
    rw [hmem, Merged, Merged, List.mem_cons]
    constructor
    · exact Or.imp_right fun h => ⟨.inr h.1, h.2⟩
    · rintro (hx | ⟨rfl | hx, h⟩)
      · exact .inl hx
      · exact absurd hrejected h.2
      · exact .inr ⟨hx, h⟩
  · next hkept =>
    refine ⟨List.pairwise_cons.mpr ⟨hlater, hmerged⟩, fun x hx => ?_, fun x => ?_⟩
    · rcases List.mem_cons.mp hx with rfl | hx
      · exact le_refl _
      · exact le_of_lt (hlater x hx)
    · rw [List.mem_cons, hmem, Merged, Merged, List.mem_cons]
      constructor
      · rintro (rfl | hx | h)
        · exact .inr ⟨.inl rfl, hout, hkept⟩
        · exact .inl hx
        · exact .inr ⟨.inr h.1, h.2⟩
      · rintro (hx | ⟨rfl | hx, h⟩)
        · exact .inr (.inl hx)
        · exact .inl rfl
        · exact .inr (.inr ⟨hx, h⟩)

theorem pin_spec {rejected : List String} {e p : String × Record}
    {state rest merged : List (String × Record)} (hkey : p.1 = e.1)
    (hstate : ∀ e' ∈ state, e.1 < e'.1) (hrest : ∀ q ∈ rest, p.1 < q.1) (hmerged : Ascending merged)
    (hmem : ∀ x, x ∈ merged ↔ Merged rejected state rest x) :
    Ascending (p :: merged) ∧ (∀ x ∈ p :: merged, e.1 ≤ x.1) ∧
      ∀ x, x ∈ p :: merged ↔ Merged rejected (e :: state) (p :: rest) x := by
  have hlater : ∀ x ∈ merged, p.1 < x.1 := by
    intro x hx
    rcases (hmem x).mp hx with hx | ⟨hx, -⟩
    · exact hrest x hx
    · rw [hkey]
      exact hstate x hx
  refine ⟨List.pairwise_cons.mpr ⟨hlater, hmerged⟩, fun x hx => ?_, fun x => ?_⟩
  · rw [← hkey]
    rcases List.mem_cons.mp hx with rfl | hx
    · exact le_refl _
    · exact le_of_lt (hlater x hx)
  · simp only [List.mem_cons, hmem, Merged, List.map_cons, not_or]
    constructor
    · rintro (rfl | hx | ⟨hx, hpinned, hrejected⟩)
      · exact .inl (.inl rfl)
      · exact .inl (.inr hx)
      · have hne : x.1 ≠ p.1 := by
          rw [hkey]
          exact ne_of_gt (hstate x hx)
        exact .inr ⟨.inr hx, ⟨hne, hpinned⟩, hrejected⟩
    · rintro ((rfl | hx) | ⟨rfl | hx, ⟨hne, hpinned⟩, hrejected⟩)
      · exact .inl rfl
      · exact .inr (.inl hx)
      · exact absurd hkey.symm hne
      · exact .inr (.inr ⟨hx, hpinned, hrejected⟩)

theorem mergePinned_spec (rejected : List String) {state pinned : List (String × Record)}
    (hstate : Ascending state) (hpinned : Ascending pinned) :
    Ascending (mergePinned rejected state pinned) ∧
      ∀ x, x ∈ mergePinned rejected state pinned ↔ Merged rejected state pinned x := by
  induction state generalizing pinned with
  | nil => exact ⟨hpinned, fun x => by simp [mergePinned, Merged]⟩
  | cons e state ih =>
    obtain ⟨hlater, hstate⟩ := List.pairwise_cons.mp hstate
    obtain ⟨htake, hdrop⟩ := split_ascending hpinned e.1
    have hfront : ∀ p ∈ pinned.takeWhile (below e.1), p ∈ pinned ∧ p.1 < e.1 := by
      intro p hp
      rw [htake, List.mem_filter] at hp
      exact ⟨hp.1, of_decide_eq_true hp.2⟩
    have hback : ∀ p ∈ pinned.dropWhile (below e.1), e.1 ≤ p.1 := by
      intro p hp
      rw [hdrop, List.mem_filter, below, Bool.not_eq_true', decide_eq_false_iff_not] at hp
      exact le_of_not_gt hp.2
    have hsplit : pinned.takeWhile (below e.1) ++ pinned.dropWhile (below e.1) = pinned :=
      List.takeWhile_append_dropWhile
    have hbackAscending : Ascending (pinned.dropWhile (below e.1)) := by
      rw [hdrop]
      exact hpinned.filter _
    -- what the walk emits from the entry on
    obtain ⟨tail, hmerge, hascending, hle, hmem⟩ : ∃ tail,
        mergePinned rejected (e :: state) pinned = pinned.takeWhile (below e.1) ++ tail ∧
          Ascending tail ∧
        (∀ x ∈ tail, e.1 ≤ x.1) ∧ ∀ x, x ∈ tail ↔ Merged rejected (e :: state)
          (pinned.dropWhile (below e.1)) x := by
      rw [mergePinned]
      refine ⟨_, rfl, ?_⟩
      generalize pinned.dropWhile (below e.1) = back at hback hbackAscending
      cases back with
      | nil => exact own_spec hlater (by simp) (ih hstate .nil).1 (ih hstate .nil).2
      | cons p rest =>
        obtain ⟨hp, hrest⟩ := List.pairwise_cons.mp hbackAscending
        by_cases hkey : p.1 = e.1
        · dsimp only
          rw [if_pos hkey]
          exact pin_spec hkey hlater hp (ih hstate hrest).1 (ih hstate hrest).2
        · have hlt : ∀ q ∈ p :: rest, e.1 < q.1 := by
            have hfirst : e.1 < p.1 :=
              lt_of_le_of_ne (hback p (List.mem_cons_self ..)) (Ne.symm hkey)
            intro q hq
            rcases List.mem_cons.mp hq with rfl | hq
            · exact hfirst
            · exact lt_trans hfirst (hp q hq)
          dsimp only
          rw [if_neg hkey]
          exact own_spec hlater hlt (ih hstate hbackAscending).1 (ih hstate hbackAscending).2
    have hfrontAscending : Ascending (pinned.takeWhile (below e.1)) := by
      rw [htake]
      exact hpinned.filter _
    rw [hmerge]
    refine ⟨List.pairwise_append.mpr ⟨hfrontAscending, hascending, fun p hp x hx => ?_⟩,
      fun x => ?_⟩
    · exact lt_of_lt_of_le (hfront p hp).2 (hle x hx)
    · have hpin : x ∈ pinned ↔ x ∈ pinned.takeWhile (below e.1) ∨
          x ∈ pinned.dropWhile (below e.1) := by
        rw [← List.mem_append, hsplit]
      have hkeys : x ∈ e :: state →
          (x.1 ∉ pinned.map (·.1) ↔ x.1 ∉ (pinned.dropWhile (below e.1)).map (·.1)) := by
        intro hx
        have hge : e.1 ≤ x.1 := by
          rcases List.mem_cons.mp hx with rfl | hx
          · exact le_refl _
          · exact le_of_lt (hlater x hx)
        have hout : x.1 ∉ (pinned.takeWhile (below e.1)).map (·.1) := by
          intro h
          obtain ⟨p, hp, heq⟩ := List.mem_map.mp h
          exact absurd (lt_of_lt_of_le (hfront p hp).2 hge) (by rw [heq]; exact lt_irrefl _)
        conv_lhs => rw [← hsplit, List.map_append, List.mem_append, not_or]
        exact and_iff_right hout
      rw [List.mem_append, hmem, Merged, Merged, hpin, or_assoc]
      refine or_congr_right (or_congr_right ?_)
      constructor
      · exact fun h => ⟨h.1, (hkeys h.1).mpr h.2.1, h.2.2⟩
      · exact fun h => ⟨h.1, (hkeys h.1).mp h.2.1, h.2.2⟩

/-! ### What is listed -/

theorem pinnedRecords_spec {s : ObservedState} {p : Publication} (hown : OwnKeys s p) :
    Ascending (pinnedRecords canonicalJson p.stale) ∧
      ∀ k r, (k, r) ∈ pinnedRecords canonicalJson p.stale ↔ pinOf canonicalJson p k = some r := by
  have hperm := List.perm_insertionSort (fun a b : String × Record => a.1 ≤ b.1)
    ((KeyMap.values p.stale).map fun pin => (pin.entry.key, pin.record canonicalJson))
  constructor
  · have hle : (pinnedRecords canonicalJson p.stale).Pairwise fun a b => a.1 ≤ b.1 :=
      List.pairwise_insertionSort _ _
    have hnodup : ((pinnedRecords canonicalJson p.stale).map (·.1)).Nodup := by
      refine (hperm.map _).nodup_iff.mpr ?_
      rw [List.map_map]
      exact KeyMap.nodup_map_values fun k pin hpin => (hown k pin hpin).1
    exact (hle.and (List.pairwise_map.mp hnodup)).imp fun h => lt_of_le_of_ne h.1 h.2
  · intro k r
    rw [pinnedRecords, hperm.mem_iff, List.mem_map, pinOf]
    constructor
    · rintro ⟨pin, hpin, heq⟩
      obtain ⟨k', hlookup⟩ := KeyMap.mem_values.mp hpin
      obtain ⟨rfl, rfl⟩ := Prod.mk.inj heq
      rw [(hown k' pin hlookup).1, hlookup]
      rfl
    · intro h
      obtain ⟨pin, hlookup, rfl⟩ := Option.map_eq_some_iff.mp h
      exact ⟨pin, KeyMap.mem_values.mpr ⟨k, hlookup⟩, by rw [(hown k pin hlookup).1]⟩

theorem ascending_recordsByKey (s : ObservedState) : Ascending s.recordsByKey :=
  List.pairwise_map.mpr s.entries.sorted

theorem mem_recordsByKey {s : ObservedState} {k : String} {r : Record} :
    (k, r) ∈ s.recordsByKey ↔ recordOf s.entries k = some r := by
  rw [recordsByKey, List.mem_map, recordOf, Option.map_eq_some_iff]
  constructor
  · rintro ⟨⟨k', row⟩, hrow, heq⟩
    obtain ⟨rfl, rfl⟩ := Prod.mk.inj heq
    exact ⟨row, SortedMap.mem_entries_iff.mp hrow, rfl⟩
  · rintro ⟨row, hget, rfl⟩
    exact ⟨(k, row), SortedMap.mem_entries_iff.mpr hget, rfl⟩

theorem servedRecords_spec {s : ObservedState} {p : Publication} (hown : OwnKeys s p) :
    ∃ listed : List (String × Record), servedRecords canonicalJson s.recordsByKey p =
      listed.map (·.2) ∧ Ascending listed ∧ ∀ k r, (k, r) ∈ listed ↔
      s.served canonicalJson p k = some r := by
  obtain ⟨hpinned, hpin⟩ := @pinnedRecords_spec canonicalJson s p hown
  obtain ⟨hascending, hmem⟩ := mergePinned_spec p.rejected s.ascending_recordsByKey hpinned
  refine ⟨_, rfl, hascending, fun k r => ?_⟩
  have hkeys : k ∈ (pinnedRecords canonicalJson p.stale).map (·.1) ↔
      ∃ r', pinOf canonicalJson p k = some r' := by
    rw [List.mem_map]
    constructor
    · rintro ⟨⟨k', r'⟩, h, rfl⟩
      exact ⟨r', (hpin k' r').mp h⟩
    · rintro ⟨r', h⟩
      exact ⟨(k, r'), (hpin k r').mpr h, rfl⟩
  rw [hmem, Merged, hpin, mem_recordsByKey, hkeys, served, servedRecord_eq, servedFrom]
  unfold pinOf
  cases p.stale.lookup k with
  | some pin => simp
  | none =>
    by_cases hrejected : k ∈ p.rejected <;> simp [hrejected]

/-- In a run that follows the rules the version moves exactly when what is served does, and what is
served is listed in the order of the keys. -/
theorem publishServed_exact (canonicalJson : Bytes → Option Bytes) (done : List Interval)
    (i : Interval)
    (h : ∀ before j rest, done ++ [i] = before ++ j :: rest →
      Follows canonicalJson (after canonicalJson before) j
        (Noted canonicalJson (after canonicalJson before) j)) :
    Exact canonicalJson (after canonicalJson done) i ∧
      ∃ listed : List (String × Record),
        servedRecords canonicalJson
          ((after canonicalJson done).1.writes canonicalJson i.writes).recordsByKey i.published =
          listed.map (·.2) ∧ Ascending listed ∧
        ∀ k r, (k, r) ∈ listed ↔
          ((after canonicalJson done).1.writes canonicalJson i.writes).served canonicalJson
          i.published k = some r := by
  have hfollows := h done i [] rfl
  refine ⟨?_, servedRecords_spec hfollows.1⟩
  have hafter :
      Since canonicalJson (after canonicalJson done).1
      (recordOf (after canonicalJson done).1.entries) (after canonicalJson done).2 :=
      since_after fun before j rest hdone => h before j (rest ++ [i]) (by simp [hdone])
  have hmoved := publishServed_moved (since_writes hafter i.writes) (pinsNoted_writes hfollows)
  have hversion := @servedVersion_writes canonicalJson (after canonicalJson done).1 i.writes
  unfold Exact
  generalize (after canonicalJson done).1.writes canonicalJson i.writes = s at hmoved hversion ⊢
  have hpublished : (s.publishServed canonicalJson i.published).2 =
      if ((s.candidates i.published.filtered).foldl (s.settle canonicalJson i.published)
        (false, s.entries)).1 then
        s.servedVersion + 1 else s.servedVersion := rfl
  rw [hversion] at hpublished
  dsimp only
  by_cases hserved :
    s.served canonicalJson i.published = (after canonicalJson done).1.served canonicalJson
    (after canonicalJson done).2
  · refine .inr ⟨?_, hserved⟩
    rw [hpublished, if_neg]
    exact fun hfold => hmoved.mp hfold hserved
  · refine .inl ⟨?_, hserved⟩
    rw [hpublished, if_pos (hmoved.mpr hserved)]

/-! ### Pins of one key -/

/-- Bytes put in for the key `m`. -/
def put (bytes : Bytes) (revision : Int) : RawEntry := ⟨"m", bytes, revision⟩

def pinned (bytes : Bytes) : Publication :=
  ⟨["m"], (∅ : KeyMap String StaleServing).insert "m" ⟨put bytes 0, 0⟩⟩

def noJson : Bytes → Option Bytes := fun _ => none

theorem lookup_pinned (bytes : Bytes) (k : String) :
    (pinned bytes).stale.lookup k = if k = "m" then some ⟨put bytes 0, 0⟩ else none := by
  unfold pinned
  split
  · next hk =>
    rw [hk]
    exact AList.lookup_insert _
  · next hk => exact AList.lookup_insert_ne hk

theorem follows_pinned {last : ObservedState × Publication} {ws : List Write} {bytes : Bytes}
    {excused : String → Prop}
    (hobserved : ∃ row, (last.1.writes noJson ws).entries.get? "m" = some row)
    (hlast : ∀ k ≠ "m", last.2.stale.lookup k = none) (hexcused : excused "m") :
    Follows noJson last ⟨ws, pinned bytes⟩ excused := by
  constructor
  · intro k pin hpin
    rw [lookup_pinned] at hpin
    split at hpin
    · next hk =>
      obtain rfl := Option.some.inj hpin
      exact ⟨hk.symm, hk ▸ hobserved⟩
    · cases hpin
  · intro k hne
    by_cases hk : k = "m"
    · rw [hk]
      exact hexcused
    · refine absurd ?_ hne
      rw [pinOf, pinOf, lookup_pinned, if_neg hk, hlast k hk]

theorem forall_twoIntervals {P : List Interval → Interval → Prop} {i j : Interval} (hi : P [] i)
    (hj : P [i] j) : ∀ before k rest, [i] ++ [j] = before ++ k :: rest → P before k := by
  intro before k rest h
  rcases before with _ | ⟨a, _ | ⟨b, before⟩⟩
  · obtain ⟨rfl, -⟩ := List.cons.inj h
    exact hi
  · obtain ⟨ha, h⟩ := List.cons.inj h
    obtain ⟨hb, -⟩ := List.cons.inj h
    rw [← ha, ← hb]
    exact hj
  · simp at h

/-- A pin that changes when its entry does. -/
theorem publishServed_exact_pinned :
    Exact noJson (after noJson [⟨[.insert (put [1] 1)], pinned [0]⟩])
      ⟨[.insert (put [2] 2)], pinned [3]⟩ := by
  refine (publishServed_exact noJson [⟨[.insert (put [1] 1)], pinned [0]⟩]
    ⟨[.insert (put [2] 2)], pinned [3]⟩ (forall_twoIntervals ?_ ?_)).1
  · refine follows_pinned ⟨_, rfl⟩ (fun k _ => rfl) (.inl (.inl ⟨rfl, ?_⟩))
    decide
  · refine follows_pinned ⟨_, rfl⟩ (fun k hk => ?_) (.inl (.inl ⟨rfl, ?_⟩))
    · exact (lookup_pinned [0] k).trans (if_neg hk)
    · decide

def Write.key : Write → String
  | .insert entry => entry.key
  | .remove key => key

/-- Excused are all keys that are written, and those that begin or cease to be rejected, or to be
pinned. -/
def Written (last : ObservedState × Publication) (i : Interval) (k : String) : Prop :=
  (∃ w ∈ i.writes, w.key = k) ∨ ¬ (k ∈ i.published.rejected ↔ k ∈ last.2.rejected) ∨
    ¬ ((i.published.stale.lookup k).isSome ↔ (last.2.stale.lookup k).isSome)

/-- A key written with the bytes it had is not looked at, even if its pin is another one. -/
theorem rewritten_pin_unseen :
    ¬ ∀ canonicalJson done i, (∀ before j rest, done ++ [i] = before ++ j :: rest →
      Follows canonicalJson (after canonicalJson before) j
        (Written (after canonicalJson before) j)) →
        Exact canonicalJson (after canonicalJson done) i := by
  intro h
  have hexact :=
    h noJson [⟨[.insert (put [1] 1)], pinned [0]⟩] ⟨[.insert (put [1] 2)], pinned [3]⟩
      (forall_twoIntervals
        (follows_pinned ⟨_, rfl⟩ (fun k _ => rfl) (.inl ⟨_, List.mem_singleton_self _, rfl⟩))
        (follows_pinned ⟨_, rfl⟩ (fun k hk => (lookup_pinned [0] k).trans (if_neg hk))
          (.inl ⟨_, List.mem_singleton_self _, rfl⟩)))
  rcases hexact with ⟨hversion, -⟩ | ⟨-, hserved⟩
  · exact absurd hversion (by decide)
  · exact absurd (congrFun hserved "m") (by decide)

end ObservedState
end Etcd
end Aisix
