import Mathlib.Algebra.Order.Ring.Nat
import Mathlib.Data.Finset.Basic

/-!
# Aisix.BlockStream

A stream of numbered blocks that may overlap: each is started once, in the order of the numbers,
carries deltas while it is live, and is stopped once. `read` is a reader that refuses everything
else, and what it accepts is well formed block by block.
-/

namespace Aisix
namespace BlockStream

/-- `β` is what a start says of its block, `δ` what a delta adds. -/
inductive Event (β δ : Type) where
  | start (index : Nat) (block : β)
  | delta (index : Nat) (delta : δ)
  | stop (index : Nat)
  deriving DecidableEq, Repr

variable {β δ : Type}

def Event.index : Event β δ → Nat
  | .start i _ => i
  | .delta i _ => i
  | .stop i => i

def Event.started? : Event β δ → Option Nat
  | .start i _ => some i
  | _ => none

/-- How many blocks were started, and which of them are live. -/
structure Reader where
  next : Nat
  live : Finset Nat

def Reader.init : Reader := ⟨0, ∅⟩

def Reader.read (r : Reader) : Event β δ → Option Reader
  | .start i _ => if i = r.next then some ⟨r.next + 1, insert i r.live⟩ else none
  | .delta i _ => if i ∈ r.live then some r else none
  | .stop i => if i ∈ r.live then some ⟨r.next, r.live.erase i⟩ else none

def Reader.readAll (r : Reader) (es : List (Event β δ)) : Option Reader := es.foldlM Reader.read r

@[simp] theorem Reader.readAll_nil (r : Reader) : r.readAll ([] : List (Event β δ)) = some r := rfl

theorem Reader.readAll_append (r : Reader) (es fs : List (Event β δ)) :
    r.readAll (es ++ fs) = (r.readAll es).bind (·.readAll fs) := by
  simp [readAll, List.foldlM_append]

@[simp] theorem Reader.readAll_cons (r : Reader) (e : Event β δ) (es : List (Event β δ)) :
    r.readAll (e :: es) = (r.read e).bind (·.readAll es) := rfl

theorem Reader.readAll_concat {r r' r'' : Reader} {es fs : List (Event β δ)}
    (h : r.readAll es = some r')
    (h' : r'.readAll fs = some r'') : r.readAll (es ++ fs) = some r'' := by
  rw [readAll_append, h, Option.bind_some, h']

/-- Every live block was started. -/
def Reader.Bounded (r : Reader) : Prop := ∀ i ∈ r.live, i < r.next

theorem Reader.Bounded.read {r r' : Reader} {e : Event β δ} (h : r.Bounded)
    (hread : r.read e = some r') : r'.Bounded ∧ r.next ≤ r'.next ∧ e.index < r'.next := by
  cases e with
  | start i block =>
    simp only [Reader.read] at hread
    split at hread
    · next hi =>
      obtain rfl : _ = r' := Option.some.inj hread
      refine ⟨fun j hj => ?_, Nat.le_succ _, by simp [Event.index, hi]⟩
      rcases Finset.mem_insert.mp hj with rfl | hj
      · simp [hi]
      · exact Nat.lt_succ_of_lt (h j hj)
    · cases hread
  | delta i d =>
    simp only [Reader.read] at hread
    split at hread
    · next hi =>
      obtain rfl : _ = r' := Option.some.inj hread
      exact ⟨h, Nat.le_refl _, h i hi⟩
    · cases hread
  | stop i =>
    simp only [Reader.read] at hread
    split at hread
    · next hi =>
      obtain rfl : _ = r' := Option.some.inj hread
      exact ⟨fun j hj => h j (Finset.mem_of_mem_erase hj), Nat.le_refl _, h i hi⟩
    · cases hread

/-- The events of one block, as far as they were read. -/
def BlockSoFar (live : Bool) (i : Nat) (es : List (Event β δ)) : Prop :=
  ∃ (block : β) (ds : List δ), es.filter (·.index = i) =
    .start i block :: ds.map (.delta i) ++ if live then [] else [.stop i]

/-- What the reader knows of the events it has read. -/
structure Known (es : List (Event β δ)) (r : Reader) : Prop where
  bounded : r.Bounded
  started : es.filterMap Event.started? = List.range r.next
  index_lt : ∀ e ∈ es, e.index < r.next
  blocks : ∀ i < r.next, BlockSoFar (decide (i ∈ r.live)) i es

theorem known_init : Known ([] : List (Event β δ)) Reader.init where
  bounded := by simp [Reader.Bounded, Reader.init]
  started := rfl
  index_lt := by simp
  blocks := by simp [Reader.init]

theorem filter_concat_ne {es : List (Event β δ)} {e : Event β δ} {i : Nat} (h : e.index ≠ i) :
    (es ++ [e]).filter (·.index = i) = es.filter (·.index = i) := by
  simp [List.filter_append, h]

theorem filter_concat_eq {es : List (Event β δ)} {e : Event β δ} {i : Nat} (h : e.index = i) :
    (es ++ [e]).filter (·.index = i) = es.filter (·.index = i) ++ [e] := by
  simp [List.filter_append, h]

theorem Known.read {es : List (Event β δ)} {r r' : Reader} {e : Event β δ} (h : Known es r)
    (hread : r.read e = some r') : Known (es ++ [e]) r' := by
  obtain ⟨hbounded, hle, hlt⟩ := h.bounded.read hread
  have hindex : ∀ e' ∈ es ++ [e], e'.index < r'.next := by
    intro e' he'
    rcases List.mem_append.mp he' with he' | he'
    · exact Nat.lt_of_lt_of_le (h.index_lt e' he') hle
    · rw [List.mem_singleton.mp he']
      exact hlt
  cases e with
  | start i block =>
    simp only [Reader.read] at hread
    split at hread
    · next hi =>
      obtain rfl : _ = r' := Option.some.inj hread
      refine ⟨hbounded, ?_, hindex, fun j hj => ?_⟩
      · rw [List.filterMap_append, h.started, List.range_succ, hi]
        rfl
      · by_cases hji : j = i
        · subst hji
          have hnone : es.filter (·.index = j) = [] := by
            rw [List.filter_eq_nil_iff]
            intro e' he' heq
            have := h.index_lt e' he'
            simp only [decide_eq_true_eq] at heq
            omega
          refine ⟨block, [], ?_⟩
          rw [filter_concat_eq (show (Event.start j block).index = j from rfl), hnone]
          simp
        · obtain ⟨block', ds, hds⟩ := h.blocks j (by simp only at hj; omega)
          refine ⟨block', ds, ?_⟩
          rw [filter_concat_ne (by simpa [Event.index] using Ne.symm hji), hds]
          simp [hji]
    · cases hread
  | delta i d =>
    simp only [Reader.read] at hread
    split at hread
    · next hi =>
      obtain rfl : r = r' := Option.some.inj hread
      refine ⟨hbounded, ?_, hindex, fun j hj => ?_⟩
      · rw [List.filterMap_append, h.started]
        simp [Event.started?]
      · obtain ⟨block, ds, hds⟩ := h.blocks j hj
        by_cases hji : j = i
        · subst hji
          refine ⟨block, ds ++ [d], ?_⟩
          rw [filter_concat_eq (show (Event.delta j d).index = j from rfl), hds]
          simp [hi]
        · refine ⟨block, ds, ?_⟩
          rw [filter_concat_ne (by simpa [Event.index] using Ne.symm hji), hds]
    · cases hread
  | stop i =>
    simp only [Reader.read] at hread
    split at hread
    · next hi =>
      obtain rfl : _ = r' := Option.some.inj hread
      refine ⟨hbounded, ?_, hindex, fun j hj => ?_⟩
      · rw [List.filterMap_append, h.started]
        simp [Event.started?]
      · obtain ⟨block, ds, hds⟩ := h.blocks j hj
        refine ⟨block, ds, ?_⟩
        by_cases hji : j = i
        · subst hji
          rw [filter_concat_eq (show Event.index (.stop j : Event β δ) = j from rfl), hds]
          simp [hi]
        · rw [filter_concat_ne (by simpa [Event.index] using Ne.symm hji), hds]
          simp [hji]
    · cases hread

theorem Known.readAll {es fs : List (Event β δ)} {r r' : Reader} (h : Known es r)
    (hread : r.readAll fs = some r') : Known (es ++ fs) r' := by
  induction fs generalizing es r with
  | nil =>
    obtain rfl : r = r' := Option.some.inj hread
    simpa using h
  | cons e fs ih =>
    rw [Reader.readAll_cons, Option.bind_eq_some_iff] at hread
    obtain ⟨r₁, hone, hrest⟩ := hread
    rw [List.append_cons]
    exact ih (h.read hone) hrest

/-- The blocks are numbered in the order of their starts, and each is a start, its deltas and a
stop. -/
def WellFormed (es : List (Event β δ)) : Prop :=
  ∃ n, es.filterMap Event.started? = List.range n ∧ (∀ e ∈ es, e.index < n) ∧
    ∀ i < n, ∃ (block : β) (ds : List δ),
      es.filter (·.index = i) = .start i block :: ds.map (.delta i) ++ [.stop i]

theorem wellFormed_of_readAll {es : List (Event β δ)} {n : Nat}
    (h : Reader.init.readAll es = some ⟨n, ∅⟩) : WellFormed es := by
  have hknown := known_init.readAll h
  exact ⟨n, hknown.started, hknown.index_lt, hknown.blocks⟩

theorem Reader.readAll_stops {n : Nat} {live : Finset Nat} {is : List Nat} (hnodup : is.Nodup)
    (hlive : ∀ i ∈ is, i ∈ live) :
    Reader.readAll ⟨n, live⟩ (is.map (Event.stop : Nat → Event β δ)) =
      some ⟨n, live \ is.toFinset⟩ := by
  induction is generalizing live with
  | nil => simp
  | cons i is ih =>
    obtain ⟨hnot, hrest⟩ := List.nodup_cons.mp hnodup
    have htail : ∀ j ∈ is, j ∈ live.erase i := by
      intro j hj
      exact Finset.mem_erase.mpr ⟨fun h => hnot (h ▸ hj), hlive j (by simp [hj])⟩
    rw [List.map_cons, Reader.readAll_cons, Reader.read, if_pos (hlive i (by simp)),
      Option.bind_some, ih hrest htail]
    congr 2
    ext j
    simp only [Finset.mem_sdiff, Finset.mem_erase, List.toFinset_cons, Finset.mem_insert]
    by_cases h : j = i
    · simp [h]
    · simp [h]

/-! ### Writers -/

section Writers

variable {ω : Type}

/-- The events so far are accepted, the next block is `n`, and the live blocks are those the writers
hold, each its own. -/
structure Reads (es : List (Event β δ)) (n : Nat) (slot : ω → Option Nat) : Prop where
  accepted : ∃ live, Reader.init.readAll es = some ⟨n, live⟩ ∧ ∀ i, i ∈ live ↔ ∃ o, slot o = some i
  distinct : ∀ {o o' i}, slot o = some i → slot o' = some i → o = o'

theorem reads_nil : Reads ([] : List (Event β δ)) 0 fun _ : ω => none where
  accepted := ⟨∅, rfl, by simp⟩
  distinct := by simp

variable {es : List (Event β δ)} {n : Nat} {slot slot' : ω → Option Nat} {o : ω} {i : Nat}

theorem Reads.index_lt (h : Reads es n slot) : ∀ e ∈ es, e.index < n := by
  obtain ⟨live, hread, -⟩ := h.accepted
  exact (known_init.readAll hread).index_lt

theorem Reads.slot_lt (h : Reads es n slot) (hslot : slot o = some i) : i < n := by
  obtain ⟨live, hread, hlive⟩ := h.accepted
  exact (known_init.readAll hread).bounded i ((hlive i).mpr ⟨o, hslot⟩)

theorem Reads.start [DecidableEq ω] (h : Reads es n slot) (hnone : slot o = none) (block : β)
    (hslot' : ∀ o', slot' o' = if o' = o then some n else slot o') :
    Reads (es ++ [.start n block]) (n + 1) slot' := by
  obtain ⟨live, hread, hlive⟩ := h.accepted
  refine ⟨⟨insert n live, Reader.readAll_concat hread (by simp [Reader.read]), fun i => ?_⟩, ?_⟩
  · rw [Finset.mem_insert, hlive]
    constructor
    · rintro (rfl | ⟨o', ho'⟩)
      · exact ⟨o, by simp [hslot']⟩
      · refine ⟨o', ?_⟩
        rw [hslot', if_neg ?_, ho']
        rintro rfl
        simp [hnone] at ho'
    · rintro ⟨o', ho'⟩
      rw [hslot'] at ho'
      split at ho'
      · exact .inl (Option.some.inj ho').symm
      · exact .inr ⟨o', ho'⟩
  · intro o₁ o₂ i h₁ h₂
    rw [hslot'] at h₁ h₂
    split at h₁ <;> split at h₂
    · simp [*]
    · have := h.slot_lt h₂
      simp_all
    · have := h.slot_lt h₁
      simp_all
    · exact h.distinct h₁ h₂

theorem Reads.delta (h : Reads es n slot) (hslot : slot o = some i) (d : δ) :
    Reads (es ++ [.delta i d]) n slot := by
  obtain ⟨live, hread, hlive⟩ := h.accepted
  have hi : i ∈ live := (hlive i).mpr ⟨o, hslot⟩
  exact ⟨⟨live, Reader.readAll_concat hread (by simp [Reader.read, hi]), hlive⟩, h.distinct⟩

theorem Reads.stop [DecidableEq ω] (h : Reads es n slot) (hslot : slot o = some i)
    (hslot' : ∀ o', slot' o' = if o' = o then none else slot o') :
    Reads (es ++ [.stop i]) n slot' := by
  obtain ⟨live, hread, hlive⟩ := h.accepted
  have hi : i ∈ live := (hlive i).mpr ⟨o, hslot⟩
  refine ⟨⟨live.erase i, Reader.readAll_concat hread (by simp [Reader.read, hi]), fun j => ?_⟩, ?_⟩
  · rw [Finset.mem_erase, hlive]
    constructor
    · rintro ⟨hne, o', ho'⟩
      refine ⟨o', ?_⟩
      rw [hslot', if_neg ?_, ho']
      rintro rfl
      exact hne (Option.some.inj (ho'.symm.trans hslot))
    · rintro ⟨o', ho'⟩
      rw [hslot'] at ho'
      split at ho'
      · cases ho'
      · next hne =>
        refine ⟨?_, o', ho'⟩
        rintro rfl
        exact hne (h.distinct ho' hslot)
  · intro o₁ o₂ j h₁ h₂
    rw [hslot'] at h₁ h₂
    split at h₁
    · cases h₁
    · split at h₂
      · cases h₂
      · exact h.distinct h₁ h₂

theorem Reads.stopAll {is : List Nat} (h : Reads es n slot) (hnodup : is.Nodup)
    (his : ∀ i, i ∈ is ↔ ∃ o, slot o = some i) :
    Reads (es ++ is.map .stop) n fun _ : ω => none := by
  obtain ⟨live, hread, hlive⟩ := h.accepted
  have hall : is.toFinset = live := by
    ext i
    rw [List.mem_toFinset, his, hlive]
  have hstops : Reader.readAll ⟨n, live⟩ (is.map (Event.stop : Nat → Event β δ)) =
      some ⟨n, live \ is.toFinset⟩ :=
    Reader.readAll_stops hnodup fun i hi => (hlive i).mpr ((his i).mp hi)
  refine ⟨⟨∅, Reader.readAll_concat hread ?_, by simp⟩, by simp⟩
  rw [hstops, hall, Finset.sdiff_self]

theorem Reads.whole [DecidableEq ω] (h : Reads es n slot) (hnone : slot o = none) (block : β)
    (d : δ) : Reads (es ++ [.start n block, .delta n d, .stop n]) (n + 1) slot := by
  have hstart := h.start hnone block fun w => rfl
  have hdelta := hstart.delta (o := o) (i := n) (by simp) d
  rw [List.append_cons, List.append_cons]
  refine hdelta.stop (o := o) (by simp) fun w => ?_
  split
  · next heq => rw [heq, hnone]
  · rfl

theorem Reads.wellFormed (h : Reads es n fun _ : ω => none) : WellFormed es := by
  obtain ⟨live, hread, hlive⟩ := h.accepted
  obtain rfl : live = ∅ := by
    ext i
    simp [hlive]
  exact wellFormed_of_readAll hread

end Writers

/-! ### What the deltas say -/

/-- One text after the other. -/
def joined {α : Type} (f : α → String) : List α → String
  | [] => ""
  | a :: as => f a ++ joined f as

@[simp] theorem joined_nil {α : Type} (f : α → String) : joined f [] = "" := rfl

@[simp] theorem joined_cons {α : Type} (f : α → String) (a : α) (as : List α) :
    joined f (a :: as) = f a ++ joined f as := rfl

@[simp] theorem joined_append {α : Type} (f : α → String) (as bs : List α) :
    joined f (as ++ bs) = joined f as ++ joined f bs := by
  induction as with
  | nil => simp
  | cons a as ih => simp [ih, String.append_assoc]

theorem joined_eq_empty {α : Type} {f : α → String} {as : List α} (h : ∀ a ∈ as, f a = "") :
    joined f as = "" := by
  induction as with
  | nil => rfl
  | cons a as ih =>
    rw [joined_cons, h a (by simp), ih fun b hb => h b (by simp [hb])]
    rfl

/-- The parts `f` takes from the deltas. -/
def said (f : Nat → δ → String) (es : List (Event β δ)) : String :=
  joined (fun | .delta i d => f i d | _ => "") es

variable (f : Nat → δ → String)

@[simp] theorem said_nil : said f ([] : List (Event β δ)) = "" := rfl

@[simp] theorem said_delta (i : Nat) (d : δ) (es : List (Event β δ)) :
    said f (.delta i d :: es) = f i d ++ said f es := rfl

@[simp] theorem said_start (i : Nat) (block : β) (es : List (Event β δ)) :
    said f (.start i block :: es) = said f es := by
  simp [said]

@[simp] theorem said_stop (i : Nat) (es : List (Event β δ)) :
    said f (.stop i :: es) = said f es := by
  simp [said]

@[simp] theorem said_append (es fs : List (Event β δ)) :
    said f (es ++ fs) = said f es ++ said f fs :=
  joined_append _ es fs

@[simp] theorem said_stops (is : List Nat) :
    said f (is.map (Event.stop : Nat → Event β δ)) = "" := by
  induction is with
  | nil => rfl
  | cons i is ih => simp [ih]

theorem said_eq_empty {es : List (Event β δ)} (h : ∀ e ∈ es, ∀ d, f e.index d = "") :
    said f es = "" := by
  refine joined_eq_empty fun e he => ?_
  cases e with
  | start i block => rfl
  | delta i d => exact h _ he d
  | stop i => rfl

end BlockStream
end Aisix
