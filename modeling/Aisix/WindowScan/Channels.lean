import Aisix.WindowScan.Relay

/-!
# Aisix.WindowScan.Channels

What the channels of a stream carry, and what a log of the relay's acts says was scanned and
released.
-/

namespace Aisix
namespace WindowScan

open ChoiceTexts

/-- What a channel carries over the chunks. -/
def channelText (key : Key) (chunks : List ChatChunk) : List Char :=
  pushed key (chunks.flatMap chunkTexts)

/-- Name and arguments of a call delta, in the order they are kept. -/
def callPushes (e : Key × List Char × List Char) : List (Key × List Char) :=
  [(e.1, e.2.1), (e.1, e.2.2)]

/-- The name and argument fragments of a tool call, as they came. -/
def callText (key : Key) (chunks : List ChatChunk) : List Char :=
  pushed key ((chunks.flatMap callTexts).flatMap callPushes)

theorem channelText_append (key : Key) (cs ds : List ChatChunk) :
    channelText key (cs ++ ds) = channelText key cs ++ channelText key ds := by
  rw [channelText, List.flatMap_append, pushed_append]
  rfl

theorem callText_append (key : Key) (cs ds : List ChatChunk) :
    callText key (cs ++ ds) = callText key cs ++ callText key ds := by
  rw [callText, List.flatMap_append, List.flatMap_append, pushed_append]
  rfl

theorem channelText_start (key : Key) {cs ds : List ChatChunk} (h : cs <+: ds) :
    channelText key cs <+: channelText key ds := by
  obtain ⟨es, rfl⟩ := h
  rw [channelText_append]
  exact List.prefix_append _ _

theorem callText_start (key : Key) {cs ds : List ChatChunk} (h : cs <+: ds) :
    callText key cs <+: callText key ds := by
  obtain ⟨es, rfl⟩ := h
  rw [callText_append]
  exact List.prefix_append _ _

/-! ### The log -/

/-- A scan of the log read the text whole. -/
def Scanned (acts : List Act) (p : List Char) : Prop :=
  ∃ text verdict, .scan text verdict ∈ acts ∧ p <:+: text

/-- The texts the scans of the log read. -/
def scanTexts (acts : List Act) : List (List Char) :=
  acts.filterMap fun
    | .scan text _ => some text
    | _ => none

theorem scanned_iff {acts : List Act} {p : List Char} :
    Scanned acts p ↔ ∃ text ∈ scanTexts acts, p <:+: text := by
  constructor
  · rintro ⟨text, verdict, hmem, hp⟩
    exact ⟨text, List.mem_filterMap.mpr ⟨_, hmem, rfl⟩, hp⟩
  · rintro ⟨text, hmem, hp⟩
    obtain ⟨a, ha, htext⟩ := List.mem_filterMap.mp hmem
    cases a with
    | scan text' verdict =>
      cases htext
      exact ⟨text, verdict, ha, hp⟩
    | _ => cases htext

instance (acts : List Act) (p : List Char) : Decidable (Scanned acts p) :=
  decidable_of_iff _ scanned_iff.symm

/-- No scan of the log blocked. -/
def Clean (acts : List Act) : Prop :=
  ∀ text verdict, .scan text verdict ∈ acts → verdict.isBlock = false

/-- Every text of up to `keep + 1` characters within a channel of the chunks was scanned whole, and
so was every tool call. -/
structure Covers (keep : Nat) (chunks : List ChatChunk) (acts : List Act) : Prop where
  channels : ∀ key p, p <:+: channelText key chunks → p.length ≤ keep + 1 → Scanned acts p
  calls : ∀ key, Scanned acts (callText key chunks)

/-- The numbers of the chunks released. -/
def released (acts : List Act) : List Nat :=
  acts.filterMap fun
    | .release position _ => some position
    | _ => none

theorem Scanned.append {acts : List Act} {p : List Char} (h : Scanned acts p) (more : List Act) :
    Scanned (acts ++ more) p := by
  obtain ⟨text, verdict, hmem, hp⟩ := h
  exact ⟨text, verdict, List.mem_append_left _ hmem, hp⟩

theorem Scanned.within {acts : List Act} {p q : List Char} (h : Scanned acts q) (hpq : p <:+: q) :
    Scanned acts p := by
  obtain ⟨text, verdict, hmem, hq⟩ := h
  exact ⟨text, verdict, hmem, hpq.trans hq⟩

theorem Covers.append {keep : Nat} {chunks : List ChatChunk} {acts : List Act}
    (h : Covers keep chunks acts) (more : List Act) : Covers keep chunks (acts ++ more) where
  channels key p hp hlength := (h.channels key p hp hlength).append more
  calls key := (h.calls key).append more

theorem Covers.of_start {keep : Nat} {cs ds : List ChatChunk} {acts : List Act}
    (h : Covers keep ds acts) (hcs : cs <+: ds) : Covers keep cs acts where
  channels key p hp hlength :=
    h.channels key p (hp.trans (channelText_start key hcs).isInfix) hlength
  calls key := (h.calls key).within (callText_start key hcs).isInfix

theorem Clean.append {acts more : List Act} (h : Clean acts) (hmore : Clean more) :
    Clean (acts ++ more) := by
  intro text verdict hmem
  rcases List.mem_append.mp hmem with hmem | hmem
  · exact h text verdict hmem
  · exact hmore text verdict hmem

@[simp] theorem released_nil : released [] = [] := rfl

@[simp] theorem released_append (acts more : List Act) :
    released (acts ++ more) = released acts ++ released more := List.filterMap_append

/-- The acts that send held chunks. -/
def sends (held : List (Nat × ChatChunk)) : List Act := held.map fun e => .release e.1 e.2

@[simp] theorem released_sends (held : List (Nat × ChatChunk)) :
    released (sends held) = held.map (·.1) := by
  rw [released, sends, List.filterMap_map]
  exact congrFun List.filterMap_eq_map' held

theorem clean_sends (held : List (Nat × ChatChunk)) : Clean (sends held) := by
  intro text verdict hmem
  obtain ⟨e, -, he⟩ := List.mem_map.mp hmem
  cases he

/-- Every chunk was released behind clean scans that cover the stream as far as it. -/
def Safe (keep : Nat) (chunks : List ChatChunk) (acts : List Act) : Prop :=
  ∀ before position chunk after, acts = before ++ .release position chunk :: after →
    Covers keep (chunks.take (position + 1)) before ∧ Clean before

theorem safe_nil (keep : Nat) (chunks : List ChatChunk) : Safe keep chunks [] := by
  intro before position chunk after h
  cases before <;> cases h

theorem Safe.quiet {keep : Nat} {chunks : List ChatChunk} {acts : List Act}
    (h : Safe keep chunks acts)
    {more : List Act} (hmore : released more = []) : Safe keep chunks (acts ++ more) := by
  intro before position chunk after heq
  rcases List.append_eq_append_iff.mp heq with ⟨mid, rfl, hmid⟩ | ⟨mid, rfl, hmid⟩
  · rw [hmid, released_append] at hmore
    cases (List.append_eq_nil_iff.mp hmore).2
  · cases mid with
    | nil =>
      rw [List.nil_append] at hmid
      rw [← hmid] at hmore
      cases hmore
    | cons a mid =>
      rw [List.cons_append] at hmid
      obtain ⟨rfl, -⟩ := List.cons.inj hmid
      exact h before position chunk mid rfl

theorem Safe.send {keep : Nat} {chunks : List ChatChunk} {acts : List Act}
    (h : Safe keep chunks acts) (hclean : Clean acts) {held : List (Nat × ChatChunk)}
    (hheld : ∀ e ∈ held, Covers keep (chunks.take (e.1 + 1)) acts) :
    Safe keep chunks (acts ++ sends held) := by
  intro before position chunk after heq
  rcases List.append_eq_append_iff.mp heq with ⟨mid, rfl, hmid⟩ | ⟨mid, rfl, hmid⟩
  · obtain ⟨sent, rest, rfl, rfl, hrest⟩ := List.map_eq_append_iff.mp hmid
    obtain ⟨e, rest, rfl, he, -⟩ := List.map_eq_cons_iff.mp hrest
    cases he
    exact ⟨(hheld e (by simp)).append _, hclean.append (clean_sends sent)⟩
  · cases mid with
    | nil =>
      rw [List.nil_append] at hmid
      rw [List.append_nil] at h hheld hclean
      obtain ⟨e, rest, rfl, he, -⟩ := List.map_eq_cons_iff.mp hmid.symm
      cases he
      exact ⟨hheld e (by simp), hclean⟩
    | cons a mid =>
      rw [List.cons_append] at hmid
      obtain ⟨rfl, -⟩ := List.cons.inj hmid
      exact h before position chunk mid rfl

end WindowScan
end Aisix
