import Mathlib.Data.Prod.Lex
import Aisix.SlidingTail
import Aisix.SortedMap

/-!
# Aisix.WindowScan.ChoiceTexts

The text a scan reads, one channel of one choice apart from another's.
-/

namespace Aisix
namespace WindowScan

/-- A choice and a channel of it. -/
abbrev Key := Nat ×ₗ Nat

structure ChoiceTexts where
  texts : SortedMap Key (List Char)
  /-- Characters pushed since the last `keepTails`. -/
  fresh : Nat
  /-- The overlap the last `keepTails` kept as context. -/
  kept : Nat

namespace ChoiceTexts

def CONTENT : Nat := 0

def REFUSAL : Nat := 1

def TRANSCRIPT : Nat := 2

def new : ChoiceTexts := ⟨.empty, 0, 0⟩

def textOf (t : ChoiceTexts) (key : Key) : List Char := (t.texts.get? key).getD []

def push (t : ChoiceTexts) (key : Key) (text : List Char) : ChoiceTexts :=
  if text = [] then t
  else { t with fresh := t.fresh + text.length, texts := t.texts.insert key (t.textOf key ++ text) }

def joined (t : ChoiceTexts) : List Char := List.intercalate ['\n'] t.texts.values

/-- The bytes held. -/
def len (t : ChoiceTexts) : Nat := (t.texts.values.map fun text => (text.map Char.utf8Size).sum).sum

def windowFull (t : ChoiceTexts) (window : Nat) : Bool := window - t.kept ≤ t.fresh

/-- After a scan each channel keeps its last `overlap` characters, short of a whole window. -/
def keepTails (t : ChoiceTexts) (overlap window : Nat) : ChoiceTexts :=
  let keep := min overlap (window - 1)
  { texts := t.texts.filterMapValues fun text =>
      if SlidingTail.tail keep text = [] then none else some (SlidingTail.tail keep text)
    fresh := 0
    kept := (t.texts.values.map fun text => min text.length keep).foldl max 0 }

/-- Several texts, in order. -/
def pushAll (t : ChoiceTexts) (pushes : List (Key × List Char)) : ChoiceTexts :=
  pushes.foldl (fun t p => t.push p.1 p.2) t

/-! ### What a push and a scan leave -/

@[simp] theorem textOf_new (key : Key) : new.textOf key = [] := rfl

theorem textOf_push (t : ChoiceTexts) (key key' : Key) (text : List Char) :
    (t.push key text).textOf key' = t.textOf key' ++ if key' = key then text else [] := by
  unfold push
  split
  · next h => simp [h]
  · unfold textOf
    rw [SortedMap.get?_insert]
    split
    · next h => simp [h]
    · simp

/-- The pushes of one key, one behind the other. -/
def pushed (key : Key) (pushes : List (Key × List Char)) : List Char :=
  (pushes.filter (·.1 = key)).flatMap (·.2)

theorem pushed_append (key : Key) (ps qs : List (Key × List Char)) :
    pushed key (ps ++ qs) = pushed key ps ++ pushed key qs := by
  simp [pushed]

theorem textOf_pushAll (t : ChoiceTexts) (pushes : List (Key × List Char)) (key : Key) :
    (t.pushAll pushes).textOf key = t.textOf key ++ pushed key pushes := by
  induction pushes generalizing t with
  | nil => simp [pushAll, pushed]
  | cons p ps ih =>
    have hstep : t.pushAll (p :: ps) = (t.push p.1 p.2).pushAll ps := rfl
    rw [hstep, ih, textOf_push, List.append_assoc]
    congr 1
    by_cases hkey : key = p.1
    · simp [pushed, hkey]
    · simp [pushed, hkey, Ne.symm hkey]

theorem fresh_push (t : ChoiceTexts) (key : Key) (text : List Char) :
    (t.push key text).fresh = t.fresh + text.length := by
  unfold push
  split
  · next h => simp [h]
  · rfl

theorem kept_push (t : ChoiceTexts) (key : Key) (text : List Char) :
    (t.push key text).kept = t.kept := by
  unfold push
  split <;> rfl

theorem textOf_keepTails (t : ChoiceTexts) (overlap window : Nat) (key : Key) :
    (t.keepTails overlap window).textOf key = SlidingTail.tail (min overlap (window - 1))
    (t.textOf key) := by
  simp only [textOf, keepTails, SortedMap.get?_filterMapValues]
  cases h : t.texts.get? key with
  | none => simp
  | some text =>
    simp only [Option.bind_some, Option.getD_some]
    split
    · next hnil => simp [hnil]
    · rfl

theorem infix_intercalate {sep t : List Char} {ts : List (List Char)} (h : t ∈ ts) :
    t <:+: List.intercalate sep ts := by
  induction ts with
  | nil => cases h
  | cons u us ih =>
    cases us with
    | nil =>
      rw [List.intercalate_singleton, List.mem_singleton.mp h]
    | cons v vs =>
      rw [List.intercalate_cons_cons]
      rcases List.mem_cons.mp h with rfl | h
      · exact ⟨[], sep ++ List.intercalate sep (v :: vs), by simp⟩
      · exact (ih h).trans (List.suffix_append _ _).isInfix

theorem textOf_infix_joined (t : ChoiceTexts) (key : Key) : t.textOf key <:+: t.joined := by
  unfold textOf joined
  cases h : t.texts.get? key with
  | none => exact List.nil_infix
  | some text => exact infix_intercalate (SortedMap.mem_values_iff.mpr ⟨key, h⟩)

/-! ### The bounds -/

theorem le_foldl_max {n m : Nat} {ns : List Nat} (h : n ≤ m ∨ n ∈ ns) : n ≤ ns.foldl max m := by
  induction ns generalizing m with
  | nil => simpa using h
  | cons k ks ih =>
    refine ih ?_
    rcases h with h | h
    · exact .inl (Nat.le_trans h (Nat.le_max_left _ _))
    · rcases List.mem_cons.mp h with rfl | h
      · exact .inl (Nat.le_max_right _ _)
      · exact .inr h

theorem length_keepTails_le (t : ChoiceTexts) (overlap window : Nat) (key : Key) :
    ((t.keepTails overlap window).textOf key).length ≤ (t.keepTails overlap window).kept := by
  rw [textOf_keepTails, SlidingTail.length_tail, Nat.min_comm]
  unfold textOf
  cases h : t.texts.get? key with
  | none => exact Nat.zero_le _
  | some text =>
    exact le_foldl_max (.inr (List.mem_map.mpr ⟨text, SortedMap.mem_values_iff.mpr ⟨key, h⟩, rfl⟩))

/-- No channel holds more than its kept tail and what came since. -/
def Bounded (t : ChoiceTexts) : Prop := ∀ key, (t.textOf key).length ≤ t.kept + t.fresh

theorem bounded_new : new.Bounded := fun _ => Nat.zero_le _

theorem Bounded.push {t : ChoiceTexts} (h : t.Bounded) (key : Key) (text : List Char) :
    (t.push key text).Bounded := by
  intro key'
  have hkey := h key'
  rw [textOf_push, fresh_push, kept_push, List.length_append]
  split
  · omega
  · simp only [List.length_nil]
    omega

theorem Bounded.pushAll {t : ChoiceTexts} (h : t.Bounded) (pushes : List (Key × List Char)) :
    (t.pushAll pushes).Bounded := by
  induction pushes generalizing t with
  | nil => exact h
  | cons p ps ih => exact ih (h.push p.1 p.2)

theorem bounded_keepTails (t : ChoiceTexts) (overlap window : Nat) :
    (t.keepTails overlap window).Bounded :=
  fun key => Nat.le_trans (t.length_keepTails_le overlap window key) (Nat.le_add_right _ _)

theorem Bounded.length_lt {t : ChoiceTexts} (h : t.Bounded) {window : Nat}
    (hfull : t.windowFull window = false) (key : Key) : (t.textOf key).length < window := by
  have hkey := h key
  simp only [windowFull, decide_eq_false_iff_not] at hfull
  omega

end ChoiceTexts

end WindowScan
end Aisix
