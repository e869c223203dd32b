import Mathlib.Algebra.Order.Ring.Nat
import Mathlib.Logic.Function.Basic

/-!
# Aisix.NumberedLogs

Several writers on one stream. Each owns a number, handed out by a counter, and every event carries
the number of its writer; the log of a number is what its writer has written.
-/

namespace Aisix
namespace NumberedLogs

variable {κ ε : Type} (num : ε → Option Nat)

/-- The events of one number. -/
def log (i : Nat) (es : List ε) : List ε := es.filter fun e => num e = some i

@[simp] theorem log_nil (i : Nat) : log num i ([] : List ε) = [] := rfl

@[simp] theorem log_append (i : Nat) (es fs : List ε) :
    log num i (es ++ fs) = log num i es ++ log num i fs :=
  List.filter_append ..

theorem mem_log {i : Nat} {e : ε} {es : List ε} : e ∈ log num i es ↔ e ∈ es ∧ num e = some i := by
  simp [log]

theorem log_eq_self {i : Nat} {fs : List ε} (h : ∀ e ∈ fs, num e = some i) : log num i fs = fs :=
  List.filter_eq_self.mpr fun e he => by simpa using h e he

theorem log_eq_nil {i : Nat} {fs : List ε} (h : ∀ e ∈ fs, num e ≠ some i) : log num i fs = [] :=
  List.filter_eq_nil_iff.mpr fun e he => by simpa using h e he

theorem log_append_self {i : Nat} {es fs : List ε} (h : ∀ e ∈ fs, num e = some i) :
    log num i (es ++ fs) = log num i es ++ fs := by
  rw [log_append, log_eq_self num h]

theorem log_append_ne {i j : Nat} {es fs : List ε} (h : ∀ e ∈ fs, num e = some i) (hne : j ≠ i) :
    log num j (es ++ fs) = log num j es := by
  have hnil : log num j fs = [] :=
    log_eq_nil num fun e he heq => hne (Option.some.inj (heq.symm.trans (h e he)))
  rw [log_append, hnil, List.append_nil]

theorem log_map {f : ε → ε} (hf : ∀ e, num (f e) = num e) (i : Nat) (es : List ε) :
    log num i (es.map f) = (log num i es).map f := by
  induction es with
  | nil => rfl
  | cons e es ih =>
    by_cases he : num e = some i
    · simpa [log, hf, he] using ih
    · simpa [log, hf, he] using ih

/-- The numbers below `next` are handed out, each to one writer, and nobody else has written. -/
structure Shelved (number : κ → Option Nat) (next : Nat) (es : List ε) : Prop where
  lt : ∀ {k i}, number k = some i → i < next
  inj : ∀ {k k' i}, number k = some i → number k' = some i → k = k'
  owned : ∀ e ∈ es, ∃ k i, number k = some i ∧ num e = some i

namespace Shelved

variable {num} {number : κ → Option Nat} {next : Nat} {es fs : List ε}

theorem init : Shelved num (fun _ : κ => none) 0 ([] : List ε) where
  lt h := nomatch h
  inj h := nomatch h
  owned _ he := nomatch he

theorem log_next (h : Shelved num number next es) : log num next es = [] :=
  log_eq_nil num fun e he heq => by
    obtain ⟨k, i, hk, hi⟩ := h.owned e he
    have hlt := h.lt hk
    rw [heq, Option.some.injEq] at hi
    omega

theorem take [DecidableEq κ] (h : Shelved num number next es) {k : κ} (hk : number k = none) :
    Shelved num (Function.update number k (some next)) (next + 1) es where
  lt {k' i} hi := by
    by_cases hkk : k' = k
    · subst hkk
      rw [Function.update_self, Option.some.injEq] at hi
      omega
    · rw [Function.update_of_ne hkk] at hi
      exact Nat.lt_succ_of_lt (h.lt hi)
  inj {k₁ k₂ i} h₁ h₂ := by
    by_cases hk₁ : k₁ = k <;> by_cases hk₂ : k₂ = k
    · rw [hk₁, hk₂]
    · subst hk₁
      rw [Function.update_self, Option.some.injEq] at h₁
      rw [Function.update_of_ne hk₂] at h₂
      exact absurd (h.lt h₂) (by omega)
    · subst hk₂
      rw [Function.update_self, Option.some.injEq] at h₂
      rw [Function.update_of_ne hk₁] at h₁
      exact absurd (h.lt h₁) (by omega)
    · rw [Function.update_of_ne hk₁] at h₁
      rw [Function.update_of_ne hk₂] at h₂
      exact h.inj h₁ h₂
  owned e he := by
    obtain ⟨k', i, hk', hi⟩ := h.owned e he
    refine ⟨k', i, ?_, hi⟩
    rw [Function.update_of_ne fun heq => by rw [heq, hk] at hk'; cases hk']
    exact hk'

theorem write {k : κ} {i : Nat} (h : Shelved num number next es) (hk : number k = some i)
    (hfs : ∀ e ∈ fs, num e = some i) : Shelved num number next (es ++ fs) where
  lt := h.lt
  inj := h.inj
  owned e he := by
    rcases List.mem_append.mp he with he | he
    · exact h.owned e he
    · exact ⟨k, i, hk, hfs e he⟩

theorem log_write_ne {k k' : κ} {i j : Nat} (h : Shelved num number next es)
    (hk : number k = some i) (hk' : number k' = some j) (hne : k' ≠ k)
    (hfs : ∀ e ∈ fs, num e = some i) :
    log num j (es ++ fs) = log num j es :=
  log_append_ne num hfs fun heq => hne (h.inj hk' (heq ▸ hk))

end Shelved

end NumberedLogs
end Aisix
