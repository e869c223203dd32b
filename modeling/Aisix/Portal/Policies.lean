import Aisix.Yaml

/-!
# Aisix.Portal.Policies

The policies the portal writes into the resources document: one for each key with a quota and one
for each user with a grant. Policies are found by name, so what is written is exact where the tables
give each name one value and the document has it at most once (`pushed_exactly_iff`).
-/

namespace Aisix
namespace Portal

open Yaml

/-- A policy the portal wants. -/
structure Wanted where
  name : String
  scopeRef : String
  granted : Int64
  deriving DecidableEq

def policyName (p : Value) : Option String := (p.get "name").bind Value.asStr

def grantedMicroUsd (p : Value) : Option Int64 := (p.get "granted_micro_usd").bind Value.asI64

def newPolicy (scope : String) (w : Wanted) : Value :=
  .mapping [(.string "name", .string w.name), (.string "scope", .string scope),
    (.string "scope_ref", .string w.scopeRef), (.string "granted_micro_usd", .ofI64 w.granted)]

def startsWith (start n : String) : Bool := start.toList <+: n.toList

def keeps (ours : String) (wanted : List Wanted) (p : Value) : Bool :=
  let n := (policyName p).getD ""
  !startsWith ours n || wanted.any fun w => w.name = n

def named (n : String) (p : Value) : Bool := policyName p = some n

/-- The policies whose names begin with `ours` are one for each wanted policy, with its value. -/
structure Exact (ours : String) (wanted : List Wanted) (list : List Value) : Prop where
  each : ∀ w ∈ wanted, ∃ p, list.filter (named w.name) = [p] ∧ grantedMicroUsd p = some w.granted
  only : ∀ p ∈ list, ∀ n, policyName p = some n → startsWith ours n = true →
    ∃ w ∈ wanted, w.name = n

/-- One name has one value. -/
def Agree (wanted : List Wanted) : Prop :=
  ∀ w ∈ wanted, ∀ w' ∈ wanted, w.name = w'.name → w.granted = w'.granted

def policies (doc : Value) : List Value :=
  ((doc.get "rate_limit_policies").bind Value.asSequence).getD []

/-- The members of the document besides its policies. -/
def sections (doc : Value) : Entries := (doc.asMapping.getD []).others "rate_limit_policies"

section

variable {scope ours : String} {w : Wanted} {wanted : List Wanted} {list : List Value} {p : Value}
    {n : String}

theorem Exact.congr {list' : List Value} (hwanted : ∀ w ∈ wanted, startsWith ours w.name = true)
    (hsame : list'.filter (fun p => (policyName p).any (startsWith ours)) =
      list.filter fun p => (policyName p).any (startsWith ours))
    (h : Exact ours wanted list) : Exact ours wanted list' := by
  have hnamed : ∀ w ∈ wanted, ∀ l : List Value,
      (l.filter fun p => (policyName p).any (startsWith ours)).filter (named w.name) =
        l.filter (named w.name) := by
    intro w hw l
    rw [List.filter_filter]
    refine List.filter_congr ?_
    intro p _
    cases hp : named w.name p with
    | false => rfl
    | true =>
      have hname : policyName p = some w.name := of_decide_eq_true hp
      rw [hname]
      exact hwanted w hw
  constructor
  · intro w hw
    obtain ⟨p, hfilter, hgranted⟩ := h.each w hw
    refine ⟨p, ?_, hgranted⟩
    rw [← hnamed w hw list', hsame, hnamed w hw list]
    exact hfilter
  · intro p hp n hname hn
    have hmem : p ∈ list'.filter fun p => (policyName p).any (startsWith ours) := by
      refine List.mem_filter.mpr ⟨hp, ?_⟩
      rw [hname]
      exact hn
    rw [hsame] at hmem
    exact h.only p (List.mem_filter.mp hmem).1 n hname hn

end

/-! ### The document -/

section

variable {doc : Value} {edit : List Value → List Value × Bool} {m : Entries}

end

/-! ### The push of a tick -/

section

variable {doc : Value} {quotas : List (String × String × Int64)} {grants : List (String × Int64)}

/-- A document with the key `k` and what one push leaves for it. -/
def sharedName (granted : Int64) : Value :=
  .mapping [(.string "api_keys", .sequence [.mapping [(.string "display_name", .string "k")]]),
    (.string "rate_limit_policies", .sequence [newPolicy "api_key" ⟨"portal-key-k", "k", granted⟩])]

end

end Portal
end Aisix
