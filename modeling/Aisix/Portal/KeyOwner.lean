import Aisix.Lts
import Aisix.Portal.Keys

/-!
# Aisix.Portal.KeyOwner

Who turned a key off. The sweeper's ticks, the keys users mint and whatever operators write to the
resources file between them; a tick may fail to write the file, or to record its changes in the
table of keys the portal turned off, and then keeps them in memory.

* `Inv`                 — table and memory together name the keys the portal turned off.
* `tick_respects_owner` — a tick turns on the portal's keys only, and all of them it can.
-/

namespace Aisix
namespace Portal

inductive Party where
  | portal
  | operator
  deriving DecidableEq, Repr

/-- What becomes of a key that is minted turned off when it comes to recording it. -/
inductive MintOutcome where
  | recorded
  /-- Not recorded, and the key is taken out of the file again. -/
  | retracted
  /-- Not recorded, and the key stays in the file; nobody has its plaintext. -/
  | abandoned
  deriving DecidableEq, Repr

/-- The portal and the file, and three things kept for what is said of them: who turned off each key
that is off, and whether a tick, or a tick that wrote the file, has found the key not off since the
portal turned it off. -/
structure KeyWorld where
  file : Keys
  table : List String
  pending : OursChange
  offBy : String → Option Party
  sighted : String → Bool
  settled : String → Bool

inductive KeyAct where
  | tick (users : List UserView) (wrote recorded : Bool)
  | mint (row : KeyRow) (outcome : MintOutcome)
  | edit (file : Keys)

def Keys.add (ks : Keys) (row : KeyRow) (hname : row.displayName ≠ "")
    (hnew : row.displayName ∉ ks.names) : Keys where
  rows := ks.rows ++ [row]
  nodup := by
    rw [List.map_append, List.nodup_append]
    refine ⟨ks.nodup, List.nodup_singleton _, ?_⟩
    rintro name hmem name' hmem' rfl
    rw [List.map_singleton, List.mem_singleton] at hmem'
    exact hnew (hmem' ▸ hmem)
  named k hk := by
    rcases List.mem_append.1 hk with hk | hk
    · exact ks.named k hk
    · rw [List.mem_singleton.1 hk]
      exact hname

/-- Who turned a key off, after `party` changed the file. -/
def turnedBy (party : Party) (before after : Keys) (offBy : String → Option Party) (name : String) :
    Option Party :=
  if after.off name then if before.off name then offBy name else some party else none

namespace KeyWorld

/-- The keys a tick takes for the portal's. -/
def portalOff (w : KeyWorld) : List String := w.pending.overlay w.table

/-- A key the portal turned off was not seen since; one that is not off was. -/
def seenAfter (before after : Keys) (seen : String → Bool) (name : String) : Bool :=
  if after.off name then if before.off name then seen name else false else true

def tick (w : KeyWorld) (users : List UserView) (wrote recorded : Bool) : KeyWorld :=
  let change := (applyKeyStateTo users w.portalOff w.file.rows).2
  let file := w.file.applied users w.portalOff
  let pending := w.pending.merge change.oursAdded change.oursRemoved
  if wrote then
    { file := file
      table := if recorded then pending.record w.table else w.table
      pending := if recorded then .none else pending
      offBy := turnedBy .portal w.file file w.offBy
      sighted := seenAfter w.file file w.sighted
      settled := seenAfter w.file file w.settled }
  else { w with sighted := fun name => w.sighted name || !w.file.off name }

/-- A random name that occurs nowhere. -/
def Unused (w : KeyWorld) (name : String) : Prop :=
  name ∉ w.table ∧ name ∉ w.pending.add ∧ name ∉ w.pending.remove

instance (w : KeyWorld) (name : String) : Decidable (w.Unused name) :=
  inferInstanceAs (Decidable (_ ∧ _))

def mint (w : KeyWorld) (row : KeyRow) (outcome : MintOutcome) (hname : row.displayName ≠ "")
    (hnew : row.displayName ∉ w.file.names) : KeyWorld :=
  let file := w.file.add row hname hnew
  match row.isDisabled, outcome with
  | false, _ => { w with file := file }
  | true, .recorded =>
    { w with
      file := file
      table := addOnce w.table row.displayName
      offBy := Function.update w.offBy row.displayName (some .portal)
      sighted := Function.update w.sighted row.displayName false
      settled := Function.update w.settled row.displayName false }
  | true, .retracted => w
  | true, .abandoned => { w with file := file }

def step (w : KeyWorld) : KeyAct → Option KeyWorld
  | .tick users wrote recorded => some (w.tick users wrote recorded)
  | .mint row outcome =>
    if h : (row.displayName ≠ "" ∧ row.displayName ∉ w.file.names) ∧ w.Unused row.displayName then
      some (w.mint row outcome h.1.1 h.1.2)
    else none
  | .edit file => some { w with file := file, offBy := turnedBy .operator w.file file w.offBy }

/-- The first run of a portal with the table: what is off was not turned off by the portal, as far
as it can tell. -/
def start (file : Keys) : KeyWorld where
  file := file
  table := [""]
  pending := .none
  offBy name := if file.off name then some .operator else none
  sighted _ := true
  settled _ := true

/-- An operator turns a key off only where `seen` holds of it. -/
def OffAfter (seen : KeyWorld → String → Bool) (w : KeyWorld) : KeyAct → Prop
  | .edit file =>
    ∀ name ∈ file.names, w.file.off name = false → file.off name = true → seen w name = true
  | _ => True

instance (seen : KeyWorld → String → Bool) (w : KeyWorld) :
    (act : KeyAct) → Decidable (OffAfter seen w act)
  | .edit file => inferInstanceAs (Decidable (∀ name ∈ file.names, _ → _ → _))
  | .tick .. | .mint .. => inferInstanceAs (Decidable True)

structure Inv (w : KeyWorld) : Prop where
  unseen : ∀ name, name ≠ "" → name ∈ w.portalOff → w.settled name = false
  owner : ∀ name, name ≠ "" → name ∈ w.portalOff → w.file.off name = true →
    w.offBy name = some .portal
  kept : ∀ name, w.offBy name = some .portal → name ∈ w.portalOff ∧ w.file.off name = true

variable {w w' : KeyWorld} {users : List UserView} {recorded : Bool} {name : String}

theorem mem_portalOff_tick (hname : name ≠ "") :
    name ∈ (w.tick users true recorded).portalOff ↔
      (name ∈ w.portalOff ∨ w.file.off name = false) ∧
      (w.file.applied users w.portalOff).off name = true := by
  have hoverlay : name ∈ (w.tick users true recorded).portalOff ↔
      name ∈ (w.pending.merge (applyKeyStateTo users w.portalOff w.file.rows).2.oursAdded
        (applyKeyStateTo users w.portalOff w.file.rows).2.oursRemoved).overlay w.table := by
    cases recorded with
    | true => simp [tick, portalOff, OursChange.mem_overlay, OursChange.none, OursChange.mem_record]
    | false => simp [tick, portalOff]
  rw [hoverlay, OursChange.mem_overlay_merge, Keys.mem_oursAdded, Keys.mem_oursRemoved hname]
  change _ ∧ (_ ∨ name ∈ w.portalOff) ↔ _
  cases (w.file.applied users w.portalOff).off name with
  | false => simp +contextual
  | true => simp [or_comm]

theorem turnedBy_eq_portal {party : Party} {before after : Keys} {offBy : String → Option Party} :
    turnedBy party before after offBy name = some .portal ↔
      after.off name = true ∧
        (if before.off name then offBy name = some .portal else party = .portal) := by
  rw [turnedBy]
  cases after.off name <;> cases before.off name <;> simp

theorem Inv.start (file : Keys) : Inv (start file) := by
  have hempty : ∀ name, name ≠ "" → name ∉ (KeyWorld.start file).portalOff :=
    fun name hname hmem => by
    simp [KeyWorld.start, portalOff, OursChange.mem_overlay, OursChange.none, hname] at hmem
  refine ⟨fun name hname hmem => absurd hmem (hempty name hname),
    fun name hname hmem => absurd hmem (hempty name hname), fun name h => ?_⟩
  simp only [KeyWorld.start] at h
  split at h
  · cases h
  · cases h

theorem Inv.tick_true (h : Inv w) : Inv (w.tick users true recorded) := by
  refine ⟨fun name hname hmem => ?_, fun name hname hmem hoff => ?_, fun name hby => ?_⟩
  · obtain ⟨hours, hoff⟩ := (mem_portalOff_tick hname).1 hmem
    simp only [tick, if_true, seenAfter, hoff]
    cases hbefore : w.file.off name with
    | true => exact h.unseen name hname (hours.resolve_right (by simp [hbefore]))
    | false => rfl
  · obtain ⟨hours, hoff'⟩ := (mem_portalOff_tick hname).1 hmem
    refine turnedBy_eq_portal.2 ⟨hoff', ?_⟩
    cases hbefore : w.file.off name with
    | true => exact h.owner name hname (hours.resolve_right (by simp [hbefore])) hbefore
    | false => rfl
  · obtain ⟨hoff, hby⟩ := turnedBy_eq_portal.1 hby
    obtain ⟨k, hk, rfl⟩ := Keys.exists_of_off_applied hoff
    refine ⟨(mem_portalOff_tick (w.file.named k hk)).2 ⟨?_, hoff⟩, hoff⟩
    cases hbefore : w.file.off k.displayName with
    | true =>
      rw [hbefore, if_pos rfl] at hby
      exact .inl (h.kept _ hby).1
    | false => exact .inr rfl

theorem Inv.edit (h : Inv w) {file : Keys} (hseen : OffAfter settled w (.edit file)) :
    Inv { w with file := file, offBy := turnedBy .operator w.file file w.offBy } := by
  refine ⟨h.unseen, fun name hname hmem hoff => ?_, fun name hby => ?_⟩
  · refine turnedBy_eq_portal.2 ⟨hoff, ?_⟩
    cases hbefore : w.file.off name with
    | true => exact h.owner name hname hmem hbefore
    | false =>
      -- the portal still claims the key, so no tick recorded it as on
      have hfile : name ∈ file.names := by
        obtain ⟨k, hk, rfl, -⟩ := Keys.off_iff.1 hoff
        exact List.mem_map_of_mem hk
      have := hseen name hfile hbefore hoff
      rw [h.unseen name hname hmem] at this
      cases this
  · obtain ⟨hoff, hby⟩ := turnedBy_eq_portal.1 hby
    cases hbefore : w.file.off name with
    | true =>
      rw [hbefore, if_pos rfl] at hby
      exact ⟨(h.kept name hby).1, hoff⟩
    | false =>
      rw [hbefore] at hby
      cases hby

section Mint

variable {row : KeyRow} {hname : row.displayName ≠ ""} {hnew : row.displayName ∉ w.file.names}

theorem off_add : (w.file.add row hname hnew).off name =
    if name = row.displayName then row.isDisabled else w.file.off name := by
  by_cases h : name = row.displayName
  · subst h
    rw [if_pos rfl]
    exact Keys.off_of_mem (List.mem_append_right _ (List.mem_singleton_self row))
  · simp [Keys.off, Keys.add, h, Ne.symm h]

theorem Inv.add (h : Inv w) (hunused : w.Unused row.displayName) :
    Inv { w with file := w.file.add row hname hnew } := by
  have hnot : row.displayName ∉ w.portalOff := fun hmem =>
    (OursChange.mem_overlay.1 hmem).1.elim hunused.1 hunused.2.1
  refine ⟨h.unseen, fun name hname hmem hoff => ?_, fun name hby => ?_⟩
  · have hne : name ≠ row.displayName := fun heq => hnot (heq ▸ hmem)
    exact h.owner name hname hmem (by simpa [off_add, hne] using hoff)
  · obtain ⟨hmem, hoff⟩ := h.kept name hby
    have hne : name ≠ row.displayName := fun heq => hnot (heq ▸ hmem)
    exact ⟨hmem, by simpa [off_add, hne] using hoff⟩

theorem mem_portalOff_addOnce (hunused : w.Unused row.displayName) :
    name ∈ w.pending.overlay (addOnce w.table row.displayName) ↔
      name ∈ w.portalOff ∨ name = row.displayName := by
  simp only [portalOff, OursChange.mem_overlay, mem_addOnce]
  constructor
  · rintro ⟨(h | h) | h, hnot⟩
    · exact .inl ⟨.inl h, hnot⟩
    · exact .inr h
    · exact .inl ⟨.inr h, hnot⟩
  · rintro (⟨h, hnot⟩ | rfl)
    · exact ⟨h.elim (fun h => .inl (.inl h)) .inr, hnot⟩
    · exact ⟨.inl (.inr rfl), hunused.2.2⟩

theorem Inv.addRecorded (h : Inv w) (hunused : w.Unused row.displayName)
    (hoff : row.isDisabled = true) : Inv (w.mint row .recorded hname hnew) := by
  have hmint : w.mint row .recorded hname hnew =
      { w with
        file := w.file.add row hname hnew
        table := addOnce w.table row.displayName
        offBy := Function.update w.offBy row.displayName (some .portal)
        sighted := Function.update w.sighted row.displayName false
        settled := Function.update w.settled row.displayName false } := by
    simp only [mint, hoff]
  rw [hmint]
  refine ⟨fun name hne hmem => ?_, fun name hne hmem hoff' => ?_, fun name hby => ?_⟩
  · by_cases heq : name = row.displayName
    · simp only [heq, Function.update_self]
    · simp only [Function.update_of_ne heq]
      exact h.unseen name hne (((mem_portalOff_addOnce hunused).1 hmem).resolve_right heq)
  · by_cases heq : name = row.displayName
    · simp only [heq, Function.update_self]
    · simp only [Function.update_of_ne heq]
      refine h.owner name hne (((mem_portalOff_addOnce hunused).1 hmem).resolve_right heq) ?_
      simpa [off_add, heq] using hoff'
  · by_cases heq : name = row.displayName
    · exact ⟨(mem_portalOff_addOnce hunused).2 (.inr heq), by simpa [off_add, heq] using hoff⟩
    · simp only [Function.update_of_ne heq] at hby
      obtain ⟨hmem, hoff'⟩ := h.kept name hby
      exact ⟨(mem_portalOff_addOnce hunused).2 (.inl hmem), by simpa [off_add, heq] using hoff'⟩

end Mint

theorem step_inv {act : KeyAct} (h : Inv w) (hok : OffAfter settled w act)
    (hs : step w act = some w') :
    Inv w' := by
  cases act with
  | tick users wrote recorded =>
    obtain rfl := Option.some.inj hs
    cases wrote with
    | true => exact h.tick_true
    | false => exact ⟨h.unseen, h.owner, h.kept⟩
  | mint row outcome =>
    rw [step] at hs
    split at hs
    · rename_i hrow
      obtain rfl := Option.some.inj hs
      cases hd : row.isDisabled with
      | false =>
        simp only [mint, hd]
        exact h.add hrow.2
      | true =>
        cases outcome with
        | recorded => exact h.addRecorded hrow.2 hd
        | retracted =>
          simp only [mint, hd]
          exact h
        | abandoned =>
          simp only [mint, hd]
          exact h.add hrow.2
    · cases hs
  | edit file =>
    obtain rfl := Option.some.inj hs
    exact h.edit hok

/-- Where operators turn off only keys that a tick which wrote the file had found on: what a tick
turns on was turned off by the portal, and its owner's consumption was read; and a tick that writes
the file turns on whatever the portal turned off, where the owner is eligible. -/
theorem tick_respects_owner {file : Keys} {acts : List KeyAct} {w : KeyWorld}
    (hok : Lts.Meets step (OffAfter settled) (start file) acts)
    (hrun : Lts.run step (start file) acts = some w) (users : List UserView)
    (wrote recorded : Bool) :
    (∀ name, w.file.off name = true → (w.tick users wrote recorded).file.off name = false →
      w.offBy name = some .portal ∧
        ∃ k ∈ w.file.rows, k.displayName = name ∧
          ∃ uid, k.userId = some uid ∧ ∀ u ∈ users, u.id = uid → u.spendRead = true) ∧
    (wrote = true → ∀ k ∈ w.file.rows, w.offBy k.displayName = some .portal → Eligible users k →
      (w.tick users wrote recorded).file.off k.displayName = false) := by
  have h : Inv w := Lts.run_invariant_of_meets (I := Inv) (fun _ _ _ hI hc hs => step_inv hI hc hs)
    (Inv.start file) hok hrun
  refine ⟨fun name hoff hon => ?_, ?_⟩
  · cases wrote with
    | false => exact absurd (hoff.symm.trans hon) (by decide)
    | true =>
      obtain ⟨hours, k, hk, rfl, uid, hid, hread⟩ := Keys.turned_on hoff hon
      refine ⟨h.owner _ (w.file.named k hk) hours hoff, k, hk, rfl, uid, hid, fun u hu huid => ?_⟩
      by_contra hnot
      exact hread (List.mem_map.2 ⟨u, List.mem_filter.2 ⟨hu, by simpa using hnot⟩, huid⟩)
  · rintro rfl k hk hby he
    obtain ⟨hours, hoff⟩ := h.kept _ hby
    have hd : k.isDisabled = true := (Keys.off_of_mem hk).symm.trans hoff
    change (w.file.applied users w.portalOff).off k.displayName = false
    rw [Keys.off_applied hk, flip_of_eligible hd hours he, Option.getD_some]

/-- Two users with a key each; `on` says whether the first one's is on. -/
def twoKeys (on : Bool) : Keys where
  rows := [⟨"a", some "u1", some !on⟩, ⟨"b", some "u2", none⟩]
  nodup := List.nodup_cons.2 ⟨by simp, List.nodup_singleton _⟩
  named := by simp

def twoUsers (balance₁ balance₂ : Int) : List UserView :=
  [⟨"u1", false, balance₁, true, [], []⟩, ⟨"u2", false, balance₂, true, [], []⟩]

/-- The first user runs out and this is not recorded, the next tick fails, and he is granted more.
-/
theorem respects_owner_refill :
    ∃ w, Lts.run step (start (twoKeys true))
        [.tick (twoUsers 0 1) true false, .tick (twoUsers 0 1) false true] = some w ∧
      w.file.off "a" = true ∧ (w.tick (twoUsers 5 1) true true).file.off "a" = false := by
  have heligible : Eligible (twoUsers 5 1) ⟨"a", some "u1", some true⟩ :=
    ⟨⟨"u1", false, 5, true, [], []⟩, rfl, by decide +kernel, rfl, by decide, by decide +kernel,
      by decide +kernel⟩
  have hok : Lts.Meets step (OffAfter settled) (start (twoKeys true))
      [.tick (twoUsers 0 1) true false, .tick (twoUsers 0 1) false true] := by decide +kernel
  refine ⟨_, rfl, by decide +kernel, ?_⟩
  exact (tick_respects_owner hok rfl _ true true).2 rfl ⟨"a", some "u1", some true⟩
    (by decide +kernel) (by decide +kernel) heligible

/-- The operator turns a key on that the portal had turned off. The next tick finds it on but cannot
write the file. The operator turns it off, and the tick after that turns it on. -/
theorem operator_key_turned_on :
    Lts.Meets step (OffAfter sighted) (start (twoKeys true))
        [.tick (twoUsers 0 1) true true, .edit (twoKeys true), .tick (twoUsers 5 0) false true,
          .edit (twoKeys false)] ∧
      (Lts.run step (start (twoKeys true))
        [.tick (twoUsers 0 1) true true, .edit (twoKeys true), .tick (twoUsers 5 0) false true,
          .edit (twoKeys false)]).map (fun w =>
            (w.offBy "a", w.file.off "a", (w.tick (twoUsers 5 0) true true).file.off "a")) =
        some (some .operator, true, false) := by
  decide +kernel

end KeyWorld

end Portal
end Aisix
