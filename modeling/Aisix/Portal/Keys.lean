import Mathlib.Data.List.Nodup

/-!
# Aisix.Portal.Keys

The `api_keys` of the resources file and the pass of a tick over them, with the changes it makes to
the table of keys the portal turned off.
-/

namespace Aisix
namespace Portal

/-- An entry of `api_keys`. -/
structure KeyRow where
  displayName : String
  userId : Option String
  disabled : Option Bool
  deriving DecidableEq, Repr

/-- No flag is `false`. -/
def KeyRow.isDisabled (k : KeyRow) : Bool := k.disabled.getD false

/-- The keys of a file the gateway loads: named, and by different names. -/
structure Keys where
  rows : List KeyRow
  nodup : (rows.map (·.displayName)).Nodup
  named : ∀ k ∈ rows, k.displayName ≠ ""

/-- A user as a tick finds him. -/
structure UserView where
  id : String
  disabled : Bool
  balance : Int
  /-- His consumption could be read in this tick. -/
  spendRead : Bool
  keyQuotas : List (String × Int)
  keySpend : List (String × Int)
  deriving DecidableEq, Repr

def wanted (users : List UserView) : List (String × Bool) :=
  users.map fun u => (u.id, u.disabled || u.balance ≤ 0)

/-- The keys of a user that spent their own quota. -/
def UserView.exhausted (u : UserView) : List String :=
  (u.keyQuotas.filter fun q => q.2 > 0 && ((u.keySpend.lookup q.1).getD 0 ≥ q.2)).map (·.1)

def exhausted (users : List UserView) : List String := users.flatMap UserView.exhausted

def unread (users : List UserView) : List String := (users.filter fun u => !u.spendRead).map (·.id)

/-- `l` with `n`, once. -/
def addOnce (l : List String) (n : String) : List String := if n ∈ l then l else l ++ [n]

theorem mem_addOnce {l : List String} {n x : String} : x ∈ addOnce l n ↔ x ∈ l ∨ x = n := by
  by_cases hn : n ∈ l
  · simp only [addOnce, hn, if_true]
    exact ⟨.inl, fun h => h.elim id fun h => h ▸ hn⟩
  · simp [addOnce, hn]

theorem mem_foldl_addOnce {x : String} {ns : List String} :
    ∀ {l : List String}, x ∈ ns.foldl addOnce l ↔ x ∈ l ∨ x ∈ ns := by
  induction ns with
  | nil => simp
  | cons n ns ih =>
    intro l
    rw [List.foldl_cons, ih, mem_addOnce, List.mem_cons, or_assoc]

/-- Additions to and removals from the table `portal_disabled_keys`. -/
structure OursChange where
  add : List String
  remove : List String
  deriving DecidableEq, Repr

namespace OursChange

def none : OursChange := ⟨[], []⟩

/-- What comes later overrides what came before. -/
def merge (c : OursChange) (add remove : List String) : OursChange :=
  let c := add.foldl (fun c n => ⟨addOnce c.add n, c.remove.filter (· ≠ n)⟩) c
  remove.foldl (fun c n => ⟨c.add.filter (· ≠ n), addOnce c.remove n⟩) c

/-- The table with the changes that were not recorded yet. -/
def overlay (c : OursChange) (table : List String) : List String :=
  (table ++ c.add).filter fun n => n ∉ c.remove

/-- `record_portal_disabled`: all the additions, then all the removals. -/
def record (c : OursChange) (table : List String) : List String :=
  (c.add.foldl addOnce table).filter fun n => n ∉ c.remove

end OursChange

/-- What a pass over the keys reports. -/
structure KeyStateChange where
  disabled : Nat
  reenabled : Nat
  oursAdded : List String
  oursRemoved : List String
  leftToOperator : List String
  deriving DecidableEq, Repr

section Pass

variable (users : List UserView) (portalOff : List String)

/-- The owner of a key, if he is a user, and whether his keys are to be off. -/
def userWant (k : KeyRow) : Option (String × Bool) :=
  k.userId.bind fun uid => ((wanted users).find? fun p => p.1 = uid).map fun p => (uid, p.2)

/-- The state the pass puts a key in, if it changes it. -/
def flip (k : KeyRow) : Option Bool :=
  match userWant users k with
  | none => none
  | some (uid, userWant) =>
    let ours := k.displayName ∈ portalOff
    let want := userWant || k.displayName ∈ exhausted users
    let mayFlip := want || (ours && uid ∉ unread users)
    if k.isDisabled != want && mayFlip then some want else none

def pass (k : KeyRow) : KeyRow :=
  match flip users portalOff k with
  | some want => { k with disabled := some want }
  | none => k

/-- The pass and its report. The entry `""` of the table marks that the keys that were off before
there was a table have not been seen yet. -/
def applyKeyStateTo (rows : List KeyRow) : List KeyRow × KeyStateChange :=
  let seeding := "" ∈ portalOff
  let offNow := ((rows.map (pass users portalOff)).filter KeyRow.isDisabled).map (·.displayName)
  (rows.map (pass users portalOff),
    { disabled := (rows.filter fun k => flip users portalOff k = some true).length
      reenabled := (rows.filter fun k => flip users portalOff k = some false).length
      oursAdded := (rows.filter fun k => flip users portalOff k = some true).map (·.displayName)
      oursRemoved :=
        (if seeding then [""] else []) ++ portalOff.filter fun n => n ≠ "" && n ∉ offNow
      leftToOperator :=
        if seeding then
          (rows.filter fun k => (userWant users k).isSome && k.isDisabled).map (·.displayName)
        else [] })

end Pass

section Flip

variable {users : List UserView} {portalOff : List String} {k : KeyRow} {rows : List KeyRow}
    {name : String}

/-- The owner is a user in good standing whose consumption was read, and the key's own quota is not
spent. -/
def Eligible (users : List UserView) (k : KeyRow) : Prop :=
  ∃ u, k.userId = some u.id ∧ users.find? (fun v => v.id = u.id) = some u ∧
    u.disabled = false ∧ 0 < u.balance ∧ (∀ v ∈ users, v.id = u.id → v.spendRead = true) ∧
    ∀ v ∈ users, k.displayName ∉ v.exhausted

@[simp] theorem pass_displayName : (pass users portalOff k).displayName = k.displayName := by
  rw [pass]
  split <;> rfl

theorem pass_isDisabled :
    (pass users portalOff k).isDisabled = (flip users portalOff k).getD k.isDisabled := by
  cases h : flip users portalOff k with
  | none => simp only [pass, h, Option.getD_none]
  | some want => simp only [pass, h, KeyRow.isDisabled, Option.getD_some]

theorem userWant_some {uid : String} {userWant : Bool}
    (h : Portal.userWant users k = some (uid, userWant)) : k.userId = some uid := by
  simp only [Portal.userWant, Option.bind_eq_some_iff, Option.map_eq_some_iff] at h
  obtain ⟨uid', hid, p, -, heq⟩ := h
  rw [hid, (Prod.mk.inj heq).1]

theorem flip_some {want : Bool} (h : flip users portalOff k = some want) :
    k.isDisabled ≠ want ∧
      (want = false → k.displayName ∈ portalOff ∧ ∃ uid, k.userId = some uid ∧
      uid ∉ unread users) := by
  rw [flip] at h
  cases hwant : Portal.userWant users k with
  | none => simp [hwant] at h
  | some p =>
    obtain ⟨uid, userWant⟩ := p
    simp only [hwant, Bool.and_eq_true, bne_iff_ne, ne_eq, Bool.or_eq_true, decide_eq_true_eq] at h
    split at h
    · rename_i hcond
      obtain rfl := Option.some.inj h
      refine ⟨hcond.1, fun hfalse => ?_⟩
      have hmay := hcond.2.resolve_left (by simpa using hfalse)
      exact ⟨hmay.1, uid, userWant_some hwant, hmay.2⟩
    · cases h

theorem flip_of_eligible (hdisabled : k.isDisabled = true) (hours : k.displayName ∈ portalOff)
    (he : Eligible users k) : flip users portalOff k = some false := by
  obtain ⟨u, hid, hfind, hon, hbalance, hread, hquota⟩ := he
  have hwant : userWant users k = some (u.id, false) := by
    have hmap : (wanted users).find? (fun p => p.1 = u.id) = some (u.id, false) := by
      rw [wanted, List.find?_map]
      simp only [Function.comp_def, hfind, Option.map_some, hon, Bool.false_or]
      simp [hbalance]
    simp [userWant, hid, hmap]
  have hexhausted : k.displayName ∉ exhausted users := by
    simpa [exhausted] using hquota
  have hunread : u.id ∉ unread users := by
    simp only [unread, List.mem_map, List.mem_filter, not_exists, not_and, and_imp]
    intro v hv hnot hvid
    simp [hread v hv hvid] at hnot
  simp [flip, hwant, hdisabled, hours, hexhausted, hunread]

end Flip

namespace Keys

/-- There is a key of that name and it is off. -/
def off (ks : Keys) (name : String) : Bool :=
  ks.rows.any fun k => k.displayName = name && k.isDisabled

def names (ks : Keys) : List String := ks.rows.map (·.displayName)

def mapRows (ks : Keys) (f : KeyRow → KeyRow) (hf : ∀ k, (f k).displayName = k.displayName) :
    Keys where
  rows := ks.rows.map f
  nodup := by
    simpa only [List.map_map, Function.comp_def, hf] using ks.nodup
  named k hk := by
    obtain ⟨k', hk', rfl⟩ := List.mem_map.1 hk
    rw [hf]
    exact ks.named k' hk'

/-- The keys after a pass. -/
def applied (ks : Keys) (users : List UserView) (portalOff : List String) : Keys :=
  ks.mapRows (pass users portalOff) fun _ => pass_displayName

variable {ks : Keys} {users : List UserView} {portalOff : List String} {k : KeyRow} {name : String}

theorem off_iff :
    ks.off name = true ↔ ∃ k ∈ ks.rows, k.displayName = name ∧ k.isDisabled = true := by
  simp [off]

theorem eq_of_displayName {k k' : KeyRow} (hk : k ∈ ks.rows) (hk' : k' ∈ ks.rows)
    (h : k.displayName = k'.displayName) : k = k' :=
  List.inj_on_of_nodup_map ks.nodup hk hk' h

theorem off_of_mem (hk : k ∈ ks.rows) : ks.off k.displayName = k.isDisabled := by
  cases hd : k.isDisabled with
  | true => exact off_iff.2 ⟨k, hk, rfl, hd⟩
  | false =>
    refine Bool.eq_false_iff.2 fun hoff => ?_
    obtain ⟨k', hk', hname, hd'⟩ := off_iff.1 hoff
    rw [eq_of_displayName hk' hk hname, hd] at hd'
    cases hd'

theorem off_applied (hk : k ∈ ks.rows) :
    (ks.applied users portalOff).off k.displayName =
    (flip users portalOff k).getD k.isDisabled := by
  have hmem : pass users portalOff k ∈ (ks.applied users portalOff).rows := List.mem_map_of_mem hk
  rw [← pass_isDisabled, ← off_of_mem hmem, pass_displayName]

theorem exists_of_off_applied (h : (ks.applied users portalOff).off name = true) :
    ∃ k ∈ ks.rows, k.displayName = name := by
  obtain ⟨k', hk', hname, -⟩ := off_iff.1 h
  obtain ⟨k, hk, rfl⟩ := List.mem_map.1 hk'
  exact ⟨k, hk, pass_displayName.symm.trans hname⟩

/-- A key the pass turned on was one the portal had turned off, and its owner's consumption was
read. -/
theorem turned_on (hoff : ks.off name = true)
    (hon : (ks.applied users portalOff).off name = false) :
    name ∈ portalOff ∧ ∃ k ∈ ks.rows, k.displayName = name ∧
      ∃ uid, k.userId = some uid ∧ uid ∉ unread users := by
  obtain ⟨k, hk, rfl, hd⟩ := off_iff.1 hoff
  rw [off_applied hk] at hon
  cases hflip : flip users portalOff k with
  | none => simp [hflip, hd] at hon
  | some want =>
    obtain rfl : want = false := by simpa [hflip] using hon
    obtain ⟨hours, uid, hid, hread⟩ := (flip_some hflip).2 rfl
    exact ⟨hours, k, hk, rfl, uid, hid, hread⟩

theorem mem_oursAdded :
    name ∈ (applyKeyStateTo users portalOff ks.rows).2.oursAdded ↔
      ks.off name = false ∧ (ks.applied users portalOff).off name = true := by
  simp only [applyKeyStateTo, List.mem_map, List.mem_filter, decide_eq_true_eq]
  constructor
  · rintro ⟨k, ⟨hk, hflip⟩, rfl⟩
    refine ⟨?_, ?_⟩
    · rw [off_of_mem hk]
      simpa using (flip_some hflip).1
    · rw [off_applied hk, hflip, Option.getD_some]
  · rintro ⟨hon, hoff⟩
    obtain ⟨k, hk, rfl⟩ := exists_of_off_applied hoff
    rw [off_of_mem hk] at hon
    rw [off_applied hk, hon] at hoff
    refine ⟨k, ⟨hk, ?_⟩, rfl⟩
    cases hflip : flip users portalOff k with
    | none => simp [hflip] at hoff
    | some want => simpa [hflip] using hoff

theorem mem_oursRemoved (hname : name ≠ "") :
    name ∈ (applyKeyStateTo users portalOff ks.rows).2.oursRemoved ↔
      name ∈ portalOff ∧ (ks.applied users portalOff).off name = false := by
  have hoffNow :
      name ∈ ((ks.rows.map (pass users portalOff)).filter KeyRow.isDisabled).map (·.displayName) ↔
      (ks.applied users portalOff).off name = true := by
    simp only [off_iff, applied, mapRows, List.mem_map, List.mem_filter]
    constructor
    · rintro ⟨k, ⟨hk, hd⟩, rfl⟩
      exact ⟨k, hk, rfl, hd⟩
    · rintro ⟨k, hk, rfl, hd⟩
      exact ⟨k, ⟨hk, hd⟩, rfl⟩
  have hsentinel : name ∉ (if "" ∈ portalOff then [""] else [] : List String) := by
    split
    · simpa using hname
    · simp
  simp only [applyKeyStateTo, List.mem_append, hsentinel, false_or, List.mem_filter, hoffNow,
    Bool.and_eq_true, decide_eq_true_eq, hname, ne_eq, not_false_eq_true, true_and,
    Bool.not_eq_true]

end Keys

namespace OursChange

variable {c : OursChange} {table add remove : List String} {x : String}

theorem mem_overlay : x ∈ c.overlay table ↔ (x ∈ table ∨ x ∈ c.add) ∧ x ∉ c.remove := by
  simp only [overlay, List.mem_filter, List.mem_append, decide_eq_true_eq]

theorem mem_record : x ∈ c.record table ↔ x ∈ c.overlay table := by
  simp only [record, overlay, List.mem_filter, List.mem_append, mem_foldl_addOnce]

theorem mem_foldl_add : ∀ {c c' : OursChange},
    c' = add.foldl (fun c n => ⟨addOnce c.add n, c.remove.filter (· ≠ n)⟩) c →
      (x ∈ c'.add ↔ x ∈ c.add ∨ x ∈ add) ∧ (x ∈ c'.remove ↔ x ∈ c.remove ∧ x ∉ add) := by
  induction add with
  | nil =>
    rintro c c' rfl
    simp
  | cons n add ih =>
    intro c c' h
    obtain ⟨hadd, hremove⟩ := ih h
    rw [hadd, hremove]
    simp only [mem_addOnce, List.mem_filter, List.mem_cons, decide_eq_true_eq, ne_eq,
      not_or, or_assoc, and_assoc, and_self]

theorem mem_foldl_remove : ∀ {c c' : OursChange},
    c' = remove.foldl (fun c n => ⟨c.add.filter (· ≠ n), addOnce c.remove n⟩) c →
      (x ∈ c'.add ↔ x ∈ c.add ∧ x ∉ remove) ∧ (x ∈ c'.remove ↔ x ∈ c.remove ∨ x ∈ remove) := by
  induction remove with
  | nil =>
    rintro c c' rfl
    simp
  | cons n remove ih =>
    intro c c' h
    obtain ⟨hadd, hremove⟩ := ih h
    rw [hadd, hremove]
    simp only [mem_addOnce, List.mem_filter, List.mem_cons, decide_eq_true_eq, ne_eq,
      not_or, or_assoc, and_assoc, and_self]

theorem mem_overlay_merge :
    x ∈ (c.merge add remove).overlay table ↔ x ∉ remove ∧ (x ∈ add ∨ x ∈ c.overlay table) := by
  let added := add.foldl (fun c n => (⟨addOnce c.add n, c.remove.filter (· ≠ n)⟩ : OursChange)) c
  have hadd : (x ∈ added.add ↔ x ∈ c.add ∨ x ∈ add) ∧ (x ∈ added.remove ↔ x ∈ c.remove ∧ x ∉ add) :=
    mem_foldl_add rfl
  have hremove : (x ∈ (c.merge add remove).add ↔ x ∈ added.add ∧ x ∉ remove) ∧
      (x ∈ (c.merge add remove).remove ↔ x ∈ added.remove ∨ x ∈ remove) := mem_foldl_remove rfl
  rw [mem_overlay, hremove.1, hremove.2, hadd.1, hadd.2, mem_overlay]
  by_cases hr : x ∈ remove
  · simp [hr]
  · by_cases ha : x ∈ add
    · simp [hr, ha]
    · simp [hr, ha]

end OursChange

end Portal
end Aisix
