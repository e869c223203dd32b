import Aisix.Lts
import Mathlib.Logic.Function.Basic

/-!
# Aisix.ResourcesFile

The two programs that write the resources file, any number of calls of each at once: the portal
reads, edits and, once it holds the file lock, checks that nothing changed; the console locks,
compares the version its editor loaded, validates, replaces the file, asks the gateway and puts the
old contents back when it refuses. The lock is exclusive and a rename replaces the file at once.

* `Held`        — what the call that holds the lock has established.
* `no_lost_edit` — the file is what the acknowledged edits make of the first contents, in order.
-/

namespace Aisix
namespace ResourcesFile

/-- The YAML library, the gateway's loader and the hash the two programs use. -/
structure Env (Value : Type) where
  parse : String → Option Value
  isMapping : Value → Bool
  render : Value → Option String
  breaksGateway : String → String → Bool
  sha256Hex : String → String

/-- What the portal writes above the document. -/
def banner : String :=
  "# 这个文件由机器改写：控制台保存配置、门户铸密钥与停用密钥都会重写它。\n" ++
  "# 重写走 YAML 反序列化再序列化，**注释不会保留**。要写给人看的说明，请放在\n" ++
  "# 同目录的 resources.README 里，不要放在这个文件里。\n\n"

def staleWrite (baseVersion : Option String) (onDisk : String) : Bool :=
  match baseVersion with
  | some v => v != onDisk
  | none => false

def contractClientMustSendVersion (clientContract : Option Nat) (baseVersion : Option String) :
    Bool :=
  clientContract.isSome && baseVersion.isNone

inductive Reload where
  | applied
  | rejected
  | unconfirmed
  | signalFailed
  deriving DecidableEq, Repr

/-- How often `edit` reads the file before it gives up. -/
def maxAttempts : Nat := 5

/-- A console save: what the editor had loaded, what it made of that, and what is sent. -/
structure Save (Value : Type) where
  loaded : String
  editor : String → Value
  yaml : String
  baseVersion : Option String

/-- A call that does not hold the lock. -/
inductive Waiting (Value : Type) where
  | reading (edit : Value → Option Value) (attempt : Nat)
  | edited (edit : Value → Option Value) (attempt : Nat) (before : String) (doc : Value)
  | save (s : Save Value)

/-- The call that holds the lock. -/
inductive Holding (Value : Type) where
  | edited (edit : Value → Option Value) (attempt : Nat) (before : String) (doc : Value)
  | writing (edit : Value → Option Value) (before out : String)
  | written (edit : Value → Option Value) (before base : String)
  | save (s : Save Value)
  | validating (s : Save Value) (previous : Option String)
  | replacing (s : Save Value) (previous : Option String)
  | replaced (s : Save Value) (previous : Option String) (base : String)
  /-- The gateway refused the new contents. -/
  | restoring (s : Save Value) (previous base : String)

inductive Outcome where
  | acknowledged
  | stale
  | failed
  /-- Failed, and the old contents could not be put back. -/
  | notRestored
  deriving DecidableEq, Repr

/-- A call's time with the lock, when it is over: the edit it stands for and the contents that was
computed from; the file before it wrote (or, if it did not write, when it took the lock) and when it
gave the lock back. -/
structure Section where
  edit : String → Option String
  basis : String
  outcome : Outcome
  before : String
  after : String

/-- The file and the calls; `sections` are the finished ones, latest first. -/
structure World (ι Value : Type) where
  file : String
  waiting : ι → Option (Waiting Value)
  /-- The holder of the lock, and the file when it took it. -/
  holder : Option (ι × Holding Value × String)
  sections : List Section

inductive Act (ι Value : Type) where
  | edit (id : ι) (edit : Value → Option Value)
  | save (id : ι) (loaded : String) (editor : String → Value) (clientContract : Option Nat)
  /-- The portal reads the file and edits what it read. -/
  | read (id : ι) (ok : Bool)
  | lock (id : ι) (ok : Bool)
  /-- The comparison under the lock; `ok` when the file can be read. -/
  | compare (id : ι) (ok : Bool)
  | validate (id : ι) (ok : Bool)
  | rename (id : ι) (ok : Bool)
  | reload (id : ι) (reload : Reload)
  | restore (id : ι) (ok : Bool)

section Edits

variable {Value : Type} (env : Env Value)

inductive Edited (Value : Type) where
  | failed
  | unchanged
  | changed (doc : Value)

def applyEdit (edit : Value → Option Value) (before : String) : Edited Value :=
  match env.parse before with
  | none => .failed
  | some doc =>
    if !env.isMapping doc then .failed
    else
      match edit doc with
      | none => .unchanged
      | some doc => .changed doc

/-- What the portal writes in place of `before`, unless the gateway would not load it any more. -/
def output (before : String) (doc : Value) : Option String :=
  (env.render doc).bind fun body =>
    if env.breaksGateway before (banner ++ body) then none else some (banner ++ body)

/-- The portal's edit of the contents of the file. -/
def editResult (edit : Value → Option Value) (before : String) : Option String :=
  match applyEdit env edit before with
  | .changed doc => output env before doc
  | _ => none

/-- The editor's edit of the contents of the file. -/
def saveResult (editor : String → Value) (before : String) : Option String :=
  env.render (editor before)

end Edits

namespace World

variable {ι Value : Type} [DecidableEq ι] (env : Env Value)

def setWaiting (w : World ι Value) (id : ι) (call : Option (Waiting Value)) : World ι Value :=
  { w with waiting := Function.update w.waiting id call }

/-- The holder goes on. -/
def goOn (w : World ι Value) (id : ι) (h : Holding Value) (entry : String) : World ι Value :=
  { w with holder := some (id, h, entry) }

/-- The holder gives the lock back. -/
def finish (w : World ι Value) (edit : String → Option String) (basis : String) (outcome : Outcome)
    (before : String) : World ι Value :=
  { w with holder := none, sections := ⟨edit, basis, outcome, before, w.file⟩ :: w.sections }

/-- Calls that do not hold the lock. -/
def stepWaiting (w : World ι Value) : Act ι Value → Option (World ι Value)
  | .edit id edit =>
    match w.waiting id with
    | none => some (w.setWaiting id (some (.reading edit 0)))
    | some _ => none
  | .save id loaded editor clientContract =>
    let baseVersion := some (env.sha256Hex loaded)
    match w.waiting id with
    | some _ => none
    | none =>
      if contractClientMustSendVersion clientContract baseVersion then some w
      else
        match env.render (editor loaded) with
        | none => some w
        | some yaml => some (w.setWaiting id (some (.save ⟨loaded, editor, yaml, baseVersion⟩)))
  | .read id ok =>
    match w.waiting id with
    | some (.reading edit attempt) =>
      if ok then
        match applyEdit env edit w.file with
        | .changed doc => some (w.setWaiting id (some (.edited edit attempt w.file doc)))
        | .unchanged | .failed => some (w.setWaiting id none)
      else some (w.setWaiting id none)
    | _ => none
  | .lock id ok =>
    match w.waiting id with
    | some (.edited edit attempt before doc) =>
      if ok then
        if w.holder.isNone then
          some ((w.setWaiting id none).goOn id (.edited edit attempt before doc) w.file)
        else none
      else some (w.setWaiting id none)
    | some (.save s) =>
      if ok then
        if w.holder.isNone then some ((w.setWaiting id none).goOn id (.save s) w.file) else none
      else some (w.setWaiting id none)
    | _ => none
  | _ => none

/-- What the holder of the lock does next. -/
def stepHolding (w : World ι Value) (id : ι) (h : Holding Value) (entry : String) :
    Act ι Value → Option (World ι Value)
  | .compare _ ok =>
    match h with
    | .edited edit attempt before doc =>
      if !ok then some (w.finish (editResult env edit) before .failed entry)
      else if w.file ≠ before then
        some
          ((w.finish (editResult env edit) before .failed entry).setWaiting id
            (if attempt + 1 < maxAttempts then some (.reading edit (attempt + 1)) else none))
      else
        match output env before doc with
        | none => some (w.finish (editResult env edit) before .failed entry)
        | some out => some (w.goOn id (.writing edit before out) entry)
    | .save s =>
      let previous := if ok then some w.file else none
      if previous.any fun current => staleWrite s.baseVersion (env.sha256Hex current) then
        some (w.finish (saveResult env s.editor) s.loaded .stale entry)
      else some (w.goOn id (.validating s previous) entry)
    | _ => none
  | .validate _ ok =>
    match h with
    | .validating s previous =>
      if ok then some (w.goOn id (.replacing s previous) entry)
      else some (w.finish (saveResult env s.editor) s.loaded .failed entry)
    | _ => none
  | .rename _ ok =>
    match h with
    | .writing edit before out =>
      if ok then some ({ w with file := out }.goOn id (.written edit before w.file) entry)
      else some (w.finish (editResult env edit) before .failed entry)
    | .replacing s previous =>
      if ok then some ({ w with file := s.yaml }.goOn id (.replaced s previous w.file) entry)
      else some (w.finish (saveResult env s.editor) s.loaded .failed entry)
    | _ => none
  | .reload _ reload =>
    match h with
    -- the portal does not ask whether the gateway took it
    | .written edit before base => some (w.finish (editResult env edit) before .acknowledged base)
    | .replaced s previous base =>
      if reload = .rejected then
        match previous with
        | none => some (w.finish (saveResult env s.editor) s.loaded .notRestored base)
        | some previous => some (w.goOn id (.restoring s previous base) entry)
      else some (w.finish (saveResult env s.editor) s.loaded .acknowledged base)
    | _ => none
  | .restore _ ok =>
    match h with
    | .restoring s previous base =>
      if ok then
        some ({ w with file := previous }.finish (saveResult env s.editor) s.loaded .failed base)
      else some (w.finish (saveResult env s.editor) s.loaded .notRestored base)
    | _ => none
  | _ => none

def Act.caller : Act ι Value → ι
  | .edit id _ | .save id _ _ _ | .read id _ | .lock id _ | .compare id _ | .validate id
      _ | .rename id _
  | .reload id _ | .restore id _ => id

def step (w : World ι Value) (act : Act ι Value) : Option (World ι Value) :=
  match act with
  | .edit .. | .save .. | .read .. | .lock .. => stepWaiting env w act
  | .compare id _ | .validate id _ | .rename id _ | .reload id _ | .restore id _ =>
    match w.holder with
    | some (holder, h, entry) => if holder = id then stepHolding env w holder h entry act else none
    | none => none

/-- The contents before the write of a call that has not given its answer yet. -/
def committed (w : World ι Value) : String :=
  match w.holder with
  | some (_, .written _ _ base, _) | some (_, .replaced _ _ base, _) | some
      (_, .restoring _ _ base, _) => base
  | _ => w.file

end World

/-- What a finished section makes of the contents. -/
def Section.effect (s : Section) (contents : String) : Option String :=
  match s.outcome with
  | .acknowledged => s.edit contents
  | .stale | .failed => some contents
  | .notRestored => some s.after

/-- The contents after the sections, latest first. -/
def replay (contents : String) : List Section → Option String
  | [] => some contents
  | s :: sections => (replay contents sections).bind s.effect

/-- An acknowledged section wrote its edit, computed from exactly the contents before it; one that
was refused or failed left the contents as they were. -/
def Section.Faithful (s : Section) : Prop :=
  match s.outcome with
  | .acknowledged => s.basis = s.before ∧ s.edit s.before = some s.after
  | .stale | .failed => s.after = s.before
  | .notRestored => True

/-- Every section is faithful and started with what the ones before it made of the first contents.
-/
def Recorded (contents : String) : List Section → Prop
  | [] => True
  | s :: sections =>
    replay contents sections = some s.before ∧ s.Faithful ∧ Recorded contents sections

section Invariant

variable {ι Value : Type} (env : Env Value)

def Save.Ok (s : Save Value) : Prop :=
  saveResult env s.editor s.loaded = some s.yaml ∧ s.baseVersion = some (env.sha256Hex s.loaded)

def Waiting.Ok : Waiting Value → Prop
  | .reading .. => True
  | .edited edit _ before doc => applyEdit env edit before = .changed doc
  | .save s => s.Ok env

/-- What the holder has established: a pending write is of an edit of the contents it replaces. -/
def Held (file entry : String) : Holding Value → Prop
  | .edited edit _ before doc => applyEdit env edit before = .changed doc ∧ file = entry
  | .writing edit before out => before = file ∧ editResult env edit file = some out ∧ file = entry
  | .written edit before base => before = base ∧ editResult env edit base = some file ∧ base = entry
  | .save s => s.Ok env ∧ file = entry
  | .validating s previous | .replacing s previous =>
    s.Ok env ∧ previous = some file ∧ s.loaded = file ∧ file = entry
  | .replaced s previous base =>
    s.Ok env ∧ previous = some base ∧ s.loaded = base ∧ file = s.yaml ∧ base = entry
  | .restoring s previous base =>
    s.Ok env ∧ previous = base ∧ s.loaded = base ∧ file = s.yaml ∧ base = entry

structure Inv (contents : String) (w : World ι Value) : Prop where
  waiting : ∀ id call, w.waiting id = some call → call.Ok env
  holding : ∀ id h entry, w.holder = some (id, h, entry) → Held env w.file entry h
  replay : replay contents w.sections = some w.committed
  recorded : Recorded contents w.sections

/-- A save holds the lock and compares next. -/
def World.saveCompares (w : World ι Value) : Bool :=
  match w.holder with
  | some (_, .save _, _) => true
  | _ => false

/-- Every read of the file by the console succeeds. -/
def Readable (w : World ι Value) : Act ι Value → Prop
  | .compare _ ok => ok = true ∨ w.saveCompares = false
  | _ => True

instance (w : World ι Value) : (act : Act ι Value) → Decidable (Readable w act)
  | .compare _ ok => inferInstanceAs (Decidable (ok = true ∨ w.saveCompares = false))
  | .edit .. | .save .. | .read .. | .lock .. | .validate .. | .rename .. | .reload
      .. | .restore .. =>
    inferInstanceAs (Decidable True)

variable {env} {contents : String} {w w' : World ι Value}

theorem Inv.setWaiting [DecidableEq ι] (h : Inv env contents w) (id : ι)
    {call : Option (Waiting Value)}
    (hcall : ∀ c ∈ call, c.Ok env) : Inv env contents (w.setWaiting id call) where
  waiting id' c hc := by
    by_cases hid : id' = id
    · subst hid
      simp only [World.setWaiting, Function.update_self] at hc
      exact hcall c hc
    · simp only [World.setWaiting, Function.update_of_ne hid] at hc
      exact h.waiting id' c hc
  holding := h.holding
  replay := h.replay
  recorded := h.recorded

theorem Inv.finish (h : Inv env contents w) {edit : String → Option String}
    {basis before file : String} {outcome : Outcome} (hbefore : before = w.committed)
    (hfaithful : (⟨edit, basis, outcome, before, file⟩ : Section).Faithful) :
    Inv env contents (({ w with file := file } : World ι Value).finish edit basis outcome before)
      where
  waiting := h.waiting
  holding id held entry hheld := by cases hheld
  replay := by
    subst hbefore
    change (ResourcesFile.replay contents w.sections).bind _ = some file
    rw [h.replay, Option.bind_some]
    cases outcome with
    | acknowledged => exact hfaithful.2
    | stale => exact congrArg some (Eq.symm hfaithful)
    | failed => exact congrArg some (Eq.symm hfaithful)
    | notRestored => rfl
  recorded := ⟨hbefore ▸ h.replay, hfaithful, h.recorded⟩

theorem Inv.goOn (h : Inv env contents w) {id : ι} {held : Holding Value} {file entry : String}
    (hheld : Held env file entry held)
    (hcommitted : (({ w with file := file } : World ι Value).goOn id held entry).committed =
      w.committed) :
    Inv env contents (({ w with file := file } : World ι Value).goOn id held entry) where
  waiting := h.waiting
  holding id' held' entry' heq := by
    obtain ⟨rfl, rfl, rfl⟩ : id = id' ∧ held = held' ∧ entry = entry' := by
      simpa [World.goOn] using heq
    exact hheld
  replay := hcommitted ▸ h.replay
  recorded := h.recorded

theorem Inv.take (h : Inv env contents w) {id : ι} {held : Holding Value}
    (hfree : w.holder.isNone = true) (hheld : Held env w.file w.file held)
    (hcommitted : (w.goOn id held w.file).committed = w.file) :
    Inv env contents (w.goOn id held w.file) := by
  refine h.goOn hheld (hcommitted.trans ?_)
  simp only [World.committed, Option.isNone_iff_eq_none.1 hfree]

variable [DecidableEq ι]

theorem step_waiting {act : Act ι Value} (h : Inv env contents w)
    (hs : w.stepWaiting env act = some w') :
    Inv env contents w' := by
  cases act with
  | edit id edit =>
    simp only [World.stepWaiting] at hs
    cases hcall : w.waiting id with
    | some call => simp [hcall] at hs
    | none =>
      simp only [hcall] at hs
      obtain rfl := Option.some.inj hs
      exact h.setWaiting id fun c hc => by
        obtain rfl := Option.some.inj hc
        trivial
  | save id loaded editor clientContract =>
    simp only [World.stepWaiting] at hs
    cases hcall : w.waiting id with
    | some call => simp [hcall] at hs
    | none =>
      simp only [hcall] at hs
      split at hs
      · exact Option.some.inj hs ▸ h
      · cases hyaml : env.render (editor loaded) with
        | none =>
          simp only [hyaml] at hs
          exact Option.some.inj hs ▸ h
        | some yaml =>
          simp only [hyaml] at hs
          obtain rfl := Option.some.inj hs
          exact h.setWaiting id fun c hc => by
            obtain rfl := Option.some.inj hc
            exact ⟨hyaml, rfl⟩
  | read id ok =>
    simp only [World.stepWaiting] at hs
    have hdrop : Inv env contents (w.setWaiting id none) := h.setWaiting id fun c hc => by cases hc
    split at hs
    · rename_i edit attempt _
      split at hs
      · cases hedit : applyEdit env edit w.file with
        | changed doc =>
          simp only [hedit] at hs
          obtain rfl := Option.some.inj hs
          exact h.setWaiting id fun c hc => by
            obtain rfl := Option.some.inj hc
            exact hedit
        | unchanged =>
          simp only [hedit] at hs
          exact Option.some.inj hs ▸ hdrop
        | failed =>
          simp only [hedit] at hs
          exact Option.some.inj hs ▸ hdrop
      · exact Option.some.inj hs ▸ hdrop
    · cases hs
  | lock id ok =>
    simp only [World.stepWaiting] at hs
    have hdrop : Inv env contents (w.setWaiting id none) := h.setWaiting id fun c hc => by cases hc
    split at hs
    · rename_i edit attempt before doc hcall
      split at hs
      · split at hs
        · rename_i hfree
          obtain rfl := Option.some.inj hs
          exact hdrop.take hfree ⟨h.waiting id _ hcall, rfl⟩ rfl
        · cases hs
      · exact Option.some.inj hs ▸ hdrop
    · rename_i s hcall
      split at hs
      · split at hs
        · rename_i hfree
          obtain rfl := Option.some.inj hs
          exact hdrop.take hfree ⟨h.waiting id _ hcall, rfl⟩ rfl
        · cases hs
      · exact Option.some.inj hs ▸ hdrop
    · cases hs
  | compare id ok => cases hs
  | validate id ok => cases hs
  | rename id ok => cases hs
  | reload id reload => cases hs
  | restore id ok => cases hs

theorem step_holding {act : Act ι Value} {id : ι} {held : Holding Value} {entry : String}
    (hinj : Function.Injective env.sha256Hex) (h : Inv env contents w)
    (hholder : w.holder = some (id, held, entry)) (hread : Readable w act)
    (hs : w.stepHolding env id held entry act = some w') : Inv env contents w' := by
  have hheld := h.holding id held entry hholder
  cases act with
  | edit id edit => cases hs
  | save id loaded editor clientContract => cases hs
  | read id ok => cases hs
  | lock id ok => cases hs
  | compare _ ok =>
    cases held with
    | edited edit attempt before doc =>
      obtain ⟨hedit, hentry⟩ := hheld
      have hcommitted : w.committed = w.file := by simp only [World.committed, hholder]
      have hfail : Inv env contents (w.finish (editResult env edit) before .failed entry) :=
        h.finish (hentry.symm.trans hcommitted.symm) hentry
      simp only [World.stepHolding] at hs
      split at hs
      · exact Option.some.inj hs ▸ hfail
      · split at hs
        · obtain rfl := Option.some.inj hs
          refine hfail.setWaiting id fun c hc => ?_
          split at hc
          · obtain rfl := Option.some.inj hc
            trivial
          · cases hc
        · rename_i hsame
          obtain rfl := not_not.1 hsame
          cases hout : output env w.file doc with
          | none =>
            simp only [hout] at hs
            exact Option.some.inj hs ▸ hfail
          | some out =>
            simp only [hout] at hs
            obtain rfl := Option.some.inj hs
            exact h.goOn ⟨rfl, by simp only [editResult, hedit, hout], hentry⟩ hcommitted.symm
    | save s =>
      obtain ⟨hsave, hentry⟩ := hheld
      have hok : ok = true := hread.resolve_right (by simp [World.saveCompares, hholder])
      subst hok
      have hcommitted : w.committed = w.file := by simp only [World.committed, hholder]
      simp only [World.stepHolding, if_true, Option.any_some, hsave.2, staleWrite,
        bne_iff_ne, ne_eq] at hs
      split at hs
      · exact Option.some.inj hs ▸ h.finish (hentry.symm.trans hcommitted.symm) hentry
      · rename_i hsame
        obtain rfl := Option.some.inj hs
        exact h.goOn ⟨hsave, rfl, hinj (not_not.1 hsame), hentry⟩ hcommitted.symm
    | _ => cases hs
  | validate _ ok =>
    cases held with
    | validating s previous =>
      have hcommitted : w.committed = w.file := by simp only [World.committed, hholder]
      simp only [World.stepHolding] at hs
      split at hs
      · obtain rfl := Option.some.inj hs
        exact h.goOn hheld hcommitted.symm
      · obtain ⟨-, -, -, hentry⟩ := hheld
        exact Option.some.inj hs ▸ h.finish (hentry.symm.trans hcommitted.symm) hentry
    | _ => cases hs
  | rename _ ok =>
    cases held with
    | writing edit before out =>
      obtain ⟨hbefore, hresult, hentry⟩ := hheld
      have hcommitted : w.committed = w.file := by simp only [World.committed, hholder]
      simp only [World.stepHolding] at hs
      split at hs
      · obtain rfl := Option.some.inj hs
        exact h.goOn ⟨hbefore, hresult, hentry⟩ hcommitted.symm
      · exact Option.some.inj hs ▸ h.finish (hentry.symm.trans hcommitted.symm) hentry
    | replacing s previous =>
      obtain ⟨hsave, hprevious, hloaded, hentry⟩ := hheld
      have hcommitted : w.committed = w.file := by simp only [World.committed, hholder]
      simp only [World.stepHolding] at hs
      split at hs
      · obtain rfl := Option.some.inj hs
        exact h.goOn ⟨hsave, hprevious, hloaded, rfl, hentry⟩ hcommitted.symm
      · exact Option.some.inj hs ▸ h.finish (hentry.symm.trans hcommitted.symm) hentry
    | _ => cases hs
  | reload _ reload =>
    cases held with
    | written edit before base =>
      obtain ⟨hbefore, hresult, -⟩ := hheld
      have hcommitted : w.committed = base := by simp only [World.committed, hholder]
      simp only [World.stepHolding] at hs
      exact Option.some.inj hs ▸ h.finish hcommitted.symm ⟨hbefore, hresult⟩
    | replaced s previous base =>
      obtain ⟨hsave, rfl, hloaded, hfile, hentry⟩ := hheld
      have hcommitted : w.committed = base := by simp only [World.committed, hholder]
      simp only [World.stepHolding] at hs
      split at hs
      · obtain rfl := Option.some.inj hs
        exact h.goOn ⟨hsave, rfl, hloaded, hfile, hentry⟩ hcommitted.symm
      · refine Option.some.inj hs ▸ h.finish hcommitted.symm ⟨hloaded, ?_⟩
        rw [← hloaded, hfile]
        exact hsave.1
    | _ => cases hs
  | restore _ ok =>
    cases held with
    | restoring s previous base =>
      obtain ⟨-, rfl, -⟩ := hheld
      have hcommitted : w.committed = previous := by simp only [World.committed, hholder]
      simp only [World.stepHolding] at hs
      split at hs
      · exact Option.some.inj hs ▸ h.finish hcommitted.symm rfl
      · exact Option.some.inj hs ▸ h.finish hcommitted.symm trivial
    | _ => cases hs

theorem step_inv {act : Act ι Value} (hinj : Function.Injective env.sha256Hex)
    (h : Inv env contents w)
    (hread : Readable w act) (hs : w.step env act = some w') : Inv env contents w' := by
  have hholding : ∀ id, (match w.holder with
      | some (holder, held, entry) =>
        if holder = id then w.stepHolding env holder held entry act else none
      | none => none) = some w' → Inv env contents w' := by
    intro id hs
    cases hholder : w.holder with
    | none => simp [hholder] at hs
    | some p =>
      obtain ⟨holder, held, entry⟩ := p
      simp only [hholder] at hs
      split at hs
      · exact step_holding hinj h hholder hread hs
      · cases hs
  cases act with
  | edit id edit => exact step_waiting h (show w.stepWaiting env (.edit id edit) = some w' from hs)
  | save id loaded editor contract =>
    exact step_waiting h (show w.stepWaiting env (.save id loaded editor contract) =
      some w' from hs)
  | read id ok => exact step_waiting h (show w.stepWaiting env (.read id ok) = some w' from hs)
  | lock id ok => exact step_waiting h (show w.stepWaiting env (.lock id ok) = some w' from hs)
  | compare id ok => exact hholding id hs
  | validate id ok => exact hholding id hs
  | rename id ok => exact hholding id hs
  | reload id reload => exact hholding id hs
  | restore id ok => exact hholding id hs

/-- No call has started. -/
def World.start (contents : String) : World ι Value := ⟨contents, fun _ => none, none, []⟩

/-- After any run the contents are what the finished sections make of the first ones, in order, and
every section is faithful; a call that waits for its answer is the only one whose write is not
counted. -/
theorem no_lost_edit (hinj : Function.Injective env.sha256Hex) {acts : List (Act ι Value)}
    (hread : Lts.Meets (World.step env) Readable (World.start contents) acts)
    (hrun : Lts.run (World.step env) (World.start contents) acts = some w) :
    replay contents w.sections = some w.committed ∧ Recorded contents w.sections ∧
      (w.holder = none → replay contents w.sections = some w.file) := by
  have hstart : Inv env contents (World.start contents : World ι Value) :=
    { waiting := fun id call hcall => by cases hcall
      holding := fun id held entry hheld => by cases hheld
      replay := rfl
      recorded := trivial }
  have h : Inv env contents w := Lts.run_invariant_of_meets (I := Inv env contents)
    (fun _ _ _ hI hc hs => step_inv hinj hI hc hs) hstart hread hrun
  refine ⟨h.replay, h.recorded, fun hfree => ?_⟩
  simpa only [World.committed, hfree] using h.replay

end Invariant

section Sample

/-- The library and the hash on a document with one number; what they do elsewhere does not matter
here. -/
def sampleEnv : Env Nat where
  parse contents :=
    if contents = "a: 1\n" then some 1
    else if contents = "a: 2\n" then some 2
    else none
  isMapping _ := true
  render n := some ("a: " ++ toString n ++ "\n")
  breaksGateway _ _ := false
  sha256Hex contents :=
    if contents = "a: 1\n" then "37b128c59f1f5097f73f82691cb519f1f568667faab5ced1b4ab979d36837eae"
    else "other " ++ contents

theorem sampleEnv_sha256Hex_injective : Function.Injective sampleEnv.sha256Hex := by
  intro a b h
  have hhead : ∀ {x y : String}, x = y → x.toList.head? = y.toList.head? := fun h => h ▸ rfl
  simp only [sampleEnv] at h
  split at h
  · rename_i ha
    split at h
    · rename_i hb
      exact ha.trans hb.symm
    · exact absurd (hhead h) (by simp)
  · split at h
    · exact absurd (hhead h) (by simp)
    · simpa using h

/-- The console sets the number to 2 while a portal edit that read the old one waits for the lock.
-/
def overlappingEdits : List (Act Bool Nat) :=
  [.edit false (fun n => some (n + 1)), .read false true, .save true "a: 1\n" (fun _ => 2) (some 2),
    .lock true true, .compare true true, .validate true true, .rename true true,
    .reload true .applied, .lock false true, .compare false true, .read false true,
    .lock false true, .compare false true, .rename false true, .reload false .applied]

theorem no_lost_overlappingEdits :
    ∃ w, Lts.run (World.step sampleEnv) (World.start "a: 1\n") overlappingEdits = some w ∧
      w.holder = none ∧ replay "a: 1\n" w.sections = some w.file := by
  have hread :
      Lts.Meets (World.step sampleEnv) Readable (World.start "a: 1\n") overlappingEdits := by
    decide +kernel
  have hrun : (Lts.run (World.step sampleEnv) (World.start "a: 1\n") overlappingEdits).any
      fun w => w.holder.isNone := by
    decide +kernel
  obtain ⟨w, hw, hnone⟩ := (Option.any_eq_true _ _).1 hrun
  have hfree : w.holder = none := Option.isNone_iff_eq_none.1 hnone
  exact ⟨w, hw, hfree, (no_lost_edit sampleEnv_sha256Hex_injective hread hw).2.2 hfree⟩

/-- The gateway refuses a save and the old contents cannot be written back: the save fails, and its
contents stay. -/
theorem refused_not_restored :
    (Lts.run (World.step sampleEnv) (World.start "a: 1\n")
      [.save true "a: 1\n" (fun _ => 2) (some 2), .lock true true, .compare true true,
        .validate true true,
          .rename true true, .reload true .rejected, .restore true false]).map
      (fun w => (w.file, w.sections.map fun s => (s.outcome, s.before))) =
        some ("a: 2\n", [(Outcome.notRestored, "a: 1\n")]) := by
  decide +kernel

end Sample

end ResourcesFile
end Aisix
