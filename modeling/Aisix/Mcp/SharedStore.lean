import Aisix.CasStore
import Aisix.KeyMap
import Aisix.Tasks

/-!
# Aisix.Mcp.SharedStore

Storage shared by every gateway of one environment (`shared_store.rs`).

* `Call`        — a call of a `SharedStore`, and what each is answered with.
* `Backend`     — a store that keeps to the trait's contract, behind a network: an unanswered call
  may land later.
* `MemoryState` — the backend of a gateway with no dp-manager.
* `storeSystem` — any gateways' tasks over a backend that others write to as well.

`memory_run_refines`: whatever tasks see of a `MemoryStore` they can see of a backend, with
`OverQuota` for the only refusal. Times are nanoseconds; labels are carried and never read.
-/

namespace Aisix
namespace Mcp

/-- `Vec<u8>`. -/
abbrev Bytes := List UInt8

structure StoredValue where
  value : Bytes
  version : Nat
  /-- Unix seconds, if the backend said. -/
  expiresAt : Option Int
  deriving Repr, DecidableEq

abbrev PutCondition := CasStore.Condition

inductive StoreError where
  | preconditionFailed
  | tooLarge
  | overQuota
  | unavailable
  deriving Repr, DecidableEq

inductive Call where
  | get (ns key : String)
  | put (ns key : String) (value : Bytes) (ttl : Nat) (labels : List (String × String))
      (condition : PutCondition)
  | delete (ns key : String) (ifVersion : Option Nat)
  deriving DecidableEq

namespace Call

abbrev Answer : Call → Type
  | get _ _ => Except StoreError (Option StoredValue)
  | put _ _ _ _ _ _ => Except StoreError Nat
  | delete _ _ _ => Except StoreError Unit

def failed (e : StoreError) : (c : Call) → c.Answer
  | get _ _ => .error e
  | put _ _ _ _ _ _ => .error e
  | delete _ _ _ => .error e

end Call

/-! The calls as a task makes them. -/

namespace SharedStore

abbrev get (ns key : String) : Prog Call Call.Answer (Except StoreError (Option StoredValue)) :=
  Prog.op (Call.get ns key)

abbrev put (ns key : String) (value : Bytes) (ttl : Nat) (labels : List (String × String))
    (condition : PutCondition) :
    Prog Call Call.Answer (Except StoreError Nat) :=
  Prog.op (Call.put ns key value ttl labels condition)

abbrev delete (ns key : String) (ifVersion : Option Nat) :
    Prog Call Call.Answer (Except StoreError Unit) :=
  Prog.op (Call.delete ns key ifVersion)

end SharedStore

abbrev Store := CasStore.Store (String × String) Bytes

abbrev StoreWrite := CasStore.Write (String × String) Bytes

/-- What became of a call. -/
inductive Outcome where
  | served (expiresAt : Option Int)
  /-- Refused or never delivered. -/
  | refused (e : StoreError)
  /-- Sent, with no answer that could be used. -/
  | unanswered
  deriving Repr, DecidableEq

/-- `strays` are the calls that got no answer and may yet be served, each with the task that made
it. -/
structure Backend where
  store : Store
  clock : Nat
  strays : List (Nat × Call)

namespace Backend

def init (now : Nat) : Backend := ⟨.empty, now, []⟩

def serve (b : Backend) (writer : Option Nat) (expiresAt : Option Int) :
    (c : Call) → c.Answer × Backend
  | .get ns key =>
    (.ok ((b.store.live b.clock (ns, key)).map fun e => ⟨e.value, e.version, expiresAt⟩), b)
  | .put ns key value ttl _ condition =>
    match b.store.put writer b.clock (ns, key) value ttl condition with
    | some store => (.ok store.version, { b with store := store })
    | none => (.error .preconditionFailed, b)
  | .delete ns key ifVersion => (.ok (), { b with store := b.store.delete (ns, key) ifVersion })

/-- A call of task `n`. A failed precondition is never made up. -/
def call (b : Backend) (n : Nat) (c : Call) : Outcome → Option (c.Answer × Backend)
  | .served expiresAt => some (b.serve (some n) expiresAt c)
  | .refused e => if e = .preconditionFailed then none else some (c.failed e, b)
  | .unanswered => some (c.failed .unavailable, { b with strays := b.strays ++ [(n, c)] })

end Backend

/-- What happens to a backend besides its tasks' calls. -/
inductive Event where
  | tick (now : Nat)
  /-- An unanswered call is served after all. -/
  | lands (i : Nat)
  /-- Someone else's call. -/
  | foreign (c : Call)
  deriving DecidableEq

/-- `others` is what the rest of the environment may call. -/
def Backend.event (others : Call → Bool) (b : Backend) : Event → Option Backend
  | .tick now => if b.clock ≤ now then some { b with clock := now } else none
  | .lands i => b.strays[i]?.map fun s =>
    { b with strays := b.strays.eraseIdx i }.serve (some s.1) none s.2 |>.2
  | .foreign c => if others c then some (b.serve none none c).2 else none

open Tasks

def storeSystem {J α : Type} (others : Call → Bool) (body : J → Prog Call Call.Answer α) :
    System Backend J Call Call.Answer Outcome Event α where
  exec := Backend.call
  env := Backend.event others
  body := body

/-! ## The memory store -/

def memoryStoreMaxEntriesPerNamespace : Nat := 200000

abbrev MemoryEntry := CasStore.Entry Bytes

structure MemoryState where
  namespaces : KeyMap String (KeyMap String MemoryEntry)
  nextVersion : Nat

namespace MemoryState

def init : MemoryState := ⟨∅, 0⟩

/-- `namespaces.entry(namespace).or_default()`. -/
def entries (m : MemoryState) (ns : String) : KeyMap String MemoryEntry :=
  (m.namespaces.lookup ns).getD ∅

def live (m : MemoryState) (now : Nat) (ns key : String) : Option MemoryEntry :=
  ((m.entries ns).lookup key).filter (now < ·.expiresAt)

/-- `unixNow` is the wall clock, in seconds. -/
def get (m : MemoryState) (now : Nat) (unixNow : Int) (ns key : String) : Option StoredValue :=
  (m.live now ns key).map fun e =>
    ⟨e.value, e.version, some (unixNow + ((e.expiresAt - now) / 1000000000 : Nat))⟩

/-- The namespace's map once a write that finds no live entry has made room, if it could. -/
def makeRoom (now : Nat) (entries : KeyMap String MemoryEntry) : KeyMap String MemoryEntry :=
  if memoryStoreMaxEntriesPerNamespace ≤ entries.entries.length then
    KeyMap.retainValues (now < ·.expiresAt) entries
  else entries

def put (m : MemoryState) (now : Nat) (ns key : String) (value : Bytes) (ttl : Nat)
    (condition : PutCondition) : Except StoreError Nat × MemoryState :=
  let live := m.live now ns key
  if condition.Holds live then
    let entries := if live.isNone then makeRoom now (m.entries ns) else m.entries ns
    if live.isNone ∧ memoryStoreMaxEntriesPerNamespace ≤ entries.entries.length then
      (.error .overQuota, { m with namespaces := m.namespaces.insert ns entries })
    else
      (.ok (m.nextVersion + 1),
        ⟨m.namespaces.insert ns (entries.insert key ⟨value, m.nextVersion + 1, now + ttl⟩),
          m.nextVersion + 1⟩)
  else (.error .preconditionFailed, { m with namespaces := m.namespaces.insert ns (m.entries ns) })

def delete (m : MemoryState) (ns key : String) (ifVersion : Option Nat) : MemoryState :=
  match m.namespaces.lookup ns with
  | some entries =>
    if ifVersion.all fun version => (entries.lookup key).map (·.version) == some version then
      { m with namespaces := m.namespaces.insert ns (entries.erase key) }
    else m
  | none => m

def call (m : MemoryState) (now : Nat) (unixNow : Int) : (c : Call) → c.Answer × MemoryState
  | .get ns key => (.ok (m.get now unixNow ns key), m)
  | .put ns key value ttl _ condition => m.put now ns key value ttl condition
  | .delete ns key ifVersion => (.ok (), m.delete ns key ifVersion)

end MemoryState

/-- A memory store and the instant. -/
abbrev Memory := MemoryState × Nat

def Memory.event (others : Call → Bool) (m : Memory) : Event → Option Memory
  | .tick now => if m.2 ≤ now then some (m.1, now) else none
  | .lands _ => none
  | .foreign c => if others c then some ((m.1.call m.2 0 c).2, m.2) else none

/-- The choice is what the wall clock reads. -/
def memorySystem {J α : Type} (others : Call → Bool) (body : J → Prog Call Call.Answer α) :
    System Memory J Call Call.Answer Int Event α where
  exec m _ c unixNow := some ((m.1.call m.2 unixNow c).1, ((m.1.call m.2 unixNow c).2, m.2))
  env := Memory.event others
  body := body

/-- Both give out the same versions and hold the same live entries. -/
structure Agrees (m : MemoryState) (s : Store) (now : Nat) : Prop where
  version : m.nextVersion = s.version
  live : ∀ ns key, m.live now ns key = s.live now (ns, key)

namespace MemoryState

variable {m : MemoryState} {now : Nat}

theorem entries_insert (ns ns' : String) (es : KeyMap String MemoryEntry) (version : Nat) :
    MemoryState.entries ⟨m.namespaces.insert ns es, version⟩ ns' =
      if ns' = ns then es else m.entries ns' := by
  unfold MemoryState.entries
  split
  · next h => rw [h, AList.lookup_insert, Option.getD_some]
  · next h => rw [AList.lookup_insert_ne h]

theorem live_insert (ns ns' key : String) (es : KeyMap String MemoryEntry) (version : Nat) :
    MemoryState.live ⟨m.namespaces.insert ns es, version⟩ now ns' key =
      if ns' = ns then (es.lookup key).filter (now < ·.expiresAt) else m.live now ns' key := by
  unfold MemoryState.live
  rw [entries_insert]
  split <;> rfl

theorem lookup_makeRoom (es : KeyMap String MemoryEntry) (key : String) :
    ((makeRoom now es).lookup key).filter (now < ·.expiresAt) = (es.lookup key).filter
    (now < ·.expiresAt) := by
  unfold makeRoom
  split
  · rw [KeyMap.lookup_retainValues, Option.filter_filter]
    simp
  · rfl

theorem put_cases (m : MemoryState) (now : Nat) (ns key : String) (value : Bytes) (ttl : Nat)
    (condition : PutCondition) :
    ∃ es : KeyMap String MemoryEntry,
      (∀ key, (es.lookup key).filter (now < ·.expiresAt) = m.live now ns key) ∧
      (¬ condition.Holds (m.live now ns key) ∧ m.put now ns key value ttl condition =
          (.error .preconditionFailed, { m with namespaces := m.namespaces.insert ns es }) ∨
        condition.Holds (m.live now ns key) ∧ m.put now ns key value ttl condition =
          (.error .overQuota, { m with namespaces := m.namespaces.insert ns es }) ∨
        condition.Holds (m.live now ns key) ∧ m.put now ns key value ttl condition =
          (.ok (m.nextVersion + 1),
            ⟨m.namespaces.insert ns (es.insert key ⟨value, m.nextVersion + 1, now + ttl⟩),
            m.nextVersion + 1⟩)) := by
  by_cases hcond : condition.Holds (m.live now ns key)
  · let es := if (m.live now ns key).isNone then makeRoom now (m.entries ns) else m.entries ns
    refine ⟨es, ?_, .inr ?_⟩
    · intro k
      simp only [es]
      split
      · exact lookup_makeRoom _ k
      · rfl
    · by_cases hfull : (m.live now ns key).isNone ∧
        memoryStoreMaxEntriesPerNamespace ≤ es.entries.length
      · exact .inl ⟨hcond, by simp only [put, hcond, if_true]; rw [if_pos hfull]⟩
      · exact .inr ⟨hcond, by simp only [put, hcond, if_true]; rw [if_neg hfull]⟩
  · exact ⟨m.entries ns, fun _ => rfl, .inl ⟨hcond, by simp [put, hcond]⟩⟩

theorem live_delete (m : MemoryState) (now : Nat) (ns ns' key key' : String)
    (ifVersion : Option Nat) :
    (m.delete ns key ifVersion).live now ns' key' =
      if ns' = ns ∧
        key' = key then (m.live now ns key).filter fun e => !ifVersion.all (· == e.version)
      else m.live now ns' key' := by
  cases hns : m.namespaces.lookup ns with
  | none =>
    have hnone : m.live now ns key = none := by simp [live, entries, hns]
    simp only [delete, hns]
    split
    · next h => rw [h.1, h.2, hnone, Option.filter_none]
    · rfl
  | some es =>
    have hes : m.entries ns = es := by rw [entries, hns, Option.getD_some]
    have hlive : ∀ k, m.live now ns k = (es.lookup k).filter (now < ·.expiresAt) :=
      fun k => by rw [live, hes]
    rw [hlive key, ← CasStore.Store.filter_deleted]
    simp only [delete, hns]
    split
    · rw [live_insert]
      by_cases hn : ns' = ns
      · by_cases hk : key' = key
        · subst hk
          simp [hn, AList.lookup_erase]
        · simp [hn, hk, AList.lookup_erase_ne hk, hlive]
      · simp [hn]
    · split
      · next h => rw [h.1, h.2, hlive]
      · rfl

end MemoryState

namespace Agrees

variable {m : MemoryState} {s : Store} {now : Nat}

theorem init (now : Nat) : Agrees .init .empty now where
  version := rfl
  live ns key := by
    simp [MemoryState.live, MemoryState.entries, MemoryState.init, CasStore.Store.live,
      CasStore.Store.empty]

theorem tick (h : Agrees m s now) {now' : Nat} (hle : now ≤ now') : Agrees m s now' where
  version := h.version
  live ns key := by
    have hlater : ∀ o : Option MemoryEntry,
        o.filter (now' < ·.expiresAt) = (o.filter (now < ·.expiresAt)).filter
          (now' < ·.expiresAt) := by
      intro o
      rw [Option.filter_filter]
      congr 1
      funext e
      simp only [← Bool.decide_and, decide_eq_decide]
      omega
    have hlive := h.live ns key
    unfold MemoryState.live CasStore.Store.live at hlive ⊢
    rw [hlater, hlive, ← hlater]

theorem prune (h : Agrees m s now) (ns : String) {es : KeyMap String MemoryEntry}
    (hes : ∀ key, (es.lookup key).filter (now < ·.expiresAt) = m.live now ns key) :
    Agrees { m with namespaces := m.namespaces.insert ns es } s now where
  version := h.version
  live ns' key := by
    rw [MemoryState.live_insert]
    split
    · next hns => rw [hns, hes, h.live]
    · exact h.live ns' key

theorem insert (h : Agrees m s now) (ns key : String) (value : Bytes) (ttl : Nat)
    (writer : Option Nat) {es : KeyMap String MemoryEntry}
    (hes : ∀ key, (es.lookup key).filter (now < ·.expiresAt) = m.live now ns key) :
    Agrees ⟨m.namespaces.insert ns (es.insert key ⟨value, m.nextVersion + 1, now + ttl⟩),
      m.nextVersion + 1⟩
      (s.written writer now (ns, key) value ttl) now where
  version := by simp [CasStore.Store.written, h.version]
  live ns' key' := by
    rw [MemoryState.live_insert]
    by_cases hns : ns' = ns
    · subst hns
      by_cases hkey : key' = key
      · subst hkey
        simp [CasStore.Store.live, CasStore.Store.written, h.version]
      · rw [if_pos rfl, AList.lookup_insert_ne hkey, hes, h.live]
        simp [CasStore.Store.live, CasStore.Store.written, hkey]
    · rw [if_neg hns, h.live]
      simp [CasStore.Store.live, CasStore.Store.written, hns]

theorem delete (h : Agrees m s now) (ns key : String) (ifVersion : Option Nat) :
    Agrees (m.delete ns key ifVersion) (s.delete (ns, key) ifVersion) now where
  version := by
    rw [CasStore.Store.delete_version, ← h.version]
    unfold MemoryState.delete
    split
    · split <;> rfl
    · rfl
  live ns' key' := by
    simp only [MemoryState.live_delete, CasStore.Store.live_delete, h.live, Prod.mk.injEq]

end Agrees

namespace Backend

variable (b : Backend) (writer : Option Nat) (expiresAt : Option Int) (c : Call)

theorem serve_clock : (b.serve writer expiresAt c).2.clock = b.clock := by
  cases c with
  | put ns key value ttl labels condition =>
    simp only [serve]
    split <;> rfl
  | _ => rfl

theorem serve_expiresAt : (b.serve writer expiresAt c).2 = (b.serve writer none c).2 := by
  cases c <;> rfl

end Backend

/-- A memory store answers a call as a backend holding the same does, or refuses it for its quota.
-/
theorem call_refines {m : MemoryState} {b : Backend} (h : Agrees m b.store b.clock)
    (writer : Option Nat) (c : Call) (unixNow : Int) :
    (∃ expiresAt, (b.serve writer expiresAt c).1 = (m.call b.clock unixNow c).1 ∧
        Agrees (m.call b.clock unixNow c).2 (b.serve writer expiresAt c).2.store b.clock) ∨
      (m.call b.clock unixNow c).1 = c.failed .overQuota ∧
      Agrees (m.call b.clock unixNow c).2 b.store b.clock := by
  cases c with
  | get ns key =>
    -- the wall clock reads what the memory store adds to the time left
    refine .inl ⟨(m.live b.clock ns key).map fun e => unixNow +
      ((e.expiresAt - b.clock) / 1000000000 : Nat), ?_, h⟩
    simp only [Backend.serve, MemoryState.call, MemoryState.get, h.live ns key]
    cases b.store.live b.clock (ns, key) <;> rfl
  | put ns key value ttl labels condition =>
    obtain ⟨es, hes, ⟨hcond, hput⟩ | ⟨hcond, hput⟩ | ⟨hcond, hput⟩⟩ :=
      m.put_cases b.clock ns key value ttl condition
    · rw [h.live] at hcond
      refine .inl ⟨none, ?_⟩
      simp only [Backend.serve, MemoryState.call, hput, CasStore.Store.put, hcond, if_false]
      exact ⟨trivial, h.prune ns hes⟩
    · refine .inr ?_
      simp only [MemoryState.call, hput]
      exact ⟨rfl, h.prune ns hes⟩
    · rw [h.live] at hcond
      refine .inl ⟨none, ?_⟩
      simp only [Backend.serve, MemoryState.call, hput, CasStore.Store.put, hcond, if_true]
      exact ⟨by simp [CasStore.Store.written, h.version], h.insert ns key value ttl writer hes⟩
  | delete ns key ifVersion => exact .inl ⟨none, rfl, h.delete ns key ifVersion⟩

/-- A memory store and a backend that hold the same at the same instant. -/
def Refines (m : Memory) (b : Backend) : Prop := Agrees m.1 b.store b.clock ∧ b.clock = m.2

theorem exec_refines {m m' : Memory} {b : Backend} (h : Refines m b) (n : Nat) {c : Call}
    {unixNow : Int} {a : c.Answer}
    (hexec : some ((m.1.call m.2 unixNow c).1, ((m.1.call m.2 unixNow c).2, m.2)) = some (a, m')) :
    ∃ o b', b.call n c o = some (a, b') ∧ Refines m' b' := by
  obtain ⟨hagrees, hclock⟩ := h
  obtain ⟨rfl, rfl⟩ := Prod.mk.inj (Option.some.inj hexec)
  rw [← hclock]
  rcases call_refines hagrees (some n) c unixNow with ⟨expiresAt, ha, hb⟩ | ⟨ha, hb⟩
  · refine ⟨.served expiresAt, (b.serve (some n) expiresAt c).2, by rw [← ha]; rfl, ?_⟩
    exact ⟨by rwa [b.serve_clock], b.serve_clock _ _ _⟩
  · exact ⟨.refused .overQuota, b, by simp [Backend.call, ha], hb, rfl⟩

theorem event_refines {others : Call → Bool} {m m' : Memory} {b : Backend} {e : Event}
    (h : Refines m b) (hevent : m.event others e = some m') :
    ∃ es b', Lts.run (Backend.event others) b es = some b' ∧ Refines m' b' := by
  obtain ⟨hagrees, hclock⟩ := h
  cases e with
  | tick now =>
    obtain ⟨hle, rfl⟩ := Option.ite_some_none_eq_some.1 hevent
    have hle' : b.clock ≤ now := by omega
    exact ⟨[.tick now],
      { b with clock := now }, by simp [Lts.run, Backend.event, hle'], hagrees.tick hle', rfl⟩
  | lands i => cases hevent
  | foreign c =>
    obtain ⟨hothers, rfl⟩ := Option.ite_some_none_eq_some.1 hevent
    rw [← hclock]
    rcases call_refines hagrees none c 0 with ⟨expiresAt, -, hb⟩ | ⟨-, hb⟩
    · rw [b.serve_expiresAt] at hb
      refine ⟨[.foreign c], (b.serve none none c).2, by simp [Lts.run, Backend.event, hothers], ?_⟩
      exact ⟨by rwa [b.serve_clock], b.serve_clock _ _ _⟩
    · exact ⟨[], b, rfl, hb, rfl⟩

/-- Whatever tasks do over a memory store, with others writing to it in between, they can do over a
backend. -/
theorem memory_run_refines {J α : Type} (others : Call → Bool) (body : J → Prog Call Call.Answer α)
    {now : Nat} {ls : List (Label J Int Event)} {w : World Memory J Call Call.Answer α}
    (hrun : Lts.run (step (memorySystem others body)) (.init (.init, now)) ls = some w) :
    ∃ ls' b, Lts.run (step (storeSystem others body)) (.init (.init now)) ls' = some ⟨b, w.tasks⟩ ∧
      Refines w.shared b :=
  run_refines (R := Refines) (memorySystem others body) (storeSystem others body) rfl
    (fun _ _ n _ _ _ _ h hexec => exec_refines h n hexec)
      (fun _ _ _ _ h hevent => event_refines h hevent)
    ⟨Agrees.init now, rfl⟩ hrun

/-- Two tasks create one entry, and a third once it has expired. -/
def leaseRun : List (Label Unit Int Event) :=
  [.start (), .start (), .call 1 0, .call 0 0, .env (.tick 60000000000), .start (), .call 2 60]

def takeLease (_ : Unit) : Prog Call Call.Answer (Except StoreError Nat) :=
  SharedStore.put "mcp_oauth_lease" "k" [49] 60000000000 [] .createOnly

theorem memory_run_refines_lease :
    ∃ w : World Memory Unit Call Call.Answer (Except StoreError Nat),
      Lts.run (step (memorySystem (fun _ => false) takeLease)) (.init (.init, 0)) leaseRun =
        some w ∧
      w.result 0 = some ((), .error .preconditionFailed) ∧ w.result 1 = some ((), .ok 1) ∧
        w.result 2 = some ((), .ok 2) ∧
      ∃ ls' b, Lts.run (step (storeSystem (fun _ => false) takeLease)) (.init (.init 0)) ls' =
        some ⟨b, w.tasks⟩ ∧ Refines w.shared b := by
  obtain ⟨w, hrun, h0, h1, h2⟩ : ∃ w : World Memory Unit Call Call.Answer (Except StoreError Nat),
      Lts.run (step (memorySystem (fun _ => false) takeLease)) (.init (.init, 0)) leaseRun =
        some w ∧
      w.result 0 = some ((), .error .preconditionFailed) ∧ w.result 1 = some ((), .ok 1) ∧
      w.result 2 = some ((), .ok 2) := ⟨_, rfl, rfl, rfl, rfl⟩
  exact ⟨w, hrun, h0, h1, h2, memory_run_refines _ _ hrun⟩

end Mcp
end Aisix
