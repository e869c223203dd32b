import Aisix.Mcp.SharedStore

/-!
# Aisix.Mcp.StoreRules

What every task of a shared store may count on, whatever the others do: the store is sound and
forgets no write.

* `Protocol`     — an invariant of the store, and which calls keep it, also when they land late.
* `Call.rules`   — what a call owes under a protocol: to be lawful, and what its answers lead to.
* `consume_once` — however many callers of `consume` there are, on however many gateways, and
  whoever else writes to the store, no write is handed to two of them, and none is handed a value
  that was not written under its key.
-/

namespace Aisix
namespace Mcp

open Tasks

namespace Backend

variable {b : Backend} {writer : Option Nat} {expiresAt : Option Int} {c : Call}

theorem serve_cases (b : Backend) (writer : Option Nat) (expiresAt : Option Int) (c : Call) :
    (b.serve writer expiresAt c).2 = b ∨
      (∃ ns key value ttl labels condition, c = .put ns key value ttl labels condition ∧
        condition.Holds (b.store.live b.clock (ns, key)) ∧
        (b.serve writer expiresAt c).2 =
        { b with store := b.store.written writer b.clock (ns, key) value ttl }) ∨
      ∃ ns key ifVersion, c = .delete ns key ifVersion ∧
        (b.serve writer expiresAt c).2 =
          { b with store := b.store.delete (ns, key) ifVersion } := by
  cases c with
  | get ns key => exact .inl rfl
  | put ns key value ttl labels condition =>
    by_cases hcond : condition.Holds (b.store.live b.clock (ns, key))
    · exact .inr
        (.inl ⟨ns, key, value, ttl, labels, condition, rfl,
          hcond, by simp [serve, CasStore.Store.put, hcond]⟩)
    · exact .inl (by simp [serve, CasStore.Store.put, hcond])
  | delete ns key ifVersion => exact .inr (.inr ⟨ns, key, ifVersion, rfl, rfl⟩)

theorem serve_log (b : Backend) (writer : Option Nat) (expiresAt : Option Int) (c : Call) :
    b.store.log <+: (b.serve writer expiresAt c).2.store.log := by
  rcases b.serve_cases writer expiresAt c with h | ⟨ns, key, value, ttl, labels, condition, -, -,
    h⟩ | ⟨ns, key, v, -, h⟩
  · simp only [h, List.prefix_rfl]
  · rw [h]
    exact List.prefix_append _ _
  · simp only [h, CasStore.Store.delete_log, List.prefix_rfl]

theorem serve_sound (hb : CasStore.Sound b.store) (writer : Option Nat) (expiresAt : Option Int)
    (c : Call) : CasStore.Sound (b.serve writer expiresAt c).2.store := by
  rcases b.serve_cases writer expiresAt c with h | ⟨ns, key, value, ttl, labels, condition, -, -,
    h⟩ | ⟨ns, key, v, -, h⟩
  · rwa [h]
  · rw [h]
    exact hb.written _ _ _ _ _
  · rw [h]
    exact hb.delete _ _

theorem serve_strays (b : Backend) (writer : Option Nat) (expiresAt : Option Int) (c : Call) :
    (b.serve writer expiresAt c).2.strays = b.strays := by
  rcases b.serve_cases writer expiresAt c with h | ⟨ns, key, value, ttl, labels, condition, -, -,
    h⟩ | ⟨ns, key, v, -, h⟩ <;> rw [h]

/-- A write answers its version when it went through, and is otherwise answered with a failed
precondition. -/
theorem serve_put (b : Backend) (writer : Option Nat) (expiresAt : Option Int) (ns key : String)
    (value : Bytes) (ttl : Nat) (labels : List (String × String)) (condition : PutCondition) :
    condition.Holds (b.store.live b.clock (ns, key)) ∧
        b.serve writer expiresAt (.put ns key value ttl labels condition) =
          (.ok (b.store.version + 1),
            { b with store := b.store.written writer b.clock (ns, key) value ttl }) ∨
      ¬ condition.Holds (b.store.live b.clock (ns, key)) ∧
        b.serve writer expiresAt (.put ns key value ttl labels condition) =
          (.error .preconditionFailed, b) := by
  by_cases hcond : condition.Holds (b.store.live b.clock (ns, key))
  · exact .inl ⟨hcond, by simp [serve, CasStore.Store.put, hcond, CasStore.Store.written]⟩
  · exact .inr ⟨hcond, by simp [serve, CasStore.Store.put, hcond]⟩

/-- The write of `key` that goes through at `b`. -/
def writeOf (b : Backend) (writer : Option Nat) (ns key : String) (value : Bytes) (ttl : Nat) :
    CasStore.Write (String × String) Bytes :=
  ⟨writer, (ns, key), value, b.store.version + 1, (b.store.live b.clock (ns, key)).map (·.version),
    b.clock, b.clock + ttl⟩

theorem writeOf_mem (b : Backend) (writer : Option Nat) (ns key : String) (value : Bytes)
    (ttl : Nat) :
    b.writeOf writer ns key value ttl ∈ (b.store.written writer b.clock (ns, key) value ttl).log :=
  List.mem_append_right _ (List.mem_singleton_self _)

end Backend

/-- A call that is lawful once stays so as writes are added, since it may land at any time. -/
structure Protocol where
  Inv : Store → Prop
  Lawful : Store → Option Nat → Call → Prop
  mono : ∀ s s' writer c, s.log <+: s'.log → Lawful s writer c → Lawful s' writer c
  serve : ∀ (b : Backend) writer expiresAt c, CasStore.Sound b.store → Inv b.store →
    Lawful b.store writer c → Inv (b.serve writer expiresAt c).2.store

/-- Every call is lawful. -/
def Protocol.free : Protocol where
  Inv _ := True
  Lawful _ _ _ := True
  mono := by simp
  serve := by simp

namespace Protocol

variable (p : Protocol)

structure Holds (b : Backend) : Prop where
  sound : CasStore.Sound b.store
  inv : p.Inv b.store
  strays : ∀ s ∈ b.strays, p.Lawful b.store (some s.1) s.2

def rules : Rules Backend where
  Inv := p.Holds
  Rely _ b b' := b.store.log <+: b'.store.log
  Fresh _ _ := True
  refl _ _ := List.prefix_rfl
  trans _ _ _ _ := List.IsPrefix.trans
  fresh _ _ _ _ h := h

variable {p} {b b' : Backend}

theorem Holds.init (hinv : p.Inv .empty) (now : Nat) : p.Holds (.init now) where
  sound := .empty
  inv := hinv
  strays := by simp [Backend.init]

theorem Holds.serve (h : p.Holds b) (writer : Option Nat) (expiresAt : Option Int) {c : Call}
    (hlawful : p.Lawful b.store writer c) : p.Holds (b.serve writer expiresAt c).2 where
  sound := Backend.serve_sound h.sound writer expiresAt c
  inv := p.serve b writer expiresAt c h.sound h.inv hlawful
  strays s hs :=
    p.mono _ _ _ _ (b.serve_log writer expiresAt c) (h.strays s (by rwa [b.serve_strays] at hs))

theorem event_rules {others : Call → Bool} (hothers : ∀ s c, others c → p.Lawful s none c)
    {e : Event} (h : p.Holds b)
    (hevent : b.event others e = some b') : p.Holds b' ∧ ∀ n, p.rules.Rely n b b' := by
  cases e with
  | tick now =>
    obtain ⟨-, rfl⟩ := Option.ite_some_none_eq_some.1 hevent
    exact ⟨⟨h.sound, h.inv, h.strays⟩, fun _ => List.prefix_rfl⟩
  | lands i =>
    obtain ⟨⟨n, c⟩, hs, rfl⟩ := Option.map_eq_some_iff.1 hevent
    let b₀ : Backend := { b with strays := b.strays.eraseIdx i }
    have h₀ : p.Holds b₀ := ⟨h.sound, h.inv, fun s hs => h.strays s (List.mem_of_mem_eraseIdx hs)⟩
    exact ⟨h₀.serve (some n) none (h.strays _ (List.mem_of_getElem? hs)),
      fun _ => b₀.serve_log (some n) none c⟩
  | foreign c =>
    obtain ⟨hc, rfl⟩ := Option.ite_some_none_eq_some.1 hevent
    exact ⟨h.serve none none (hothers _ _ hc), fun _ => b.serve_log none none c⟩

theorem Holds.call (h : p.Holds b) {n : Nat} {c : Call} {o : Outcome} {a : c.Answer}
    (hlawful : p.Lawful b.store (some n) c) (hcall : b.call n c o = some (a, b')) :
    p.Holds b' ∧ b.store.log <+: b'.store.log ∧
      ((∃ expiresAt, (a, b') = b.serve (some n) expiresAt c) ∨
        ∃ e, e ≠ StoreError.preconditionFailed ∧ a = c.failed e ∧ b'.store = b.store) := by
  cases o with
  | served expiresAt =>
    obtain ⟨rfl, rfl⟩ := Prod.mk.inj (Option.some.inj hcall)
    exact ⟨h.serve _ _ hlawful, b.serve_log _ _ _, .inl ⟨expiresAt, rfl⟩⟩
  | refused e =>
    simp only [Backend.call, Option.ite_none_left_eq_some] at hcall
    obtain ⟨hne, heq⟩ := hcall
    obtain ⟨rfl, rfl⟩ := Prod.mk.inj (Option.some.inj heq)
    exact ⟨h, List.prefix_rfl, .inr ⟨e, hne, rfl, rfl⟩⟩
  | unanswered =>
    obtain ⟨rfl, rfl⟩ := Prod.mk.inj (Option.some.inj hcall)
    refine ⟨⟨h.sound, h.inv, ?_⟩, List.prefix_rfl, .inr ⟨_, by decide, rfl, rfl⟩⟩
    exact List.forall_mem_append.2 ⟨h.strays, List.forall_mem_singleton.2 hlawful⟩

end Protocol

theorem Call.rules {p : Protocol} {n : Nat} {c : Call} {Q : c.Answer → Backend → Prop} {b : Backend}
    (hlawful : p.Lawful b.store (some n) c)
    (hserved : ∀ (t : Backend) expiresAt, b.store.log <+: t.store.log → p.Holds t →
      Q (t.serve (some n) expiresAt c).1 (t.serve (some n) expiresAt c).2)
    (hfailed : ∀ (t : Backend) e, b.store.log <+: t.store.log → e ≠ .preconditionFailed →
      Q (c.failed e) t) :
    Tasks.Call Backend.call p.rules n c Q b := by
  intro t hbt ht o a u hcall
  obtain ⟨hu, hlog, ⟨expiresAt, hserve⟩ | ⟨e, hne, rfl, hstore⟩⟩ :=
    ht.call (p.mono _ _ _ _ hbt hlawful) hcall
  · obtain ⟨rfl, rfl⟩ := Prod.mk.inj hserve
    exact ⟨hu, fun _ _ => hlog, hserved t expiresAt hbt ht⟩
  · exact ⟨hu, fun _ _ => hlog, hfailed u e (hbt.trans hlog) hne⟩

section Rules

variable {p : Protocol} {n : Nat} {ns key : String} {b : Backend}

theorem Call.rules_get {Q : Except StoreError (Option StoredValue) → Backend → Prop}
    (hlawful : p.Lawful b.store (some n) (.get ns key))
    (hnone : ∀ t : Backend, b.store.log <+: t.store.log → Q (.ok none) t)
    (hsome : ∀ (t : Backend) e expiresAt, b.store.log <+: t.store.log → p.Holds t →
      t.store.live t.clock (ns, key) = some e → Q (.ok (some ⟨e.value, e.version, expiresAt⟩)) t)
    (hfailed : ∀ (t : Backend) e, b.store.log <+: t.store.log → Q (.error e) t) :
    Tasks.Call Backend.call p.rules n (.get ns key) Q b := by
  refine Call.rules hlawful (fun t expiresAt hlog ht => ?_) fun t e hlog _ => hfailed t e hlog
  simp only [Backend.serve]
  cases hlive : t.store.live t.clock (ns, key) with
  | none => exact hnone t hlog
  | some e => exact hsome t e expiresAt hlog ht hlive

theorem Call.rules_put {value : Bytes} {ttl : Nat} {labels : List (String × String)}
    {condition : PutCondition} {Q : Except StoreError Nat → Backend → Prop}
    (hlawful : p.Lawful b.store (some n) (.put ns key value ttl labels condition))
    (hwon : ∀ t : Backend, b.store.log <+: t.store.log → p.Holds t →
      condition.Holds (t.store.live t.clock (ns, key)) →
      Q (.ok (t.store.version + 1))
        { t with store := t.store.written (some n) t.clock (ns, key) value ttl })
    (hlost : ∀ t : Backend, b.store.log <+: t.store.log → p.Holds t →
      Q (.error .preconditionFailed) t)
    (hfailed : ∀ (t : Backend) e, b.store.log <+: t.store.log → e ≠ .preconditionFailed →
      Q (.error e) t) :
    Tasks.Call Backend.call p.rules n (.put ns key value ttl labels condition) Q b := by
  refine Call.rules hlawful (fun t expiresAt hlog ht => ?_) hfailed
  rcases t.serve_put (some n) expiresAt ns key value ttl labels condition with ⟨hcond, hserve⟩ |
    ⟨-, hserve⟩
  · rw [hserve]
    exact hwon t hlog ht hcond
  · rw [hserve]
    exact hlost t hlog ht

theorem Call.rules_delete {ifVersion : Option Nat} {Q : Except StoreError Unit → Backend → Prop}
    (hlawful : p.Lawful b.store (some n) (.delete ns key ifVersion))
    (h : ∀ a (t : Backend), b.store.log <+: t.store.log → Q a t) :
    Tasks.Call Backend.call p.rules n (.delete ns key ifVersion) Q b :=
  Call.rules hlawful (fun t expiresAt hlog _ => h _ _ (hlog.trans (t.serve_log _ expiresAt _)))
    fun t _ hlog _ => h _ t hlog

end Rules

/-- In every run of tasks that are safe under a protocol, against others whose calls are lawful, it
holds. -/
theorem Protocol.run_kept (p : Protocol) {J α : Type} {others : Call → Bool}
    {body : J → Prog Call Call.Answer α} {Q : J → Nat → α → Backend → Prop} (hinv : p.Inv .empty)
    (hothers : ∀ s c, others c → p.Lawful s none c)
    (hbody : ∀ j n b, p.Holds b → Safe Backend.call p.rules n (Q j n) (body j) b) {now : Nat}
    {ls : List (Label J Outcome Event)} {w : World Backend J Call Call.Answer α}
    (hrun : Lts.run (step (storeSystem others body)) (.init (.init now)) ls = some w) :
    Kept (storeSystem others body) p.rules Q w :=
  run_safe (Holds.init hinv now) (fun _ => trivial) (fun j n b hb _ => hbody j n b hb)
    (fun _ _ _ hb hevent => event_rules hothers hb hevent) hrun

/-! ## The single-use read of a key, which an authorization code is redeemed by -/

/-- `b"consumed"`. -/
def consumed : Bytes := [99, 111, 110, 115, 117, 109, 101, 100]

def consumedTtl : Nat := 60 * 1000000000

def consume (ns key : String) : Prog Call Call.Answer (Except StoreError (Option Bytes)) := do
  match ← SharedStore.get ns key with
  | .error e => return .error e
  | .ok none => return .ok none
  | .ok (some stored) =>
    if stored.value = consumed then return .ok none
    match ← SharedStore.put ns key consumed consumedTtl [] (.ifVersion stored.version) with
    | .error .preconditionFailed => return .ok none
    | .error e => return .error e
    | .ok _ =>
      let _ ← SharedStore.delete ns key none
      return .ok (some stored.value)

/-- Any tasks that consume, against any other writers. -/
def consumeSystem :
    System Backend (String × String) Call Call.Answer Outcome Event
      (Except StoreError (Option Bytes)) :=
  storeSystem (fun _ => true) fun k => consume k.1 k.2

/-- Task `n` wrote the tombstone `w` over `taken`, which wrote `value` under `k`. -/
structure Took (log : List StoreWrite) (k : String × String) (n : Nat) (value : Bytes)
    (w taken : StoreWrite) : Prop where
  mem : w ∈ log
  writer : w.writer = some n
  key : w.key = k
  tombstone : w.value = consumed
  takenMem : taken ∈ log
  takenKey : taken.key = k
  takenValue : taken.value = value
  replaced : w.replaced = some taken.version

theorem Took.mono {log log' : List StoreWrite} {k : String × String} {n : Nat} {value : Bytes}
    {w taken : StoreWrite}
    (h : Took log k n value w taken) (hlog : log <+: log') : Took log' k n value w taken :=
  { h with mem := hlog.subset h.mem, takenMem := hlog.subset h.takenMem }

/-- What a caller is promised: a value it gets is one that it took, and is not the tombstone. -/
def Consumed (k : String × String) (n : Nat) (result : Except StoreError (Option Bytes))
    (b : Backend) : Prop :=
  ∀ value, result = .ok (some value) → value ≠ consumed ∧
    ∃ w taken, Took b.store.log k n value w taken

theorem safe_nothing {k : String × String} {n : Nat} {b : Backend}
    {result : Except StoreError (Option Bytes)} (h : ∀ value, result ≠ .ok (some value)) :
    Safe Backend.call Protocol.free.rules n (Consumed k n) (.done result) b :=
  Safe.done fun _ _ value heq => absurd heq (h value)

theorem safe_consume (k : String × String) (n : Nat) (b : Backend) :
    Safe Backend.call Protocol.free.rules n (Consumed k n) (consume k.1 k.2) b := by
  unfold consume
  simp only [SharedStore.get, SharedStore.put, SharedStore.delete, Prog.op_bind]
  refine Safe.op
    (Call.rules_get trivial (fun t _ => safe_nothing (by simp)) (fun t e expiresAt _ ht hlive => ?_)
      fun t e _ => safe_nothing (by simp))
  obtain ⟨taken, htaken, hkey, hvalue, hversion⟩ := ht.sound.of_live hlive
  dsimp only
  split
  · exact safe_nothing (by simp)
  · next hne =>
    refine Safe.op
      (Call.rules_put trivial (fun u hlog _ hcond => ?_) (fun u _ _ => safe_nothing (by simp))
        fun u e _ hne => ?_)
    · -- the version read is live, so the write replaces the very entry whose value is handed out
      have htook : Took (u.store.written (some n) u.clock k consumed consumedTtl).log k n e.value
          (u.writeOf (some n) k.1 k.2 consumed consumedTtl) taken :=
        ⟨u.writeOf_mem _ _ _ _ _, rfl, rfl, rfl, List.mem_append_left _ (hlog.subset htaken), hkey,
          hvalue, by simpa [Backend.writeOf, CasStore.Condition.Holds, hversion] using hcond⟩
      refine Safe.op
        (Call.rules_delete trivial fun a v hlog => Safe.done fun v' hlog' value heq => ?_)
      obtain rfl : e.value = value := by simpa using heq
      exact ⟨hne, _, _, htook.mono (hlog.trans hlog')⟩
    · cases e with
      | preconditionFailed => exact absurd rfl hne
      | _ => exact safe_nothing (by simp)

theorem Took.eq {s : Store} (hs : CasStore.Sound s) {k k' : String × String} {m n : Nat}
    {value value' : Bytes} {w w' taken : StoreWrite} (h : Took s.log k m value w taken)
    (h' : Took s.log k' n value' w' taken) : m = n := by
  have hw : w = w' := hs.replaced_eq h.mem h'.mem h.replaced h'.replaced
  have := h.writer
  rw [hw, h'.writer] at this
  exact (Option.some.inj this).symm

theorem run_consumed {now : Nat} {ls : List (Label (String × String) Outcome Event)}
    {w : World Backend (String × String) Call Call.Answer (Except StoreError (Option Bytes))}
    (hrun : Lts.run (step consumeSystem) (.init (.init now)) ls = some w) :
    Kept consumeSystem Protocol.free.rules Consumed w :=
  Protocol.free.run_kept trivial (fun _ _ _ => trivial) (fun k n b _ => safe_consume k n b) hrun

/-- In every run, each task that was handed a value put the tombstone over a write of that value
under its key, and no two tasks over the same. -/
theorem consume_once {now : Nat} {ls : List (Label (String × String) Outcome Event)}
    {w : World Backend (String × String) Call Call.Answer (Except StoreError (Option Bytes))}
    (hrun : Lts.run (step consumeSystem) (.init (.init now)) ls = some w) :
    ∃ write taken : Nat → StoreWrite,
      (∀ n k value, w.result n = some (k, .ok (some value)) →
        Took w.shared.store.log k n value (write n) (taken n) ∧ value ≠ consumed) ∧
      ∀ m n k k' value value', w.result m = some (k, .ok (some value)) →
        w.result n = some (k', .ok (some value')) → taken m = taken n → m = n := by
  have hkept := run_consumed hrun
  have hsome : ∀ n, ∃ write taken, ∀ k value, w.result n = some (k, .ok (some value)) →
      Took w.shared.store.log k n value write taken ∧ value ≠ consumed := by
    intro n
    by_cases hn : ∃ k value, w.result n = some (k, .ok (some value))
    · obtain ⟨k, value, hn⟩ := hn
      obtain ⟨hne, write, taken, htook⟩ := hkept.result hn value rfl
      refine ⟨write, taken, fun k' value' hn' => ?_⟩
      rw [hn] at hn'
      obtain ⟨rfl, rfl⟩ : k = k' ∧ value = value' := by simpa using hn'
      exact ⟨htook, hne⟩
    · let unwritten : StoreWrite := ⟨none, ("", ""), [], 0, none, 0, 0⟩
      exact ⟨unwritten, unwritten, fun k value hn' => absurd ⟨k, value, hn'⟩ hn⟩
  choose write taken htook using hsome
  refine ⟨write, taken, htook, fun m n k k' value value' hm hn heq => ?_⟩
  have hfirst := (htook m k value hm).1
  rw [heq] at hfirst
  exact hfirst.eq hkept.inv.sound (htook n k' value' hn).1

/-- Two callers read the code before either replaces it. -/
def raceRun : List (Label (String × String) Outcome Event) :=
  [.env (.foreign (.put "mcp_oauth_code" "c" [7] 120000000000 [] .createOnly)),
    .start ("mcp_oauth_code", "c"), .start ("mcp_oauth_code", "c"), .call 0 (.served none),
    .call 1 (.served none), .call 1 (.served none), .call 0 (.served none), .call 1 .unanswered]

theorem consume_once_race :
    ∃ w : World Backend (String × String) Call Call.Answer (Except StoreError (Option Bytes)),
      Lts.run (step consumeSystem) (.init (.init 0)) raceRun = some w ∧
      w.result 0 = some (("mcp_oauth_code", "c"), .ok none) ∧
      w.result 1 = some (("mcp_oauth_code", "c"), .ok (some [7])) ∧
      ∃ write taken : Nat → StoreWrite,
        (∀ n k value, w.result n = some (k, .ok (some value)) →
          Took w.shared.store.log k n value (write n) (taken n) ∧ value ≠ consumed) ∧
        ∀ m n k k' value value', w.result m = some (k, .ok (some value)) →
          w.result n = some (k', .ok (some value')) → taken m = taken n → m = n := by
  obtain ⟨w, hrun, h0, h1⟩ :
      ∃ w : World Backend (String × String) Call Call.Answer (Except StoreError (Option Bytes)),
      Lts.run (step consumeSystem) (.init (.init 0)) raceRun = some w ∧
      w.result 0 = some (("mcp_oauth_code", "c"), .ok none) ∧
      w.result 1 = some (("mcp_oauth_code", "c"), .ok (some [7])) := ⟨_, rfl, rfl, rfl⟩
  exact ⟨w, hrun, h0, h1, consume_once hrun⟩

end Mcp
end Aisix
