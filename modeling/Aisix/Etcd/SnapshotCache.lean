import Aisix.Lts
import Aisix.Etcd.Supervisor
import Mathlib.Data.List.Range
import Mathlib.Data.List.Perm.Basic

/-!
# Aisix.Etcd.SnapshotCache

The writes of the on-disk snapshot cache. Every apply takes a ticket for the state it captures and
spawns a task that writes it; the tasks reach the write lock in any order. Writes succeed, and the
tickets, a 64-bit counter in the source, do not run out.

* `Inv`      — every ticket is of one task that waits, holds the lock, has renamed its file into
  place or has stood down, and the renames were of later and later tickets.
* `file_is_last_capture` — what that says about the file.
-/

namespace Aisix
namespace Etcd
namespace SnapshotCache

open Supervisor (CachedSnapshot)

/-- A spawned `store_encoded`. -/
structure Task where
  ticket : Nat
  content : CachedSnapshot

/-- How far the task that holds the write lock is. -/
inductive Stage where
  | locked
  | writing
  /-- Its file is renamed into place; the ticket is not recorded yet. -/
  | renamed
  deriving DecidableEq

/-- The cache and its tasks, with what they have done so far (latest first, the captures oldest
first). -/
structure Cache where
  nextTicket : Nat
  committed : Nat
  file : Option CachedSnapshot
  waiting : List Task
  holder : Option (Task × Stage)
  captures : List CachedSnapshot
  renames : List Nat
  skipped : List Nat

inductive Act where
  | capture (content : CachedSnapshot)
  /-- A waiting task gets the lock. -/
  | acquire (i : Nat)
  /-- The holder stands down, or starts to write. -/
  | check
  | rename
  | release

/-- What an earlier process left on disk is `old`. -/
def start (old : Option CachedSnapshot) : Cache := ⟨0, 0, old, [], none, [], [], []⟩

def step (st : Cache) : Act → Option Cache
  | .capture content =>
    some
      { st with
        nextTicket := st.nextTicket + 1
        waiting := ⟨st.nextTicket + 1, content⟩ :: st.waiting
        captures := st.captures ++ [content] }
  | .acquire i =>
    match st.holder, st.waiting[i]? with
    | none, some task =>
      some { st with holder := some (task, .locked), waiting := st.waiting.eraseIdx i }
    | _, _ => none
  | .check =>
    match st.holder with
    | some (task, .locked) =>
      if task.ticket ≤ st.committed ∨ st.nextTicket > task.ticket then
        some { st with holder := none, skipped := task.ticket :: st.skipped }
      else some { st with holder := some (task, .writing) }
    | _ => none
  | .rename =>
    match st.holder with
    | some (task, .writing) =>
      some
        { st with
          holder := some (task, .renamed)
          file := some task.content
          renames := task.ticket :: st.renames }
    | _ => none
  | .release =>
    match st.holder with
    | some (task, .renamed) => some { st with holder := none, committed := task.ticket }
    | _ => none

/-- The task that holds the lock and has not renamed its file. -/
def Cache.undecided (st : Cache) : List Task :=
  match st.holder with
  | some (_, .renamed) => []
  | some (task, _) => [task]
  | none => []

/-- The ticket of the last rename; none is zero. -/
def Cache.lastRenamed (st : Cache) : Nat := st.renames.headD 0

/-- What the holder of the lock knows. -/
def Cache.HolderOk (st : Cache) : Prop :=
  match st.holder with
  | none | some (_, .locked) => st.committed = st.lastRenamed
  | some (task, .writing) => st.committed = st.lastRenamed ∧ st.lastRenamed < task.ticket
  | some (task, .renamed) => st.lastRenamed = task.ticket

structure Inv (old : Option CachedSnapshot) (st : Cache) : Prop where
  captures : st.captures.length = st.nextTicket
  /-- A task writes the capture its ticket was taken for. -/
  contents : ∀ task ∈ st.waiting ++ st.undecided,
    0 < task.ticket ∧ st.captures[task.ticket - 1]? = some task.content
  tickets : (((st.waiting ++ st.undecided).map (·.ticket)) ++ (st.renames ++ st.skipped)).Perm
    (List.range' 1 st.nextTicket)
  ordered : st.renames.Pairwise (· > ·)
  file : st.file = match st.renames with
    | ticket :: _ => st.captures[ticket - 1]?
    | [] => old
  holder : st.HolderOk
  skipped : ∀ ticket ∈ st.skipped, ticket < st.nextTicket

section Steps

variable {old : Option CachedSnapshot} {st st' : Cache} {task : Task}

theorem Inv.init : Inv old (start old) where
  captures := rfl
  contents task h := by cases h
  tickets := .refl _
  ordered := .nil
  file := rfl
  holder := rfl
  skipped ticket h := by cases h

theorem Inv.le_nextTicket (h : Inv old st) {ticket : Nat} (hmem : ticket ∈ st.renames) :
    0 < ticket ∧ ticket ≤ st.nextTicket := by
  have hrange : ticket ∈ List.range' 1 st.nextTicket :=
    h.tickets.mem_iff.1 (List.mem_append_right _ (List.mem_append_left _ hmem))
  rw [List.mem_range'_1] at hrange
  omega

theorem lastRenamed_mem (h : st.lastRenamed ≠ 0) : st.lastRenamed ∈ st.renames := by
  unfold Cache.lastRenamed at h ⊢
  cases hr : st.renames with
  | nil => rw [hr] at h; exact absurd rfl h
  | cons ticket rest => exact List.mem_cons_self

theorem Inv.capture (h : Inv old st) (content : CachedSnapshot)
    (hs : step st (.capture content) = some st') : Inv old st' := by
  obtain rfl := Option.some.inj hs
  have hlen := h.captures
  refine ⟨by simp [hlen], fun task hmem => ?_, ?_, h.ordered, ?_, h.holder, fun ticket ht => ?_⟩
  · rcases List.mem_cons.1 hmem with rfl | hmem
    · refine ⟨Nat.succ_pos _, ?_⟩
      dsimp only
      rw [Nat.add_sub_cancel, ← hlen, List.getElem?_concat_length]
    · obtain ⟨hpos, hcontent⟩ := h.contents task hmem
      refine ⟨hpos, ?_⟩
      dsimp only
      rw [List.getElem?_append_left (List.getElem?_eq_some_iff.1 hcontent).1, hcontent]
  · dsimp only
    rw [List.range'_1_concat, Nat.add_comm 1]
    exact (h.tickets.cons _).trans (List.perm_append_singleton _ _).symm
  · change st.file = _
    rw [h.file]
    cases hr : st.renames with
    | nil => rfl
    | cons ticket rest =>
      have hle := h.le_nextTicket (hr ▸ List.mem_cons_self)
      exact (List.getElem?_append_left (by omega)).symm
  · have := h.skipped ticket ht
    dsimp only
    omega

theorem Inv.acquire (h : Inv old st) (i : Nat) (hs : step st (.acquire i) = some st') :
    Inv old st' := by
  simp only [step] at hs
  split at hs
  next task hholder hi =>
    obtain rfl := Option.some.inj hs
    obtain ⟨hlt, rfl⟩ := List.getElem?_eq_some_iff.1 hi
    have hundecided : st.undecided = [] := by simp [Cache.undecided, hholder]
    have hperm : (st.waiting.eraseIdx i ++ [st.waiting[i]]).Perm (st.waiting ++ st.undecided) := by
      rw [hundecided, List.append_nil]
      exact (List.perm_append_singleton _ _).trans (List.getElem_cons_eraseIdx_perm hlt)
    have hok : st.committed = st.lastRenamed := by simpa [Cache.HolderOk, hholder] using h.holder
    exact ⟨h.captures, fun task hmem => h.contents task (hperm.mem_iff.1 hmem),
      ((hperm.map _).append_right _).trans h.tickets, h.ordered, h.file, hok, h.skipped⟩
  next => cases hs

theorem Inv.check (h : Inv old st) (hs : step st .check = some st') : Inv old st' := by
  simp only [step] at hs
  split at hs
  next task hholder =>
    have hundecided : st.undecided = [task] := by simp [Cache.undecided, hholder]
    have hok : st.committed = st.lastRenamed := by simpa [Cache.HolderOk, hholder] using h.holder
    have hperm := h.tickets
    rw [hundecided, List.map_append, List.map_singleton] at hperm
    split at hs
    next hcond =>
      obtain rfl := Option.some.inj hs
      refine ⟨h.captures, fun task' hmem => ?_, ?_, h.ordered, h.file, hok, fun ticket ht => ?_⟩
      · rw [show Cache.undecided _ = [] from rfl, List.append_nil] at hmem
        exact h.contents task' (List.mem_append_left _ hmem)
      · rw [show Cache.undecided _ = [] from rfl, List.append_nil]
        refine .trans ?_ hperm
        rw [List.append_assoc]
        refine .append_left _ ?_
        exact List.perm_middle
      · rcases List.mem_cons.1 ht with rfl | ht
        · -- a later ticket is out, or was committed
          have hpos := (h.contents task (by rw [hundecided]; simp)).1
          rcases hcond with hle | hlt
          · have hmem : st.lastRenamed ∈ st.renames := lastRenamed_mem (by omega)
            have hnodup := hperm.nodup_iff.2 (List.nodup_range' (h := Nat.one_pos))
            have hne : task.ticket ≠ st.lastRenamed := fun heq => by
              rw [List.nodup_append] at hnodup
              exact hnodup.2.2 task.ticket (by simp) st.lastRenamed (by simp [hmem]) heq
            have := (h.le_nextTicket hmem).2
            dsimp only
            omega
          · exact hlt
        · exact h.skipped ticket ht
    next hcond =>
      obtain rfl := Option.some.inj hs
      rw [not_or] at hcond
      have hlt : st.lastRenamed < task.ticket := by omega
      have hsame : Cache.undecided { st with holder := some (task, .writing) } = st.undecided := by
        rw [hundecided]; rfl
      exact ⟨h.captures, by
        rw [hsame]; exact h.contents, by rw [hsame]; exact h.tickets, h.ordered, h.file,
        ⟨hok, hlt⟩, h.skipped⟩
  next => cases hs

theorem Inv.rename (h : Inv old st) (hs : step st .rename = some st') : Inv old st' := by
  simp only [step] at hs
  split at hs
  next task hholder =>
    obtain rfl := Option.some.inj hs
    have hundecided : st.undecided = [task] := by simp [Cache.undecided, hholder]
    obtain ⟨-, hlt⟩ : st.committed = st.lastRenamed ∧ st.lastRenamed < task.ticket := by
      simpa [Cache.HolderOk, hholder] using h.holder
    have hperm := h.tickets
    rw [hundecided, List.map_append, List.map_singleton] at hperm
    refine ⟨h.captures, fun task' hmem => ?_, ?_, ?_, ?_, rfl, h.skipped⟩
    · rw [show Cache.undecided _ = [] from rfl, List.append_nil] at hmem
      exact h.contents task' (List.mem_append_left _ hmem)
    · rw [show Cache.undecided _ = [] from rfl, List.append_nil]
      simpa [List.append_assoc] using hperm
    · refine List.pairwise_cons.2 ⟨fun ticket ht => ?_, h.ordered⟩
      have hle : ticket ≤ st.lastRenamed := by
        have hordered := h.ordered
        unfold Cache.lastRenamed
        cases hr : st.renames with
        | nil => rw [hr] at ht; cases ht
        | cons last rest =>
          rw [hr] at ht hordered
          rcases List.mem_cons.1 ht with rfl | ht
          · exact le_refl _
          · exact le_of_lt ((List.pairwise_cons.1 hordered).1 ticket ht)
      omega
    · exact ((h.contents task (by rw [hundecided]; simp)).2).symm
  next => cases hs

theorem Inv.release (h : Inv old st) (hs : step st .release = some st') : Inv old st' := by
  simp only [step] at hs
  split at hs
  next task hholder =>
    obtain rfl := Option.some.inj hs
    have hundecided : st.undecided = [] := by simp [Cache.undecided, hholder]
    have hok : st.lastRenamed = task.ticket := by simpa [Cache.HolderOk, hholder] using h.holder
    have hsame : Cache.undecided { st with holder := none, committed := task.ticket } =
      st.undecided := by
      rw [hundecided]; rfl
    exact ⟨h.captures, by
      rw [hsame]; exact h.contents, by rw [hsame]; exact h.tickets, h.ordered, h.file,
      hok.symm, h.skipped⟩
  next => cases hs

theorem Inv.step {a : Act} (h : Inv old st) (hs : step st a = some st') : Inv old st' := by
  cases a with
  | capture content => exact h.capture content hs
  | acquire i => exact h.acquire i hs
  | check => exact h.check hs
  | rename => exact h.rename hs
  | release => exact h.release hs

end Steps

/-- The file moves from capture to later capture (its content is that of the last ticket renamed
into place), a task that stands down is never that of the last ticket, and once every task has
finished the file holds the last capture. -/
theorem file_is_last_capture {old : Option CachedSnapshot} {acts : List Act} {st : Cache}
    (hr : Lts.run step (start old) acts = some st) :
    st.renames.Pairwise (· > ·) ∧
      (st.file = match st.renames with
        | ticket :: _ => st.captures[ticket - 1]?
        | [] => old) ∧
      (∀ ticket ∈ st.skipped, ticket < st.captures.length) ∧
      (st.waiting = [] → st.holder = none → st.file = (st.captures.getLast?).or old) := by
  have h : Inv old st := Lts.run_invariant (fun _ _ _ h hs => h.step hs) Inv.init hr
  refine ⟨h.ordered, h.file, fun ticket ht => h.captures ▸ h.skipped ticket ht,
    fun hwaiting hholder => ?_⟩
  have hundecided : st.undecided = [] := by simp [Cache.undecided, hholder]
  have hperm := h.tickets
  rw [hwaiting, hundecided, List.append_nil, List.map_nil, List.nil_append] at hperm
  rw [h.file]
  cases hlast : st.captures.getLast? with
  | none =>
    -- no capture, no ticket
    have hzero : st.nextTicket = 0 := by
      rw [← h.captures, List.getLast?_eq_none_iff.1 hlast]
      rfl
    rw [hzero] at hperm
    rw [(List.append_eq_nil_iff.1 (List.perm_nil.1 hperm)).1]
    rfl
  | some content =>
    have hpos : 0 < st.nextTicket := by
      rw [← h.captures]
      exact List.length_pos_of_mem (List.mem_of_getLast? hlast)
    -- the last ticket was renamed into place, and nothing after it
    have hmem : st.nextTicket ∈ st.renames := by
      have hall : st.nextTicket ∈ st.renames ++ st.skipped :=
        hperm.mem_iff.2 (List.mem_range'_1.2 ⟨hpos, by omega⟩)
      refine (List.mem_append.1 hall).resolve_right fun hskip => ?_
      exact lt_irrefl _ (h.skipped _ hskip)
    have hordered := h.ordered
    cases hrenames : st.renames with
    | nil => rw [hrenames] at hmem; cases hmem
    | cons ticket rest =>
      have hle := h.le_nextTicket (hrenames ▸ List.mem_cons_self)
      have heq : ticket = st.nextTicket := by
        rw [hrenames] at hmem hordered
        rcases List.mem_cons.1 hmem with heq | hrest
        · exact heq.symm
        · have := (List.pairwise_cons.1 hordered).1 _ hrest
          omega
      dsimp only
      rw [heq, ← h.captures, ← List.getLast?_eq_getElem?, hlast]
      rfl

/-- Three captures; the second task gets the lock first, the third is captured while it writes. -/
def outOfOrder : List Act :=
  [.capture ⟨[], 1, []⟩, .capture ⟨[], 2, []⟩, .acquire 0, .check, .capture ⟨[], 2, []⟩,
    .rename, .release, .acquire 1, .check, .acquire 0, .check, .rename, .release]

theorem file_is_last_capture_outOfOrder :
    ∃ st, Lts.run step (start none) outOfOrder = some st ∧ st.renames = [3, 2] ∧ st.skipped = [1] ∧
      st.renames.Pairwise (· > ·) ∧
      (st.file = match st.renames with
        | ticket :: _ => st.captures[ticket - 1]?
        | [] => none) ∧
      (∀ ticket ∈ st.skipped, ticket < st.captures.length) ∧
      (st.waiting = [] → st.holder = none → st.file = (st.captures.getLast?).or none) :=
  ⟨_, rfl, rfl, rfl, file_is_last_capture (show Lts.run _ (start none) outOfOrder = _ from rfl)⟩

end SnapshotCache
end Etcd
end Aisix
