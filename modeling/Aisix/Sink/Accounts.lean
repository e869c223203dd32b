import Aisix.Sink.Pipeline

/-!
# Aisix.Sink.Accounts

Where the records of a sink pipeline are, after any run of it.

* `Flow`   — an accepted record is settled with its batch, lost with the task, or pending, in the
  order of arrival.
* `Counts` — the counters are sums over what was turned away and what was settled.
* `run_accounts` — both hold in every state a run reaches.
-/

namespace Aisix
namespace Sink

variable {R : Type*}

namespace Outcome

def batch : Outcome R → List R
  | delivered batch _ _ => batch
  | givenUp batch _ => batch
  | abandoned batch => batch
  | tornDown batch _ _ => batch

def failures : Outcome R → List SinkError
  | delivered _ failures _ => failures
  | givenUp _ failures => failures
  | abandoned _ => []
  | tornDown _ failures _ => failures

@[simp] theorem failures_delivered (batch : List R) (failures : List SinkError) (accepted : Nat) :
    (delivered batch failures accepted).failures = failures := rfl
@[simp] theorem failures_givenUp (batch : List R) (failures : List SinkError) :
    (givenUp batch failures).failures = failures := rfl
@[simp] theorem failures_abandoned (batch : List R) : (abandoned batch).failures = [] := rfl
@[simp] theorem failures_tornDown (batch : List R) (failures : List SinkError) (attempts : Nat) :
    (tornDown batch failures attempts).failures = failures := rfl

/-- The `append_batch` calls made for it. -/
def sends : Outcome R → List (List R)
  | delivered batch failures _ => List.replicate (failures.length + 1) batch
  | givenUp batch failures => List.replicate failures.length batch
  | abandoned _ => []
  | tornDown batch _ attempts => List.replicate attempts batch

/-- Records counted as dropped. -/
def drops : Outcome R → Nat
  | givenUp batch _ => batch.length
  | abandoned batch => batch.length
  | _ => 0

/-- Failures that were followed by a backoff. -/
def retries : Outcome R → Nat
  | givenUp _ failures => failures.length - 1
  | o => o.failures.length

def accepted : Outcome R → Nat
  | delivered _ _ accepted => accepted
  | _ => 0

def isDelivered : Outcome R → Bool
  | delivered _ _ _ => true
  | _ => false

def isDropped : Outcome R → Bool
  | givenUp _ _ => true
  | abandoned _ => true
  | _ => false

end Outcome

namespace Phase

/-- The delivery in flight, and the `append_batch` calls made for it. -/
def flight : Phase R → Option (Delivery R × Nat)
  | sending d _ => some (d, d.attempt + 1)
  | backingOff d _ _ => some (d, d.attempt)
  | _ => none

@[simp] theorem flight_collecting : (collecting : Phase R).flight = none := rfl
@[simp] theorem flight_draining (deadline : Nat) : (draining deadline : Phase R).flight = none :=
  rfl
@[simp] theorem flight_discarding : (discarding : Phase R).flight = none := rfl
@[simp] theorem flight_leaving : (leaving : Phase R).flight = none := rfl
@[simp] theorem flight_gone : (gone : Phase R).flight = none := rfl
@[simp] theorem flight_sending (d : Delivery R) (since : Nat) :
    (sending d since).flight = some (d, d.attempt + 1) := rfl
@[simp] theorem flight_backingOff (d : Delivery R) (delay wakeAt : Nat) :
    (backingOff d delay wakeAt).flight = some (d, d.attempt) := rfl

@[simp] theorem flight_afterDelivery (drain : Option Nat) :
    (Pipeline.afterDelivery drain : Phase R).flight = none := by
  cases drain <;> rfl

@[simp] theorem afterDelivery_ne_gone (drain : Option Nat) :
    Pipeline.afterDelivery drain ≠ (Phase.gone : Phase R) := by
  cases drain <;> simp [Pipeline.afterDelivery]

def inFlight (phase : Phase R) : List R := phase.flight.elim [] fun f => f.1.batch

def failing (phase : Phase R) : Nat := phase.flight.elim 0 fun f => f.1.attempt

def sends (phase : Phase R) : List (List R) :=
  phase.flight.elim [] fun f => List.replicate f.2 f.1.batch

end Phase

section Counts

/-- The counters, from what was turned away, what was counted in the queue, what was settled and
what is failing. -/
structure Counts (stats : SinkStats) (rejected : List R) (counted : Nat)
    (settled : List (Outcome R)) (failing : Nat) : Prop where
  dropped : stats.dropped = rejected.length + counted + (settled.map Outcome.drops).sum
  fanoutDrops : (stats.fanoutDrops.map Prod.snd).sum = stats.dropped
  fanoutFailures : stats.fanoutFailures = (settled.map fun o => o.failures.length).sum + failing
  retries : stats.retries = (settled.map Outcome.retries).sum + failing
  sent : stats.sent = (settled.map Outcome.accepted).sum
  deliveredBatches : stats.deliveredBatches = settled.countP Outcome.isDelivered
  failedBatches : stats.failedBatches = settled.countP Outcome.isDropped

variable {stats : SinkStats} {rejected : List R} {counted failing : Nat}
    {settled : List (Outcome R)}

namespace Counts

theorem zero : Counts SinkStats.zero ([] : List R) 0 [] 0 :=
  ⟨rfl, rfl, rfl, rfl, rfl, rfl, rfl⟩

theorem reject (h : Counts stats rejected counted settled failing) (record : R)
    (reason : DropReason) :
    Counts (stats.drop reason 1) (rejected ++ [record]) counted settled failing := by
  refine { h with dropped := ?_, fanoutDrops := ?_ }
  · have := h.dropped
    simp [SinkStats.drop]
    omega
  · simp [SinkStats.drop, h.fanoutDrops]

theorem countQueued (h : Counts stats rejected counted settled failing) (reason : DropReason)
    (queued : Nat) :
    Counts (stats.drop reason queued) rejected (counted + queued) settled failing := by
  refine { h with dropped := ?_, fanoutDrops := ?_ }
  · have := h.dropped
    simp only [SinkStats.drop]
    omega
  · simp [SinkStats.drop, h.fanoutDrops]

theorem retry (h : Counts stats rejected counted settled failing) (detail : String) :
    Counts (stats.attemptFailed.retry detail) rejected counted settled (failing + 1) := by
  have hfail := h.fanoutFailures
  have hretry := h.retries
  refine { h with fanoutFailures := ?_, retries := ?_ } <;> simp only [SinkStats.attemptFailed,
    SinkStats.retry] <;> omega

theorem delivered {batch : List R} {failures : List SinkError}
    (h : Counts stats rejected counted settled failures.length) (accepted : Nat) :
    Counts (stats.delivered accepted) rejected counted
      (settled ++ [.delivered batch failures accepted]) 0 where
  dropped := by simpa [SinkStats.delivered, Outcome.drops] using h.dropped
  fanoutDrops := h.fanoutDrops
  fanoutFailures := by simpa [SinkStats.delivered] using h.fanoutFailures
  retries := by simpa [SinkStats.delivered, Outcome.retries] using h.retries
  sent := by simp [SinkStats.delivered, Outcome.accepted, h.sent]
  deliveredBatches := by simp [SinkStats.delivered, Outcome.isDelivered, h.deliveredBatches]
  failedBatches := by simpa [SinkStats.delivered, Outcome.isDropped] using h.failedBatches

theorem givenUp {batch : List R} {failures : List SinkError}
    (h : Counts stats rejected counted settled failures.length) (err : SinkError) (detail : String)
    (reason : DropReason) :
    Counts (stats.attemptFailed.recordDrop batch.length detail reason) rejected counted
      (settled ++ [.givenUp batch (failures ++ [err])]) 0 where
  dropped := by
    have := h.dropped
    simp [SinkStats.recordDrop, SinkStats.drop, SinkStats.attemptFailed, Outcome.drops]
    omega
  fanoutDrops := by
    simp [SinkStats.recordDrop, SinkStats.drop, SinkStats.attemptFailed, h.fanoutDrops]
  fanoutFailures := by
    have := h.fanoutFailures
    simp [SinkStats.recordDrop, SinkStats.drop, SinkStats.attemptFailed]
    omega
  retries := by
    simpa [SinkStats.recordDrop, SinkStats.drop, SinkStats.attemptFailed,
      Outcome.retries] using h.retries
  sent := by
    simpa [SinkStats.recordDrop, SinkStats.drop, SinkStats.attemptFailed,
      Outcome.accepted] using h.sent
  deliveredBatches := by
    simpa [SinkStats.recordDrop, SinkStats.drop, SinkStats.attemptFailed,
      Outcome.isDelivered] using h.deliveredBatches
  failedBatches := by
    simp [SinkStats.recordDrop, SinkStats.drop, SinkStats.attemptFailed, Outcome.isDropped,
      h.failedBatches]

theorem abandoned (h : Counts stats rejected counted settled 0) (batch : List R) (detail : String)
    (reason : DropReason) :
    Counts (stats.recordDrop batch.length detail reason) rejected counted
      (settled ++ [.abandoned batch]) 0 where
  dropped := by
    have := h.dropped
    simp [SinkStats.recordDrop, SinkStats.drop, Outcome.drops]
    omega
  fanoutDrops := by simp [SinkStats.recordDrop, SinkStats.drop, h.fanoutDrops]
  fanoutFailures := by simpa [SinkStats.recordDrop, SinkStats.drop] using h.fanoutFailures
  retries := by simpa [SinkStats.recordDrop, SinkStats.drop, Outcome.retries] using h.retries
  sent := by simpa [SinkStats.recordDrop, SinkStats.drop, Outcome.accepted] using h.sent
  deliveredBatches := by
    simpa [SinkStats.recordDrop, SinkStats.drop, Outcome.isDelivered] using h.deliveredBatches
  failedBatches := by
    simp [SinkStats.recordDrop, SinkStats.drop, Outcome.isDropped, h.failedBatches]

theorem tornDown {phase : Phase R} (h : Counts stats rejected counted settled phase.failing) :
    Counts stats rejected counted (settled ++ Pipeline.tornDown phase) 0 := by
  obtain ⟨hd, hfd, hf, hr, hs, hdb, hfb⟩ := h
  cases phase <;>
    constructor <;>
    simp_all [Pipeline.tornDown, Phase.failing, Delivery.attempt, Outcome.drops, Outcome.retries,
      Outcome.accepted, Outcome.isDelivered, Outcome.isDropped]

end Counts

end Counts

/-- A batch a sink may be handed. -/
def Fits (cfg : PipelineConfig) (batch : List R) : Prop :=
  batch ≠ [] ∧ batch.length ≤ max 1 cfg.maxBatch

/-- What the buffer, and a batch in flight, may hold in a phase. -/
def Held (cfg : PipelineConfig) (buffer : List R) : Phase R → Prop
  | .collecting => buffer = [] ∨ buffer.length < cfg.maxBatch
  | .draining _ => buffer.length ≤ cfg.maxBatch
  | .discarding => True
  | .sending d _ => buffer = [] ∧ Fits cfg d.batch
  | .backingOff d _ _ => buffer = [] ∧ Fits cfg d.batch
  | .leaving => buffer = []
  | .gone => buffer = []

theorem held_afterDelivery (cfg : PipelineConfig) (drain : Option Nat) :
    Held cfg ([] : List R) (Pipeline.afterDelivery drain) := by
  cases drain with
  | none => exact .inl rfl
  | some deadline => exact Nat.zero_le _

namespace Pipeline

/-- What the worker has accepted and not let go of, oldest first. -/
def pending (s : Pipeline R) : List R := s.phase.inFlight ++ s.buffer ++ s.queue

/-- Where the accepted records are, and what the sink was handed. -/
structure Flow (cfg : PipelineConfig) (s : Pipeline R) : Prop where
  accepted : s.accepted = s.settled.flatMap Outcome.batch ++ s.lost ++ s.pending
  running : s.phase ≠ .gone → s.lost = []
  room : s.queue.length ≤ cfg.queueCapacity
  sends : s.sends = s.settled.flatMap Outcome.sends ++ s.phase.sends
  fits : ∀ b ∈ s.sends, Fits cfg b

structure Accounts (cfg : PipelineConfig) (s : Pipeline R) : Prop where
  flow : s.Flow cfg
  held : Held cfg s.buffer s.phase
  counts : Counts s.stats s.rejected s.counted s.settled s.phase.failing

variable {cfg : PipelineConfig} {s s' : Pipeline R}

theorem accounts_init (cfg : PipelineConfig) (now : Nat) :
    (init now : Pipeline R).Accounts cfg where
  flow := ⟨rfl, fun _ => rfl, Nat.zero_le _, rfl, fun _ hb => absurd hb List.not_mem_nil⟩
  held := .inl rfl
  counts := .zero

theorem Accounts.move (h : s.Accounts cfg) {phase : Phase R} (hgone : s.phase ≠ .gone)
    (hidle : s.phase.flight = none) (hto : phase.flight = none) (hheld : Held cfg s.buffer phase) :
    Accounts cfg { s with phase := phase } where
  flow :=
    { h.flow with
      accepted := by simpa [pending, Phase.inFlight, hidle, hto] using h.flow.accepted
      running := fun _ => h.flow.running hgone
      sends := by simpa [Phase.sends, hidle, hto] using h.flow.sends }
  held := hheld
  counts := by simpa [Phase.failing, hidle, hto] using h.counts

theorem Accounts.tryEnqueue (h : s.Accounts cfg) (record : R) :
    (s.tryEnqueue cfg record).Accounts cfg := by
  have hreject : ∀ reason, (s.reject record reason).Accounts cfg := fun reason =>
    ⟨⟨h.flow.accepted, h.flow.running, h.flow.room, h.flow.sends, h.flow.fits⟩, h.held,
      h.counts.reject record reason⟩
  have hpush : s.queue.length < cfg.queueCapacity →
      Accounts cfg { s with queue := s.queue ++ [record], accepted := s.accepted ++ [record] } := by
    intro hroom
    refine ⟨⟨?_, h.flow.running, ?_, h.flow.sends, h.flow.fits⟩, h.held, h.counts⟩
    · simp [h.flow.accepted, pending]
    · simpa [Nat.succ_le_iff] using hroom
  unfold Pipeline.tryEnqueue
  split
  · exact hreject _
  · split
    · next hroom => exact hpush hroom
    · exact hreject _

theorem Accounts.countQueuedAsDropped (h : s.Accounts cfg) :
    s.countQueuedAsDropped.Accounts cfg := by
  unfold Pipeline.countQueuedAsDropped
  split
  · exact h
  · exact ⟨⟨h.flow.accepted, h.flow.running, h.flow.room, h.flow.sends, h.flow.fits⟩, h.held,
      h.counts.countQueued _ _⟩

theorem Flow.pop (h : s.Flow cfg) {record : R} {queue : List R} (hidle : s.phase.flight = none)
    (hqueue : s.queue = record :: queue) :
    Flow cfg { s with buffer := s.buffer ++ [record], queue := queue } := by
  refine ⟨?_, h.running, ?_, h.sends, h.fits⟩
  · simp [h.accepted, pending, Phase.inFlight, hidle, hqueue]
  · have := h.room
    simp only [hqueue, List.length_cons] at this
    show queue.length ≤ _
    omega

theorem Flow.flush (h : s.Flow cfg) (hgone : s.phase ≠ .gone) (hidle : s.phase.flight = none)
    (hfits : Fits cfg s.buffer) (hcounts : Counts s.stats s.rejected s.counted s.settled 0)
    (drain : Option Nat) :
    (s.flush drain).Accounts cfg := by
  have hne : s.buffer.isEmpty = false := by simpa using hfits.1
  simp only [Pipeline.flush, hne, Bool.false_eq_true, if_false, Pipeline.send]
  refine ⟨⟨?_, fun _ => h.running hgone, h.room, ?_, ?_⟩, ⟨rfl, hfits⟩, hcounts⟩
  · simp [h.accepted, pending, hidle, Phase.inFlight]
  · simp [h.sends, hidle, Phase.sends, Delivery.attempt]
  · exact List.forall_mem_append.2 ⟨h.fits, List.forall_mem_singleton.2 hfits⟩

theorem Accounts.recv (h : s.Accounts cfg) {record : R} {queue : List R}
    (hphase : s.phase = .collecting) (hqueue : s.queue = record :: queue) :
    Accounts cfg
      (if cfg.maxBatch ≤ (s.buffer ++ [record]).length then
        { s with buffer := s.buffer ++ [record], queue := queue }.flush none
      else { s with buffer := s.buffer ++ [record], queue := queue }) := by
  have hidle : s.phase.flight = none := by rw [hphase]; rfl
  have hheld : s.buffer = [] ∨ s.buffer.length < cfg.maxBatch := by
    simpa [Held, hphase] using h.held
  have hpop := h.flow.pop hidle hqueue
  have hcounts : Counts s.stats s.rejected s.counted s.settled 0 := by
    simpa [hphase, Phase.failing] using h.counts
  have hlen : (s.buffer ++ [record]).length = s.buffer.length + 1 := by simp
  split
  · refine hpop.flush ?_ hidle ⟨by simp, ?_⟩ hcounts none
    · simp [hphase]
    · rcases hheld with hnil | hlt
      · simp [hnil]
      · show (s.buffer ++ [record]).length ≤ _
        omega
  · next hlt => exact ⟨hpop, by simp only [hphase, Held]; omega, h.counts⟩

theorem Accounts.tick (h : s.Accounts cfg) (hphase : s.phase = .collecting) :
    (s.flush none).Accounts cfg := by
  by_cases hnil : s.buffer = []
  · simpa [Pipeline.flush, hnil] using h
  · have hheld : s.buffer = [] ∨ s.buffer.length < cfg.maxBatch := by
      simpa [Held, hphase] using h.held
    refine h.flow.flush (by simp [hphase]) (by simp [hphase]) ⟨hnil, ?_⟩
      (by simpa [hphase, Phase.failing] using h.counts) none
    have := hheld.resolve_left hnil
    omega

theorem Accounts.startDrain (h : s.Accounts cfg) (hphase : s.phase = .collecting) (deadline : Nat) :
    Accounts cfg { s with phase := .draining deadline } := by
  have hheld : s.buffer = [] ∨ s.buffer.length < cfg.maxBatch := by
    simpa [Held, hphase] using h.held
  refine h.move (by simp [hphase]) (by simp [hphase]) rfl ?_
  rcases hheld with hnil | hlt
  · simp [Held, hnil]
  · exact Nat.le_of_lt hlt

theorem Accounts.drainFlush (h : s.Accounts cfg) {deadline : Nat}
    (hphase : s.phase = .draining deadline)
    (hne : s.buffer ≠ []) : (s.flush (some deadline)).Accounts cfg := by
  have hidle : s.phase.flight = none := by simp [hphase]
  have hheld : s.buffer.length ≤ cfg.maxBatch := by simpa [Held, hphase] using h.held
  exact h.flow.flush (by simp [hphase]) hidle ⟨hne, by omega⟩
    (by simpa [Phase.failing, hidle] using h.counts) _

theorem Accounts.resend (h : s.Accounts cfg) {d d' : Delivery R} {delay wakeAt : Nat}
    (hphase : s.phase = .backingOff d delay wakeAt) (hbatch : d'.batch = d.batch)
    (hfailures : d'.failures = d.failures) :
    (s.send d').Accounts cfg := by
  obtain ⟨hbuffer, hfits⟩ : s.buffer = [] ∧ Fits cfg d.batch := by simpa [Held, hphase] using h.held
  refine ⟨⟨?_, fun _ => h.flow.running (by simp [hphase]), h.flow.room, ?_, ?_⟩,
    ⟨hbuffer, hbatch ▸ hfits⟩, ?_⟩
  · simpa [pending, Pipeline.send, Phase.inFlight, hphase, hbatch] using h.flow.accepted
  · simp [Pipeline.send, h.flow.sends, hphase, Phase.sends, Delivery.attempt, hbatch, hfailures,
      List.replicate_succ']
  · exact List.forall_mem_append.2 ⟨h.flow.fits, List.forall_mem_singleton.2 (hbatch ▸ hfits)⟩
  · simpa [Pipeline.send, hphase, Phase.failing, Delivery.attempt, hfailures] using h.counts

theorem Flow.settle (h : s.Flow cfg) {d : Delivery R} {since : Nat} {o : Outcome R}
    (hphase : s.phase = .sending d since) (hbatch : o.batch = d.batch)
    (hsends : o.sends = List.replicate (d.attempt + 1) d.batch) (stats : SinkStats) :
    Flow cfg (s.settle o stats (afterDelivery d.drain)) where
  accepted := by
    have hlost := h.running (by simp [hphase])
    simp [Pipeline.settle, h.accepted, hlost, pending, hphase, Phase.inFlight, hbatch]
  running := fun _ => h.running (by simp [hphase])
  room := h.room
  sends := by simp [Pipeline.settle, h.sends, hphase, Phase.sends, hsends]
  fits := h.fits

theorem Accounts.answer (h : s.Accounts cfg) {d : Delivery R} {since : Nat}
    (hphase : s.phase = .sending d since) (masked : SinkError → String)
    (result : Except SinkError Nat) :
    (s.answer cfg masked d result).Accounts cfg := by
  obtain ⟨hbuffer, hfits⟩ : s.buffer = [] ∧ Fits cfg d.batch := by simpa [Held, hphase] using h.held
  have hcounts : Counts s.stats s.rejected s.counted s.settled d.failures.length := by
    simpa [hphase, Phase.failing, Delivery.attempt] using h.counts
  have hheld : Held cfg s.buffer (afterDelivery d.drain) := hbuffer ▸ held_afterDelivery cfg d.drain
  cases result with
  | ok accepted =>
    exact ⟨h.flow.settle hphase rfl rfl _, hheld, by
      simpa [Pipeline.answer, Pipeline.settle, Phase.failing] using hcounts.delivered accepted⟩
  | error err =>
    simp only [Pipeline.answer]
    split
    · refine ⟨⟨?_, fun _ => h.flow.running (by simp [hphase]), h.flow.room, ?_, h.flow.fits⟩,
        ⟨hbuffer, hfits⟩, ?_⟩
      · simpa [pending, Phase.inFlight, hphase] using h.flow.accepted
      · simpa [Phase.sends, hphase, Delivery.attempt] using h.flow.sends
      · simpa [Phase.failing, Delivery.attempt] using hcounts.retry (masked err)
    · refine ⟨h.flow.settle hphase rfl ?_ _, hheld, ?_⟩
      · simp [Outcome.sends, Delivery.attempt]
      · simpa [Pipeline.settle, Phase.failing] using hcounts.givenUp err (masked err) _

theorem Accounts.tryRecv (h : s.Accounts cfg) {record : R} {queue : List R}
    (hqueue : s.queue = record :: queue)
    (hphase : (∃ deadline, s.phase = .draining deadline) ∧ s.buffer.length < cfg.maxBatch ∨
      s.phase = .discarding) :
    Accounts cfg { s with buffer := s.buffer ++ [record], queue := queue } := by
  rcases hphase with ⟨⟨deadline, hphase⟩, hshort⟩ | hphase
  · exact ⟨h.flow.pop
      (by simp [hphase]) hqueue, by simpa [Held, hphase] using Nat.succ_le_of_lt hshort, h.counts⟩
  · exact ⟨h.flow.pop (by simp [hphase]) hqueue, by simp [Held, hphase], h.counts⟩

theorem Accounts.discarded (h : s.Accounts cfg) (hphase : s.phase = .discarding)
    (hqueue : s.queue = []) (detail : String) (reason : DropReason) :
    Accounts cfg ({ s with buffer := [] }.settle (.abandoned s.buffer)
      (s.stats.recordDrop s.buffer.length detail reason) .leaving) := by
  have hlost := h.flow.running (by simp [hphase])
  have hcounts : Counts s.stats s.rejected s.counted s.settled 0 := by
    simpa [hphase, Phase.failing] using h.counts
  refine ⟨⟨?_, fun _ => hlost, h.flow.room, ?_, h.flow.fits⟩, rfl, hcounts.abandoned _ _ _⟩
  · simp [Pipeline.settle, h.flow.accepted, hlost, pending, hphase, Phase.inFlight,
      hqueue, Outcome.batch]
  · simp [Pipeline.settle, h.flow.sends, hphase, Phase.sends, Outcome.sends]

theorem batch_tornDown (phase : Phase R) :
    (tornDown phase).flatMap Outcome.batch = phase.inFlight := by
  cases phase <;> simp [tornDown, Phase.inFlight, Outcome.batch]

theorem sends_tornDown (phase : Phase R) :
    (tornDown phase).flatMap Outcome.sends = phase.sends := by
  cases phase <;> simp [tornDown, Phase.sends, Outcome.sends]

theorem Accounts.dropped (h : s.Accounts cfg) (hgone : s.phase ≠ .gone) :
    s.dropped.Accounts cfg := by
  have hlost := h.flow.running hgone
  refine ⟨⟨?_, fun hne => absurd rfl hne, Nat.zero_le _, ?_, h.flow.fits⟩, rfl, ?_⟩
  · simp [Pipeline.dropped, h.flow.accepted, hlost, pending, Phase.inFlight, batch_tornDown]
  · simp [Pipeline.dropped, h.flow.sends, Phase.sends, sends_tornDown]
  · exact h.counts.tornDown

/-- A backoff put off: nothing but the shutdown signal and the wake-up change. -/
theorem Accounts.hangUp (h : s.Accounts cfg) {d : Delivery R} {delay wakeAt : Nat} (wakeAt' : Nat)
    (hphase : s.phase = .backingOff d delay wakeAt) :
    Accounts cfg { s with signal := .hungUp, phase := .backingOff d delay wakeAt' } where
  flow :=
    { h.flow with
      accepted := by simpa [pending, Phase.inFlight, hphase] using h.flow.accepted
      running := fun _ => h.flow.running (by simp [hphase])
      sends := by simpa [Phase.sends, hphase] using h.flow.sends }
  held := by simpa [Held, hphase] using h.held
  counts := by simpa [Phase.failing, hphase] using h.counts

theorem Accounts.act (h : s.Accounts cfg) {masked : SinkError → String} {e : Event R}
    (hact : s.act cfg masked e = some s') : s'.Accounts cfg := by
  have hsame : ∀ signal orphaned, Accounts cfg { s with signal := signal, orphaned := orphaned } :=
    fun _ _ =>
    ⟨⟨h.flow.accepted, h.flow.running, h.flow.room, h.flow.sends, h.flow.fits⟩, h.held, h.counts⟩
  refine act_cases hact h.tryEnqueue h.countQueuedAsDropped (hsame _ _)
    (fun _ _ => hsame _ _) ?hangUp ?recv h.tick ?startDrain ?tryRecv ?drained ?overdue ?flush
    ?discarded ?answered ?woke ?wokeEarly h.dropped
  case hangUp => exact fun d delay wakeAt hphase _ => h.hangUp _ hphase
  case recv => exact fun record queue hphase hqueue => h.recv hphase hqueue
  case startDrain => exact fun deadline hphase => h.startDrain hphase deadline
  case tryRecv => exact fun record queue hqueue hphase => h.tryRecv hqueue hphase
  case drained =>
    intro deadline hphase hnil
    exact h.move (by simp [hphase]) (by simp [hphase]) rfl hnil
  case overdue =>
    intro deadline hphase _
    exact h.move (by simp [hphase]) (by simp [hphase]) rfl trivial
  case flush => exact fun deadline hphase _ hne => h.drainFlush hphase hne
  case discarded => exact fun hphase hqueue => h.discarded hphase hqueue _ _
  case answered => exact fun d since result hphase => h.answer hphase masked result
  case woke => exact fun d delay wakeAt hphase _ => h.resend hphase rfl rfl
  case wokeEarly => exact fun d delay wakeAt hphase _ _ => h.resend hphase rfl rfl

theorem Accounts.step (h : s.Accounts cfg) {masked : SinkError → String} {l : Label R}
    (hstep : s.step cfg masked l = some s') : s'.Accounts cfg := by
  have hclock : Accounts cfg { s with clock := l.now } :=
    ⟨⟨h.flow.accepted, h.flow.running, h.flow.room, h.flow.sends, h.flow.fits⟩, h.held, h.counts⟩
  simp only [Pipeline.step, Option.ite_none_left_eq_some] at hstep
  exact hclock.act hstep.2

/-- In every state a pipeline reaches, whatever its producers, its sink, the clock and its owner do:
the accepted records are, in the order they came, those settled with their batch, those lost with
the task and those pending; the sink was handed each batch whole, as often as it failed and once
more if it took it; and the counters are what was turned away and settled. -/
theorem run_accounts (cfg : PipelineConfig) (masked : SinkError → String) {now : Nat}
    {ls : List (Label R)}
    {s : Pipeline R} (hrun : Lts.run (step cfg masked) (init now) ls = some s) : s.Accounts cfg :=
  Lts.run_invariant (fun _ _ _ h hstep => h.step hstep) (accounts_init cfg now) hrun

/-- Three places, batches of two, and a second to retry in. -/
def shortConfig : PipelineConfig := ⟨3, 2, 1000000000, 200000000, 30000000000, by decide, by decide⟩

/-- A full queue, a batch retried once, a shutdown, a batch refused for good and a record that came
too late. -/
def shutdownRun : List (Label Nat) :=
  [⟨0, .enqueue 1⟩, ⟨0, .enqueue 2⟩, ⟨0, .enqueue 3⟩, ⟨0, .enqueue 4⟩, ⟨5, .recv⟩, ⟨5, .recv⟩,
    ⟨10, .answered (.error (.transient "connection refused"))⟩, ⟨200000010, .woke⟩,
    ⟨200000020, .answered (.ok 2)⟩, ⟨200000030, .cancel⟩, ⟨200000030, .cancelled⟩,
    ⟨200000030, .tryRecv⟩, ⟨200000030, .drainStep⟩,
    ⟨200000040, .answered (.error (.permanent "413"))⟩, ⟨200000040, .drainStep⟩,
    ⟨200000050, .enqueue 5⟩, ⟨200000060, .closed⟩]

theorem run_accounts_shutdown :
    ∃ s : Pipeline Nat, Lts.run (step shortConfig fun _ => "") (init 0) shutdownRun = some s ∧
      s.lost = [5] ∧ s.stats.sent = 2 ∧ s.stats.dropped = 2 ∧ s.Accounts shortConfig := by
  obtain ⟨s, hrun, hlost, hsent, hdropped⟩ : ∃ s : Pipeline Nat,
      Lts.run (step shortConfig fun _ => "") (init 0) shutdownRun = some s ∧ s.lost = [5] ∧
        s.stats.sent = 2 ∧ s.stats.dropped = 2 := ⟨_, rfl, rfl, rfl, rfl⟩
  exact ⟨s, hrun, hlost, hsent, hdropped, run_accounts shortConfig _ hrun⟩

end Pipeline

end Sink
end Aisix
