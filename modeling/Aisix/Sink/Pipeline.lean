import Aisix.Lts
import Mathlib.Algebra.BigOperators.Group.List.Basic

/-!
# Aisix.Sink.Pipeline

The delivery pipeline of one exporter (`sink/pipeline.rs`): a bounded queue, the worker that batches
and delivers with retry, and the two ways it ends.

* The producers: `enqueue` (`try_enqueue`), and `countQueued` before an `abort`.
* The worker's loop: `recv`, `tick`, and `channelClosed` or `cancelled`, which start the drain.
* The drain: `tryRecv` and `drainStep`, then `discarded` when its deadline is spent.
* One delivery: `answered` by the sink, `woke` after a backoff.

Times are nanoseconds. `accepted`, `rejected`, `settled`, `sends`, `lost`, `counted`, `late` and a
delivery's `failures` and `woken` are history; `attempt` counts the failures.
-/

namespace Aisix
namespace Sink

inductive SinkError where
  | transient (detail : String)
  | throttled (retryAfter : Nat) (detail : String)
  | permanent (detail : String)
  deriving Repr, DecidableEq

namespace SinkError

def isTransient : SinkError → Bool
  | transient _ => true
  | throttled _ _ => true
  | permanent _ => false

def retryAfter : SinkError → Option Nat
  | throttled asked _ => some asked
  | _ => none

end SinkError

/-- `Duration::MAX`. -/
def durationMax : Nat := (2 ^ 64 - 1) * 1000000000 + 999999999

/-- The tuning of a pipeline. A channel has a place, and `clamp` asks for its bounds in order. -/
structure PipelineConfig where
  queueCapacity : Nat
  maxBatch : Nat
  retryBudget : Nat
  baseBackoff : Nat
  maxBackoff : Nat
  queue_pos : 0 < queueCapacity
  backoff_le : baseBackoff ≤ maxBackoff

def PipelineConfig.default : PipelineConfig where
  queueCapacity := 8192
  maxBatch := 100
  retryBudget := 300 * 1000000000
  baseBackoff := 200 * 1000000
  maxBackoff := 30 * 1000000000
  queue_pos := by decide
  backoff_le := by decide

/-- What one batch, or one drain, may still spend on retries once shutdown is signalled. -/
def drainRetryBudget : Nat := 3 * 1000000000

/-- `base * 2^(attempt - 1)`, capped at `cap`. -/
def backoff (base cap attempt : Nat) : Nat :=
  let factor := min (2 ^ (attempt - 1)) (2 ^ 32 - 1)
  min (if base * factor ≤ durationMax then base * factor else cap) cap

/-- What is left of the retry budget, and of the deadline, at `now`. -/
def remaining (cfg : PipelineConfig) (started : Nat) (deadline : Option Nat) (now : Nat) : Nat :=
  match deadline with
  | some deadline => min (cfg.retryBudget - (now - started)) (deadline - now)
  | none => cfg.retryBudget - (now - started)

/-- A `Retry-After` wins over the ladder, floored as well as capped. -/
def pause (cfg : PipelineConfig) (err : SinkError) (attempt : Nat) : Nat :=
  match err.retryAfter with
  | some asked => max cfg.baseBackoff (min asked cfg.maxBackoff)
  | none => backoff cfg.baseBackoff cfg.maxBackoff (attempt + 1)

/-- How long to wait before the next attempt; `none` when the batch is done. -/
def nextDelay (cfg : PipelineConfig) (err : SinkError) (attempt started : Nat)
    (deadline : Option Nat) (now : Nat) :
    Option Nat :=
  if !err.isTransient then none
  else if cfg.retryBudget < now - started then none
  else if remaining cfg started deadline now = 0 then none
  else some (min (pause cfg err attempt) (remaining cfg started deadline now))

inductive DropReason where
  | queueFull
  | workerStopped
  | retriesExhausted
  | permanentError
  deriving Repr, DecidableEq

/-- `SinkStats`, with the fan-out counters of the Prometheus handle. -/
structure SinkStats where
  sent : Nat
  dropped : Nat
  retries : Nat
  deliveredBatches : Nat
  failedBatches : Nat
  lastError : Option String
  fanoutDrops : List (DropReason × Nat)
  fanoutFailures : Nat
  deriving Repr, DecidableEq

namespace SinkStats

def zero : SinkStats := ⟨0, 0, 0, 0, 0, none, [], 0⟩

/-- `try_enqueue` turning a record away, and `count_queued_as_dropped`. -/
def drop (st : SinkStats) (reason : DropReason) (count : Nat) : SinkStats :=
  { st with dropped := st.dropped + count, fanoutDrops := st.fanoutDrops ++ [(reason, count)] }

def delivered (st : SinkStats) (accepted : Nat) : SinkStats :=
  { st with sent := st.sent +
    accepted, deliveredBatches := st.deliveredBatches + 1, lastError := none }

def attemptFailed (st : SinkStats) : SinkStats :=
  { st with fanoutFailures := st.fanoutFailures + 1 }

def retry (st : SinkStats) (detail : String) : SinkStats :=
  { st with retries := st.retries + 1, lastError := some detail }

/-- The worker's `record_drop`. -/
def recordDrop (st : SinkStats) (count : Nat) (detail : String) (reason : DropReason) : SinkStats :=
  { st.drop reason count with failedBatches := st.failedBatches + 1, lastError := some detail }

end SinkStats

/-- One batch in `deliver`. `drain` is the deadline it was handed, `deadline` the one it goes by. -/
structure Delivery (R : Type*) where
  batch : List R
  started : Nat
  drain : Option Nat
  deadline : Option Nat
  failures : List SinkError
  /-- Backoffs cut short by the shutdown signal. -/
  woken : Nat
  deriving Repr, DecidableEq

def Delivery.attempt {R : Type*} (d : Delivery R) : Nat := d.failures.length

inductive Phase (R : Type*) where
  | collecting
  | draining (deadline : Nat)
  /-- The drain's deadline is spent; what the queue still holds goes the way of the buffer. -/
  | discarding
  | sending (d : Delivery R) (since : Nat)
  | backingOff (d : Delivery R) (delay wakeAt : Nat)
  /-- `run` is over and its receiver still stands. -/
  | leaving
  | gone
  deriving Repr, DecidableEq

/-- The shutdown channel: never flipped, flipped to `true`, or its sender dropped before that. -/
inductive Signal where
  | watching
  | sent
  | hungUp
  deriving Repr, DecidableEq

/-- How a batch left the worker. -/
inductive Outcome (R : Type*) where
  | delivered (batch : List R) (failures : List SinkError) (accepted : Nat)
  | givenUp (batch : List R) (failures : List SinkError)
  /-- Never attempted: what the drain's deadline left. -/
  | abandoned (batch : List R)
  /-- In flight when the task was dropped, after so many attempts. -/
  | tornDown (batch : List R) (failures : List SinkError) (attempts : Nat)
  deriving Repr, DecidableEq

structure Pipeline (R : Type*) where
  clock : Nat
  queue : List R
  buffer : List R
  phase : Phase R
  signal : Signal
  /-- No handle is left to enqueue with. -/
  orphaned : Bool
  stats : SinkStats
  accepted : List R
  rejected : List R
  settled : List (Outcome R)
  sends : List (List R)
  lost : List R
  counted : Nat
  /-- Calls of `append_batch` that a drain made past its deadline. -/
  late : Nat
  deriving Repr, DecidableEq

inductive Event (R : Type*) where
  | enqueue (record : R)
  | countQueued
  | handlesDropped
  | cancel
  | hangUp
  | recv
  | tick
  | channelClosed
  | cancelled
  | tryRecv
  | drainStep
  | discarded
  | answered (result : Except SinkError Nat)
  | woke
  | closed
  | abort

/-- A step and the instant it is taken at. -/
structure Label (R : Type*) where
  now : Nat
  event : Event R

namespace Pipeline

variable {R : Type*}

def init (now : Nat) : Pipeline R :=
  ⟨now, [], [], .collecting, .watching, false, .zero, [], [], [], [], [], 0, 0⟩

/-- Where `deliver` returns to. -/
def afterDelivery : Option Nat → Phase R
  | none => .collecting
  | some deadline => .draining deadline

/-- One call of the sink's `append_batch`. -/
def send (s : Pipeline R) (d : Delivery R) : Pipeline R :=
  { s with
    phase := .sending d s.clock, sends := s.sends ++ [d.batch]
    late := if d.drain.any (· ≤ s.clock) then s.late + 1 else s.late }

def flush (s : Pipeline R) (drain : Option Nat) : Pipeline R :=
  if s.buffer.isEmpty then s
  else { s with buffer := [] }.send ⟨s.buffer, s.clock, drain, drain, [], 0⟩

def reject (s : Pipeline R) (record : R) (reason : DropReason) : Pipeline R :=
  { s with stats := s.stats.drop reason 1, rejected := s.rejected ++ [record] }

def tryEnqueue (cfg : PipelineConfig) (s : Pipeline R) (record : R) : Pipeline R :=
  match s.phase with
  | .gone => s.reject record .workerStopped
  | _ =>
    if s.queue.length < cfg.queueCapacity then
      { s with queue := s.queue ++ [record], accepted := s.accepted ++ [record] }
    else s.reject record .queueFull

def countQueuedAsDropped (s : Pipeline R) : Pipeline R :=
  if s.queue.length = 0 then s
  else { s with stats := s.stats.drop .workerStopped s.queue.length, counted := s.counted +
    s.queue.length }

def settle (s : Pipeline R) (o : Outcome R) (stats : SinkStats) (phase : Phase R) : Pipeline R :=
  { s with settled := s.settled ++ [o], stats := stats, phase := phase }

/-- The sink's answer to the attempt in flight. -/
def answer (cfg : PipelineConfig) (masked : SinkError → String) (s : Pipeline R) (d : Delivery R) :
    Except SinkError Nat → Pipeline R
  | .ok accepted =>
    s.settle (.delivered d.batch d.failures accepted) (s.stats.delivered accepted)
      (afterDelivery d.drain)
  | .error err =>
    let deadline :=
      if d.deadline = none ∧ s.signal = .sent then some (s.clock + drainRetryBudget) else d.deadline
    match nextDelay cfg err d.attempt d.started deadline s.clock with
    | some delay =>
      { s with
        stats := s.stats.attemptFailed.retry (masked err)
        phase :=
          .backingOff { d with deadline := deadline, failures := d.failures ++ [err] } delay
            (s.clock + delay) }
    | none =>
      s.settle (.givenUp d.batch (d.failures ++ [err]))
        (s.stats.attemptFailed.recordDrop d.batch.length (masked err)
          (if err.isTransient then .retriesExhausted else .permanentError))
        (afterDelivery d.drain)

def tornDown : Phase R → List (Outcome R)
  | .sending d _ => [.tornDown d.batch d.failures (d.attempt + 1)]
  | .backingOff d _ _ => [.tornDown d.batch d.failures d.attempt]
  | _ => []

/-- The task and its receiver are dropped, with what they hold. -/
def dropped (s : Pipeline R) : Pipeline R :=
  { s with
    phase := .gone, settled := s.settled ++ tornDown s.phase,
    lost := s.lost ++ (s.buffer ++ s.queue), buffer := [], queue := [] }

def act (cfg : PipelineConfig) (masked : SinkError → String) (s : Pipeline R) :
    Event R → Option (Pipeline R)
  | .enqueue record => if s.orphaned then none else some (s.tryEnqueue cfg record)
  | .countQueued => if s.orphaned then none else some s.countQueuedAsDropped
  | .handlesDropped => some { s with orphaned := true }
  | .cancel => if s.signal = .watching then some { s with signal := .sent } else none
  | .hangUp =>
    if s.signal = .watching then
      match s.phase with
      -- a closed channel sends the backoff to sleep anew, unless it was not listening
      | .backingOff d delay _ =>
        if d.deadline = none then
          some { s with signal := .hungUp, phase := .backingOff d delay (s.clock + delay) }
        else some { s with signal := .hungUp }
      | _ => some { s with signal := .hungUp }
    else none
  | .recv =>
    match s.phase, s.queue with
    | .collecting, record :: queue =>
      let s' := { s with buffer := s.buffer ++ [record], queue := queue }
      some (if cfg.maxBatch ≤ s'.buffer.length then s'.flush none else s')
    | _, _ => none
  | .tick =>
    match s.phase with
    | .collecting => some (s.flush none)
    | _ => none
  | .channelClosed =>
    match s.phase, s.queue with
    | .collecting, [] =>
      if s.orphaned then some { s with phase := .draining (s.clock + drainRetryBudget) } else none
    | _, _ => none
  | .cancelled =>
    match s.phase with
    | .collecting =>
      if s.signal = .sent then some { s with phase := .draining (s.clock + drainRetryBudget) }
      else none
    | _ => none
  | .tryRecv =>
    match s.phase, s.queue with
    | .draining _, record :: queue =>
      if s.buffer.length < cfg.maxBatch then
        some { s with buffer := s.buffer ++ [record], queue := queue }
      else none
    | .discarding, record :: queue => some { s with buffer := s.buffer ++ [record], queue := queue }
    | _, _ => none
  | .drainStep =>
    match s.phase with
    | .draining deadline =>
      if s.buffer.length < cfg.maxBatch ∧ s.queue ≠ [] then none
      else if s.buffer.isEmpty then some { s with phase := .leaving }
      else if deadline ≤ s.clock then some { s with phase := .discarding }
      else some (s.flush (some deadline))
    | _ => none
  | .discarded =>
    match s.phase, s.queue with
    | .discarding, [] =>
      some ({ s with buffer := [] }.settle (.abandoned s.buffer)
        (s.stats.recordDrop s.buffer.length "shutdown drain deadline reached" .workerStopped)
          .leaving)
    | _, _ => none
  | .answered result =>
    match s.phase with
    | .sending d _ => some (s.answer cfg masked d result)
    | _ => none
  | .woke =>
    match s.phase with
    | .backingOff d _ wakeAt =>
      if wakeAt ≤ s.clock then some (s.send d)
      else if d.deadline = none ∧
        s.signal = .sent then some (s.send { d with woken := d.woken + 1 })
      else none
    | _ => none
  | .closed =>
    match s.phase with
    | .leaving => some s.dropped
    | _ => none
  | .abort =>
    -- a task is dropped where it awaits
    match s.phase with
    | .collecting => some s.dropped
    | .sending _ _ => some s.dropped
    | .backingOff _ _ _ => some s.dropped
    | _ => none

def step (cfg : PipelineConfig) (masked : SinkError → String) (s : Pipeline R) (l : Label R) :
    Option (Pipeline R) :=
  if l.now < s.clock then none else { s with clock := l.now }.act cfg masked l.event

variable {cfg : PipelineConfig} {masked : SinkError → String} {s s' : Pipeline R}
    {P : Pipeline R → Prop}

theorem act_cases {e : Event R} (hact : s.act cfg masked e = some s')
    (enqueue : ∀ record, P (s.tryEnqueue cfg record)) (countQueued : P s.countQueuedAsDropped)
    (handlesDropped : P { s with orphaned := true })
    (signal : ∀ signal, s.signal = .watching → P { s with signal := signal })
    (hangUp : ∀ d delay wakeAt, s.phase = .backingOff d delay wakeAt → s.signal = .watching →
      P { s with signal := .hungUp, phase := .backingOff d delay (s.clock + delay) })
    (recv : ∀ record queue, s.phase = .collecting → s.queue = record :: queue →
      P (if cfg.maxBatch ≤ (s.buffer ++ [record]).length then
          { s with buffer := s.buffer ++ [record], queue := queue }.flush none
        else { s with buffer := s.buffer ++ [record], queue := queue }))
    (tick : s.phase = .collecting → P (s.flush none))
    (startDrain : ∀ deadline, s.phase = .collecting → P { s with phase := .draining deadline })
    (tryRecv : ∀ record queue, s.queue = record :: queue →
      (∃ deadline, s.phase = .draining deadline) ∧ s.buffer.length < cfg.maxBatch ∨
        s.phase = .discarding →
      P { s with buffer := s.buffer ++ [record], queue := queue })
    (drained : ∀ deadline, s.phase = .draining deadline → s.buffer = [] →
      P { s with phase := .leaving })
    (overdue : ∀ deadline, s.phase = .draining deadline → deadline ≤ s.clock →
      P { s with phase := .discarding })
    (flush : ∀ deadline, s.phase = .draining deadline → s.clock < deadline → s.buffer ≠ [] →
      P (s.flush (some deadline)))
    (discarded : s.phase = .discarding → s.queue = [] →
      P ({ s with buffer := [] }.settle (.abandoned s.buffer)
        (s.stats.recordDrop s.buffer.length "shutdown drain deadline reached" .workerStopped)
          .leaving))
    (answered : ∀ d since result, s.phase = .sending d since → P (s.answer cfg masked d result))
    (woke : ∀ d delay wakeAt, s.phase = .backingOff d delay wakeAt →
      wakeAt ≤ s.clock → P (s.send d))
    (wokeEarly : ∀ d delay wakeAt, s.phase = .backingOff d delay wakeAt → d.deadline = none →
      s.signal = .sent → P (s.send { d with woken := d.woken + 1 }))
    (dropped : s.phase ≠ .gone → P s.dropped) : P s' := by
  cases e with
  | enqueue record =>
    simp only [act, Option.ite_none_left_eq_some, Option.some.injEq] at hact
    exact hact.2 ▸ enqueue record
  | countQueued =>
    simp only [act, Option.ite_none_left_eq_some, Option.some.injEq] at hact
    exact hact.2 ▸ countQueued
  | handlesDropped => exact Option.some.inj hact ▸ handlesDropped
  | cancel =>
    simp only [act, Option.ite_none_right_eq_some, Option.some.injEq] at hact
    exact hact.2 ▸ signal .sent hact.1
  | hangUp =>
    simp only [act, Option.ite_none_right_eq_some] at hact
    obtain ⟨hwatching, hact⟩ := hact
    split at hact
    · next d delay wakeAt hphase =>
      split at hact
      · exact Option.some.inj hact ▸ hangUp d delay wakeAt hphase hwatching
      · exact Option.some.inj hact ▸ signal .hungUp hwatching
    · exact Option.some.inj hact ▸ signal .hungUp hwatching
  | recv =>
    simp only [act] at hact
    split at hact
    · next record queue hphase hqueue =>
      exact Option.some.inj hact ▸ recv record queue hphase hqueue
    · cases hact
  | tick =>
    simp only [act] at hact
    split at hact
    · next hphase => exact Option.some.inj hact ▸ tick hphase
    · cases hact
  | channelClosed =>
    simp only [act] at hact
    split at hact
    · next hphase hqueue =>
      simp only [Option.ite_none_right_eq_some, Option.some.injEq] at hact
      exact hact.2 ▸ startDrain _ hphase
    · cases hact
  | cancelled =>
    simp only [act] at hact
    split at hact
    · next hphase =>
      simp only [Option.ite_none_right_eq_some, Option.some.injEq] at hact
      exact hact.2 ▸ startDrain _ hphase
    · cases hact
  | tryRecv =>
    simp only [act] at hact
    split at hact
    · next deadline record queue hphase hqueue =>
      simp only [Option.ite_none_right_eq_some, Option.some.injEq] at hact
      exact hact.2 ▸ tryRecv record queue hqueue (.inl ⟨⟨deadline, hphase⟩, hact.1⟩)
    · next record queue hphase hqueue =>
        exact Option.some.inj hact ▸ tryRecv record queue hqueue (.inr hphase)
    · cases hact
  | drainStep =>
    simp only [act] at hact
    split at hact
    · next deadline hphase =>
      simp only [Option.ite_none_left_eq_some] at hact
      obtain ⟨-, hact⟩ := hact
      split at hact
      · next hnil => exact Option.some.inj hact ▸ drained deadline hphase (by simpa using hnil)
      · next hne =>
        split at hact
        · next hdue => exact Option.some.inj hact ▸ overdue deadline hphase hdue
        · next hopen =>
            exact Option.some.inj hact ▸ flush deadline hphase (by omega) (by simpa using hne)
    · cases hact
  | discarded =>
    simp only [act] at hact
    split at hact
    · next hphase hqueue => exact Option.some.inj hact ▸ discarded hphase hqueue
    · cases hact
  | answered result =>
    simp only [act] at hact
    split at hact
    · next d since hphase => exact Option.some.inj hact ▸ answered d since result hphase
    · cases hact
  | woke =>
    simp only [act] at hact
    split at hact
    · next d delay wakeAt hphase =>
      split at hact
      · next hdue => exact Option.some.inj hact ▸ woke d delay wakeAt hphase hdue
      · simp only [Option.ite_none_right_eq_some, Option.some.injEq] at hact
        exact hact.2 ▸ wokeEarly d delay wakeAt hphase hact.1.1 hact.1.2
    · cases hact
  | closed =>
    simp only [act] at hact
    split at hact
    · next hphase => exact Option.some.inj hact ▸ dropped (by simp [hphase])
    · cases hact
  | abort =>
    simp only [act] at hact
    split at hact
    · next hphase => exact Option.some.inj hact ▸ dropped (by simp [hphase])
    · next hphase => exact Option.some.inj hact ▸ dropped (by simp [hphase])
    · next hphase => exact Option.some.inj hact ▸ dropped (by simp [hphase])
    · cases hact

end Pipeline
end Sink
end Aisix
