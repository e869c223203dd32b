import Aisix.Sink.Accounts

/-!
# Aisix.Sink.Retry

How often a sink pipeline tries a batch, after any run of it.

* `Paced`     — two attempts of one batch are a `base_backoff` apart, unless the shutdown signal
  came between them, until its budget or its deadline is spent.
* `run_paced` — so only a transient failure is retried, a batch is retried a bounded number of
  times, and a drain calls its sink at most once past its deadline.
-/

namespace Aisix
namespace Sink

variable {R : Type*} {cfg : PipelineConfig} {masked : SinkError → String}

theorem le_backoff {base cap : Nat} (h : base ≤ cap) (attempt : Nat) :
    base ≤ backoff base cap attempt := by
  have hfactor : 1 ≤ min (2 ^ (attempt - 1)) (2 ^ 32 - 1) := by
    have := Nat.one_le_two_pow (n := attempt - 1)
    omega
  have hmul : base ≤ base * min (2 ^ (attempt - 1)) (2 ^ 32 - 1) :=
    Nat.le_mul_of_pos_right base hfactor
  simp only [backoff]
  split <;> omega

/-- The batch is out of time at `t`. -/
def Ended (cfg : PipelineConfig) (started : Nat) (deadline : Option Nat) (t : Nat) : Prop :=
  started + cfg.retryBudget ≤ t ∨ ∃ dl, deadline = some dl ∧ dl ≤ t

theorem Ended.mono {started t t' : Nat} {deadline : Option Nat} (h : Ended cfg started deadline t)
    (ht : t ≤ t') :
    Ended cfg started deadline t' := by
  rcases h with hbudget | ⟨dl, hdl, hle⟩
  · exact .inl (by omega)
  · exact .inr ⟨dl, hdl, by omega⟩

theorem le_pause (cfg : PipelineConfig) (err : SinkError) (attempt : Nat) :
    cfg.baseBackoff ≤ pause cfg err attempt := by
  unfold pause
  split
  · exact Nat.le_max_left _ _
  · exact le_backoff cfg.backoff_le _

theorem remaining_eq_zero {started now : Nat} {deadline : Option Nat} (hstarted : started ≤ now)
    (h : Ended cfg started deadline now) : remaining cfg started deadline now = 0 := by
  unfold remaining
  rcases h with hbudget | ⟨dl, rfl, hdl⟩
  · split <;> omega
  · simp only []
    omega

theorem ended_remaining {started now : Nat} {deadline : Option Nat} (hstarted : started ≤ now)
    (hbudget : now - started ≤ cfg.retryBudget) (hleft : remaining cfg started deadline now ≠ 0) :
    Ended cfg started deadline (now + remaining cfg started deadline now) := by
  unfold remaining at hleft ⊢
  cases deadline with
  | none => exact .inl (by simp only []; omega)
  | some dl =>
    by_cases hdl : cfg.retryBudget - (now - started) ≤ dl - now
    · exact .inl (by simp only [Nat.min_eq_left hdl]; omega)
    · exact .inr ⟨dl, rfl, by simp only [] at hleft ⊢; omega⟩

/-- What a delay says: the failure is transient, the batch is not out of time, and the wait is a
`base_backoff` at least or lasts until it is. -/
theorem nextDelay_some {err : SinkError} {attempt started now delay : Nat} {deadline : Option Nat}
    (hstarted : started ≤ now) (h : nextDelay cfg err attempt started deadline now = some delay) :
    err.isTransient = true ∧ ¬ Ended cfg started deadline now ∧
      (cfg.baseBackoff ≤ delay ∨ Ended cfg started deadline (now + delay)) := by
  simp only [nextDelay, Option.ite_none_left_eq_some, Option.some.injEq] at h
  obtain ⟨htransient, hspent, hleft, rfl⟩ := h
  refine ⟨by simpa using htransient, fun hended => hleft (remaining_eq_zero hstarted hended), ?_⟩
  by_cases hlong : cfg.baseBackoff ≤ remaining cfg started deadline now
  · exact .inl (Nat.le_min.2 ⟨le_pause cfg err attempt, hlong⟩)
  · right
    rw [Nat.min_eq_right (by have := le_pause cfg err attempt; omega)]
    exact ended_remaining hstarted (by omega) hleft

/-- The failures of a batch that it was retried after. -/
def Outcome.retried : Outcome R → List SinkError
  | givenUp _ failures => failures.dropLast
  | o => o.failures

/-- A batch is retried after transient failures only. The last but one of them, if the shutdown
signal cut no wait short, came within the budget with a `base_backoff` in front of each. -/
structure Moderate (cfg : PipelineConfig) (retried : List SinkError) : Prop where
  transient : ∀ e ∈ retried, e.isTransient = true
  few : retried ≠ [] → (retried.length - 2) * cfg.baseBackoff < cfg.retryBudget

/-- One delivery, in any state of its worker. -/
structure Delivery.Sane (cfg : PipelineConfig) (d : Delivery R) : Prop where
  transient : ∀ e ∈ d.failures, e.isTransient = true
  woken_le : d.woken ≤ 1
  few : d.failures ≠ [] → (d.attempt - 1 - d.woken) * cfg.baseBackoff < cfg.retryBudget
  drain : ∀ dl, d.drain = some dl → d.deadline = some dl

theorem Delivery.Sane.moderate {d : Delivery R} (h : d.Sane cfg) : Moderate cfg d.failures where
  transient := h.transient
  few hne := by
    have hwoken := h.woken_le
    have hle : d.failures.length - 2 ≤ d.attempt - 1 - d.woken := by
      simp only [Delivery.attempt]
      omega
    exact lt_of_le_of_lt (Nat.mul_le_mul_right _ hle) (h.few hne)

namespace Pipeline

/-- How far apart the attempts of the batch in flight are, and how many of the drain's calls came
past its deadline. -/
def Paced (cfg : PipelineConfig) (s : Pipeline R) : Phase R → Prop
  | .collecting => s.late = 0
  | .draining dl => s.late = 0 ∨ s.late = 1 ∧ dl ≤ s.clock
  | .sending d since =>
    d.Sane cfg ∧ d.started ≤ since ∧ since ≤ s.clock ∧
      (d.started + (d.attempt - d.woken) * cfg.baseBackoff ≤ since ∨
        Ended cfg d.started d.deadline since) ∧
      (d.woken ≠ 0 → s.signal = .sent) ∧
      (s.late = 0 ∨ s.late = 1 ∧ ∃ dl, d.drain = some dl ∧ dl ≤ since)
  | .backingOff d delay wakeAt =>
    d.Sane cfg ∧ 0 < d.attempt ∧ d.started ≤ s.clock ∧ wakeAt ≤ s.clock + delay ∧
      (d.started + (d.attempt - d.woken) * cfg.baseBackoff ≤ wakeAt ∨
        Ended cfg d.started d.deadline wakeAt) ∧
      d.started + (d.attempt - 1 - d.woken) * cfg.baseBackoff ≤ s.clock ∧
      (d.deadline = none → d.woken = 0) ∧ (d.woken ≠ 0 → s.signal = .sent) ∧ s.late = 0
  | _ => s.late ≤ 1

structure Disciplined (cfg : PipelineConfig) (s : Pipeline R) : Prop where
  paced : s.Paced cfg s.phase
  settled : ∀ o ∈ s.settled, Moderate cfg o.retried

variable {s s' : Pipeline R}

theorem disciplined_init (cfg : PipelineConfig) (now : Nat) :
    (init now : Pipeline R).Disciplined cfg where
  paced := rfl
  settled := fun _ ho => absurd ho List.not_mem_nil

/-- `Paced` reads the clock, the signal and the late calls; it stays as the clock goes on. -/
theorem Paced.mono {phase : Phase R} (h : s.Paced cfg phase) (hclock : s.clock ≤ s'.clock)
    (hlate : s'.late = s.late)
    (hsignal : s.signal = .sent → s'.signal = .sent) : s'.Paced cfg phase := by
  cases phase with
  | collecting => exact hlate.trans h
  | draining dl => exact h.imp hlate.trans fun ⟨hone, hdl⟩ => ⟨hlate.trans hone, hdl.trans hclock⟩
  | sending d since =>
    obtain ⟨hsane, hstarted, hsince, hspaced, hwoken, hlate'⟩ := h
    exact ⟨hsane, hstarted, hsince.trans hclock, hspaced,
      fun hw => hsignal (hwoken hw), by rwa [hlate]⟩
  | backingOff d delay wakeAt =>
    obtain ⟨hsane, hpos, hstarted, hwake, hspaced, hspent, hwoken, hsent, hlate'⟩ := h
    exact ⟨hsane,
      hpos, by omega, by omega, hspaced, by omega, hwoken, fun hw => hsignal (hsent hw), by omega⟩
  | discarding | leaving | gone => exact hlate.trans_le h

theorem Paced.late_le {phase : Phase R} (h : s.Paced cfg phase) : s.late ≤ 1 := by
  cases phase with
  | collecting => exact le_of_eq_of_le h (Nat.zero_le 1)
  | draining dl => rcases h with h | ⟨h, -⟩ <;> omega
  | sending d since => rcases h.2.2.2.2.2 with h | ⟨h, -⟩ <;> omega
  | backingOff d delay wakeAt => have := h.2.2.2.2.2.2.2.2; omega
  | discarding | leaving | gone => exact h

theorem Disciplined.of_eq (h : s.Disciplined cfg) (hclock : s.clock ≤ s'.clock)
    (hphase : s'.phase = s.phase) (hlate : s'.late = s.late) (hsettled : s'.settled = s.settled)
    (hsignal : s.signal = .sent → s'.signal = .sent) :
    s'.Disciplined cfg where
  paced := by
    rw [hphase]
    exact h.paced.mono hclock hlate hsignal
  settled := by
    rw [hsettled]
    exact h.settled

theorem late_send (d : Delivery R) (hlate : s.late = 0) :
    (s.send d).late = 0 ∨ (s.send d).late = 1 ∧ ∃ dl, d.drain = some dl ∧ dl ≤ s.clock := by
  simp only [send]
  split
  · next hany => exact .inr ⟨by omega, by simpa [Option.any_eq_true] using hany⟩
  · exact .inl hlate

theorem Disciplined.flush (h : s.Disciplined cfg) (drain : Option Nat) (hlate : s.late = 0)
    (hne : s.buffer ≠ []) :
    (s.flush drain).Disciplined cfg := by
  have hbuffer : s.buffer.isEmpty = false := by simpa using hne
  simp only [Pipeline.flush, hbuffer, Bool.false_eq_true, if_false]
  refine ⟨⟨⟨by simp, Nat.zero_le 1, by simp, fun _ hdl => hdl⟩, le_refl _, le_refl _, .inl ?_,
    fun hw => absurd rfl hw, late_send (s := { s with buffer := [] }) _ hlate⟩, h.settled⟩
  simp [Delivery.attempt]

theorem Disciplined.wake (h : s.Disciplined cfg) {d : Delivery R} {delay wakeAt : Nat}
    (hphase : s.phase = .backingOff d delay wakeAt) (hdue : wakeAt ≤ s.clock) :
    (s.send d).Disciplined cfg := by
  obtain ⟨hsane, hpos, hstarted, -, hspaced, -, -, hsent, hlate⟩ :
      s.Paced cfg (.backingOff d delay wakeAt) :=
    hphase ▸ h.paced
  exact ⟨⟨hsane, hstarted, le_refl _, hspaced.imp hdue.trans' (Ended.mono · hdue), hsent,
    late_send d hlate⟩, h.settled⟩

theorem Disciplined.wakeEarly (h : s.Disciplined cfg) {d : Delivery R} {delay wakeAt : Nat}
    (hphase : s.phase = .backingOff d delay wakeAt) (hdeadline : d.deadline = none)
    (hsignal : s.signal = .sent) :
    (s.send { d with woken := d.woken + 1 }).Disciplined cfg := by
  obtain ⟨hsane, hpos, hstarted, -, -, hspent, hwoken, -, hlate⟩ :
      s.Paced cfg (.backingOff d delay wakeAt) :=
    hphase ▸ h.paced
  have hzero := hwoken hdeadline
  have hattempt : ({ d with woken := d.woken + 1 } : Delivery R).attempt = d.attempt := rfl
  refine ⟨⟨⟨hsane.transient, ?_, ?_, hsane.drain⟩, hstarted, le_refl _, .inl ?_, fun _ => hsignal,
    late_send _ hlate⟩, h.settled⟩
  · simp [hzero]
  · intro hne
    rw [hattempt]
    refine lt_of_le_of_lt (Nat.mul_le_mul_right _ ?_) (hsane.few hne)
    show d.attempt - 1 - (d.woken + 1) ≤ d.attempt - 1 - d.woken
    omega
  · rw [hattempt]
    show d.started + (d.attempt - (d.woken + 1)) * cfg.baseBackoff ≤ s.clock
    rwa [Nat.sub_add_eq, Nat.sub_right_comm]

/-- The deadline a failure is judged by: the shutdown signal starts the drain's budget, once. -/
theorem Disciplined.retry (h : s.Disciplined cfg) {d : Delivery R} {since delay : Nat}
    {err : SinkError} {deadline : Option Nat} (hphase : s.phase = .sending d since)
    (hdeadline : deadline = if d.deadline = none ∧
      s.signal = .sent then some (s.clock + drainRetryBudget) else d.deadline)
    (hdelay : nextDelay cfg err d.attempt d.started deadline s.clock = some delay)
    (stats : SinkStats) :
    Disciplined cfg { s with
      stats := stats
      phase :=
        .backingOff { d with deadline := deadline, failures := d.failures ++ [err] } delay
          (s.clock + delay) } := by
  obtain ⟨hsane, hstarted, hsince, hspaced, hwoken, hlate⟩ : s.Paced cfg (.sending d since) :=
    hphase ▸ h.paced
  obtain ⟨htransient, hopen, hwait⟩ := nextDelay_some (hstarted.trans hsince) hdelay
  have hkept : ∀ dl, d.deadline = some dl → deadline = some dl := by
    intro dl hdl
    simp [hdeadline, hdl]
  -- an attempt begun out of time would have been the last
  have hopen' : ¬ Ended cfg d.started d.deadline since := by
    rintro (hbudget | ⟨dl, hdl, hle⟩)
    · exact hopen (.inl (by omega))
    · exact hopen (.inr ⟨dl, hkept dl hdl, by omega⟩)
  have hspaced := hspaced.resolve_right hopen'
  have hbudget : s.clock < d.started + cfg.retryBudget := by
    by_contra hge
    exact hopen (.inl (by omega))
  have hattempt :
      ({ d with deadline := deadline, failures := d.failures ++ [err] } : Delivery R).attempt =
      d.attempt + 1 := by
    simp [Delivery.attempt]
  refine ⟨⟨⟨?_, hsane.woken_le, fun _ => ?_, fun dl hdl => hkept dl (hsane.drain dl hdl)⟩, ?_,
    hstarted.trans hsince, le_refl _, ?_, ?_, ?_, hwoken, ?_⟩, h.settled⟩
  · exact List.forall_mem_append.2 ⟨hsane.transient, List.forall_mem_singleton.2 htransient⟩
  · rw [hattempt]
    show (d.attempt + 1 - 1 - d.woken) * _ < _
    rw [Nat.add_sub_cancel]
    omega
  · rw [hattempt]
    exact Nat.succ_pos _
  · rw [hattempt]
    refine hwait.imp_left fun hbase => ?_
    show d.started + (d.attempt + 1 - d.woken) * cfg.baseBackoff ≤ s.clock + delay
    have hle : (d.attempt + 1 - d.woken) * cfg.baseBackoff ≤ (d.attempt - d.woken) *
        cfg.baseBackoff + cfg.baseBackoff := by
      rw [← Nat.succ_mul]
      exact Nat.mul_le_mul_right _ (by omega)
    omega
  · rw [hattempt]
    show d.started + (d.attempt + 1 - 1 - d.woken) * cfg.baseBackoff ≤ s.clock
    rw [Nat.add_sub_cancel]
    omega
  · intro hnone
    by_contra hw
    have hsent := hwoken hw
    cases hd : d.deadline <;> simp [hdeadline, hd, hsent] at hnone
  · rcases hlate with hlate | ⟨-, dl, hdrain, hdl⟩
    · exact hlate
    · exact absurd (.inr ⟨dl, hsane.drain dl hdrain, hdl⟩) hopen'

theorem Disciplined.settle (h : s.Disciplined cfg) {d : Delivery R} {since : Nat}
    (hphase : s.phase = .sending d since) {o : Outcome R} (ho : o.retried = d.failures)
    (stats : SinkStats) :
    (s.settle o stats (afterDelivery d.drain)).Disciplined cfg := by
  obtain ⟨hsane, -, hsince, -, -, hlate⟩ : s.Paced cfg (.sending d since) := hphase ▸ h.paced
  refine ⟨?_,
    List.forall_mem_append.2 ⟨h.settled, List.forall_mem_singleton.2 (ho ▸ hsane.moderate)⟩⟩
  show Paced cfg _ (afterDelivery d.drain)
  cases hdrain : d.drain with
  | none =>
    rcases hlate with hlate | ⟨-, dl, hdl, -⟩
    · exact hlate
    · simp [hdrain] at hdl
  | some dl =>
    refine hlate.imp id fun ⟨hone, dl', hdl, hle⟩ => ⟨hone, ?_⟩
    obtain rfl : dl = dl' := by simpa [hdrain] using hdl
    exact hle.trans hsince

theorem Disciplined.answer (h : s.Disciplined cfg) {d : Delivery R} {since : Nat}
    (hphase : s.phase = .sending d since) (masked : SinkError → String)
    (result : Except SinkError Nat) :
    (s.answer cfg masked d result).Disciplined cfg := by
  cases result with
  | ok accepted => exact h.settle hphase rfl _
  | error err =>
    simp only [Pipeline.answer]
    split
    · next delay hdelay => exact h.retry hphase rfl hdelay _
    · exact h.settle hphase (by simp [Outcome.retried]) _

theorem Disciplined.discarded (h : s.Disciplined cfg) (stats : SinkStats) :
    Disciplined cfg ({ s with buffer := [] }.settle (.abandoned s.buffer) stats .leaving) where
  paced := h.paced.late_le
  settled := List.forall_mem_append.2
    ⟨h.settled, List.forall_mem_singleton.2 ⟨fun _ he => absurd he List.not_mem_nil,
      fun hne => absurd rfl hne⟩⟩

theorem Disciplined.dropped (h : s.Disciplined cfg) : s.dropped.Disciplined cfg where
  paced := h.paced.late_le
  settled := by
    refine List.forall_mem_append.2 ⟨h.settled, fun o ho => ?_⟩
    have hpaced := h.paced
    cases hphase : s.phase <;> simp [tornDown, hphase] at ho
    · subst ho
      exact (hphase ▸ hpaced : s.Paced cfg (.sending _ _)).1.moderate
    · subst ho
      exact (hphase ▸ hpaced : s.Paced cfg (.backingOff _ _ _)).1.moderate

theorem Disciplined.hangUp (h : s.Disciplined cfg) {d : Delivery R} {delay wakeAt : Nat}
    (hphase : s.phase = .backingOff d delay wakeAt) (hwatching : s.signal = .watching) :
    Disciplined cfg
      { s with signal := .hungUp, phase := .backingOff d delay (s.clock + delay) } := by
  obtain ⟨hsane, hpos, hstarted, hwake, hspaced, hspent, hwoken, hsent, hlate⟩ :
      s.Paced cfg (.backingOff d delay wakeAt) :=
    hphase ▸ h.paced
  refine ⟨⟨hsane, hpos, hstarted, le_refl _, ?_, hspent, hwoken, fun hw => ?_, hlate⟩, h.settled⟩
  · exact hspaced.imp (le_trans · hwake) (Ended.mono · hwake)
  · simp [hwatching] at hsent
    exact absurd hsent hw

theorem Disciplined.act (h : s.Disciplined cfg) {e : Event R}
    (hact : s.act cfg masked e = some s') :
    s'.Disciplined cfg := by
  have hlate := h.paced.late_le
  have hcollecting : s.phase = .collecting → s.late = 0 :=
    fun hphase => (hphase ▸ h.paced : s.Paced cfg .collecting)
  have hopen : ∀ deadline, s.phase = .draining deadline → s.clock < deadline → s.late = 0 := by
    intro deadline hphase hlt
    have hpaced : s.Paced cfg (.draining deadline) := hphase ▸ h.paced
    exact hpaced.resolve_right fun ⟨_, hle⟩ => by omega
  have hflush : s.phase = .collecting → (s.flush none).Disciplined cfg := by
    intro hphase
    by_cases hne : s.buffer = []
    · simpa [Pipeline.flush, hne] using h
    · exact h.flush none (hcollecting hphase) hne
  refine act_cases hact ?enqueue ?countQueued ?handlesDropped ?signal ?hangUp ?recv hflush
    ?startDrain ?tryRecv ?drained ?overdue ?flush ?discarded ?answered ?woke ?wokeEarly
    fun _ => h.dropped
  case enqueue =>
    intro record
    unfold Pipeline.tryEnqueue
    repeat' split
    all_goals exact h.of_eq (le_refl _) rfl rfl rfl id
  case countQueued =>
    unfold Pipeline.countQueuedAsDropped
    split
    · exact h
    · exact h.of_eq (le_refl _) rfl rfl rfl id
  case handlesDropped => exact h.of_eq (le_refl _) rfl rfl rfl id
  case signal =>
    intro signal hwatching
    exact h.of_eq (le_refl _) rfl rfl rfl fun hsent => absurd
      (hwatching.symm.trans hsent) (by decide)
  case hangUp => exact fun d delay wakeAt hphase hwatching => h.hangUp hphase hwatching
  case recv =>
    intro record queue hphase hqueue
    have hpop : Disciplined cfg { s with buffer := s.buffer ++ [record], queue := queue } :=
      h.of_eq (le_refl _) rfl rfl rfl id
    split
    · exact hpop.flush none (hcollecting hphase) (by simp)
    · exact hpop
  case startDrain => exact fun deadline hphase => ⟨.inl (hcollecting hphase), h.settled⟩
  case tryRecv => exact fun record queue _ _ => h.of_eq (le_refl _) rfl rfl rfl id
  case drained => exact fun _ _ _ => ⟨hlate, h.settled⟩
  case overdue => exact fun _ _ _ => ⟨hlate, h.settled⟩
  case flush => exact fun deadline hphase hlt hne => h.flush _ (hopen deadline hphase hlt) hne
  case discarded => exact fun _ _ => h.discarded _
  case answered => exact fun d since result hphase => h.answer hphase masked result
  case woke => exact fun d delay wakeAt hphase hdue => h.wake hphase hdue
  case wokeEarly =>
    exact fun d delay wakeAt hphase hdeadline hsent => h.wakeEarly hphase hdeadline hsent

theorem Disciplined.step (h : s.Disciplined cfg) {l : Label R}
    (hstep : s.step cfg masked l = some s') :
    s'.Disciplined cfg := by
  simp only [Pipeline.step, Option.ite_none_left_eq_some] at hstep
  obtain ⟨hclock, hact⟩ := hstep
  have hlater : Disciplined cfg { s with clock := l.now } :=
    h.of_eq (Nat.le_of_not_lt hclock) rfl rfl rfl id
  exact hlater.act hact

/-- In every state a pipeline reaches: each batch it settled was retried after transient failures
only, and no more often than the retry budget has room for `base_backoff`s; and its drain called the
sink at most once past its deadline. -/
theorem run_disciplined (cfg : PipelineConfig) (masked : SinkError → String) {now : Nat}
    {ls : List (Label R)}
    {s : Pipeline R} (hrun : Lts.run (step cfg masked) (init now) ls = some s) :
    (∀ o ∈ s.settled, Moderate cfg o.retried) ∧ s.late ≤ 1 := by
  have h : s.Disciplined cfg :=
    Lts.run_invariant (fun _ _ _ h hstep => h.step hstep) (disciplined_init cfg now) hrun
  exact ⟨h.settled, h.paced.late_le⟩

/-- A batch throttled, then woken by the shutdown signal, then refused past the drain's deadline. -/
def drainRun : List (Label Nat) :=
  [⟨0, .enqueue 1⟩, ⟨0, .recv⟩, ⟨0, .cancel⟩, ⟨0, .cancelled⟩, ⟨0, .drainStep⟩,
    ⟨1, .answered (.error (.throttled 0 "429"))⟩, ⟨4000000000, .woke⟩,
    ⟨4000000001, .answered (.error (.transient "timeout"))⟩, ⟨4000000001, .drainStep⟩]

theorem run_disciplined_drain :
    ∃ s : Pipeline Nat, Lts.run (step shortConfig fun _ => "") (init 0) drainRun = some s ∧
      s.late = 1 ∧ (∀ o ∈ s.settled, Moderate shortConfig o.retried) ∧ s.late ≤ 1 := by
  obtain ⟨s, hrun, hlate⟩ : ∃ s : Pipeline Nat,
      Lts.run (step shortConfig fun _ => "") (init 0) drainRun = some s ∧ s.late = 1 :=
        ⟨_, rfl, rfl⟩
  exact ⟨s, hrun, hlate, run_disciplined shortConfig _ hrun⟩

end Pipeline

end Sink
end Aisix
