import Aisix.RateLimit.Meter

/-!
# Aisix.RateLimit.Reservation

The layers a request has reserved, and the ways it finishes them on the local store: `commit`,
`commit` whose future is dropped at one of its await points, and the hand-off to a stream, which
charges the token layers and the spend layers by key and releases the members when its guard drops.

* `reading_foldl`, `mem_inFlight_foldl` — a sequence of operations, each of which charges an amount
  to a meter and takes members out.
* `finish_agree` — unary and streamed accounting agree, and a dropped commit charges a first part of
  the layers once and releases all of them.
-/

namespace Aisix
namespace RateLimit

/-- What a layer's counter counts. -/
inductive CounterUnit where
  | tokens
  | microUsd
  deriving DecidableEq

structure Reservation where
  key : String
  member : String
  committed : Bool
  unit : CounterUnit

namespace Reservation

/-- Token layers record the tokens, spend layers the micro-USD. -/
def amountFor (r : Reservation) (tokens spendMicroUsd : Nat) : Nat :=
  match r.unit with
  | .tokens => tokens
  | .microUsd => spendMicroUsd

/-- `Drop`: a reservation that was not committed gives its slot back. -/
def drop (now : Nat) (r : Reservation) (st : LocalStore) : LocalStore :=
  if r.committed then st else st.release now r.key r.member

def commitTokens (now : Nat) (r : Reservation) (tokens : Nat) (st : LocalStore) : LocalStore :=
  let st := st.commit now r.key tokens r.member
  let r := { r with committed := true }
  r.drop now st

end Reservation

/-- The layers of one request. Only finishing them sets `committed`, and that consumes them. -/
structure MultiReservation where
  reservations : List Reservation
  live : ∀ r ∈ reservations, r.committed = false

structure StreamConcurrencyGuard where
  holds : List (String × String)
  released : Bool

namespace LocalStore

/-- The default `add_tokens_all`. -/
def addTokensAll (now : Nat) (keys : List String) (tokens : Nat) (st : LocalStore) : LocalStore :=
  keys.foldl (fun st key => st.addTokens now key tokens) st

/-- `Limiter::add_tokens_post_stream_all`. -/
def addTokensPostStreamAll (now : Nat) (keys : List String) (tokens : Nat) (st : LocalStore) :
    LocalStore :=
  if tokens = 0 ∨ keys = [] then st else st.addTokensAll now keys tokens

end LocalStore

namespace StreamConcurrencyGuard

def releaseNow (now : Nat) (hold : StreamConcurrencyGuard) (st : LocalStore) : LocalStore :=
  if hold.released then st
  else hold.holds.foldl (fun st (key, member) => st.release now key member) st

end StreamConcurrencyGuard

namespace MultiReservation

def commit (now tokens spendMicroUsd : Nat) (m : MultiReservation) (st : LocalStore) : LocalStore :=
  m.reservations.foldl (fun st r => r.commitTokens now (r.amountFor tokens spendMicroUsd) st) st

def dropAll (now : Nat) (rs : List Reservation) (st : LocalStore) : LocalStore :=
  rs.foldl (fun st r => r.drop now st) st

/-- The store call of the layer at hand, when it has taken effect but has not returned. -/
def applyNext (now tokens spendMicroUsd : Nat) (applied : Bool) (rs : List Reservation)
    (st : LocalStore) : LocalStore :=
  match applied, rs with
  | true, r :: _ => st.commit now r.key (r.amountFor tokens spendMicroUsd) r.member
  | _, _ => st

/-- A `commit` future that is dropped at `dropTime`, after `done` layers; the layer at hand and
those behind it have `committed = false`. -/
def commitUntil (now tokens spendMicroUsd dropTime : Nat) (applied : Bool) :
    (done : Nat) → List Reservation → LocalStore → LocalStore
  | 0, rs, st => dropAll dropTime rs (applyNext now tokens spendMicroUsd applied rs st)
  | _ + 1, [], st => st
  | done + 1, r :: rs, st =>
    commitUntil now tokens spendMicroUsd dropTime applied done rs
      (r.commitTokens now (r.amountFor tokens spendMicroUsd) st)

def keysOfUnit (unit : CounterUnit) (m : MultiReservation) : List String :=
  (m.reservations.filter (·.unit = unit)).map (·.key)

def tokenKeys (m : MultiReservation) : List String := m.keysOfUnit .tokens

def spendKeys (m : MultiReservation) : List String := m.keysOfUnit .microUsd

/-- The guard takes the slots over; the defused layers are dropped without an effect. -/
def intoStreamHold (now : Nat) (m : MultiReservation) (st : LocalStore) :
    StreamConcurrencyGuard × LocalStore :=
  let defused := m.reservations.map fun r => { r with committed := true }
  (⟨defused.map fun r => (r.key, r.member), false⟩, dropAll now defused st)

/-- A stream's end: its usage is recorded, then its guard is dropped. -/
def finishStream (now tokens spendMicroUsd : Nat) (m : MultiReservation) (st : LocalStore) :
    LocalStore :=
  let tokenKeys := m.tokenKeys
  let spendKeys := m.spendKeys
  let (hold, st) := m.intoStreamHold now st
  let st := st.addTokensPostStreamAll now tokenKeys tokens
  let st := st.addTokensPostStreamAll now spendKeys spendMicroUsd
  hold.releaseNow now st

end MultiReservation

section Folds

variable {α : Type*} {now : Nat} {key : String} {apply : LocalStore → α → LocalStore}

/-- Operations that each charge an amount to a meter charge their sum, up to `u64::MAX`. -/
theorem reading_foldl {m : Meter} {amount : α → Nat}
    (happly : ∀ st a, st.reading now key m ≤ u64Max →
      (apply st a).reading now key m = satAdd (st.reading now key m) (amount a)) (ops : List α) :
    ∀ {st : LocalStore}, st.reading now key m ≤ u64Max →
      (ops.foldl apply st).reading now key m = satAdd (st.reading now key m)
      (ops.map amount).sum := by
  induction ops with
  | nil => intro st hcap; exact (satAdd_zero hcap).symm
  | cons a ops ih =>
    intro st hcap
    have hnext : (apply st a).reading now key m ≤ u64Max := by
      rw [happly st a hcap]; exact satAdd_le ..
    rw [List.foldl_cons, ih hnext, happly st a hcap, List.map_cons, List.sum_cons]
    simp only [satAdd]; omega

theorem mem_inFlight_foldl {member : String} {removes : α → Prop}
    (happly : ∀ st a, member ∈ (apply st a).inFlight key ↔ member ∈ st.inFlight key ∧ ¬ removes a)
    (ops : List α) :
    ∀ {st : LocalStore}, member ∈ (ops.foldl apply st).inFlight key ↔
      member ∈ st.inFlight key ∧ ∀ a ∈ ops, ¬ removes a := by
  induction ops with
  | nil => intro st; simp
  | cons a ops ih =>
    intro st
    rw [List.foldl_cons, ih, happly, List.forall_mem_cons, and_assoc]

end Folds

/-- What a layer charges to a key. -/
def Reservation.creditOn (key : String) (tokens spendMicroUsd : Nat) (r : Reservation) : Nat :=
  if r.key = key then r.amountFor tokens spendMicroUsd else 0

/-- Whether a layer holds a member in a key's bucket. -/
def Reservation.Holds (key member : String) (r : Reservation) : Prop :=
  r.key = key ∧ r.member = member

/-- What layers charge to a key when each is charged once. -/
def credited (key : String) (tokens spendMicroUsd : Nat) (rs : List Reservation) : Nat :=
  (rs.map (·.creditOn key tokens spendMicroUsd)).sum

/-- Every counter fits its `u64`. -/
def LocalStore.Sized (st : LocalStore) : Prop :=
  ∀ key, ∀ s ∈ st.states key, (∀ d, (s.tok d).count ≤ u64Max) ∧ s.consumedMicroUsd ≤ u64Max

theorem LocalStore.Sized.reading {st : LocalStore} (h : st.Sized) (now : Nat) (key : String)
    (m : Meter) : st.reading now key m ≤ u64Max := by
  unfold LocalStore.reading LocalStore.stateFor
  cases hs : st.states key with
  | none =>
    cases m with
    | total => exact Nat.zero_le _
    | window d => simp [KeyState.reading, FixedWindowCounter.countAt_new]
  | some s =>
    obtain ⟨hwindows, htotal⟩ := h key s hs
    cases m with
    | total => exact htotal
    | window d => exact (FixedWindowCounter.countAt_le_count ..).trans (hwindows d)

section Layers

variable {now dropTime tokens spendMicroUsd : Nat} {key member : String} {m : Meter}
    {st : LocalStore} {r : Reservation} {rs : List Reservation}

theorem commitTokens_eq : r.commitTokens now tokens st = st.commit now r.key tokens r.member := rfl

theorem drop_of_live (h : r.committed = false) : r.drop now st = st.release now r.key r.member := by
  simp [Reservation.drop, h]

theorem mem_erase_if {k x : String} {members : Finset String} :
    member ∈ (if k = key then members.erase x else members) ↔
      member ∈ members ∧ ¬ (k = key ∧ x = member) := by
  by_cases hk : k = key
  · simp only [hk, if_true, Finset.mem_erase, true_and]
    exact ⟨fun h => ⟨h.2, fun hx => h.1 hx.symm⟩, fun h => ⟨fun hx => h.2 hx.symm, h.1⟩⟩
  · simp [hk]

theorem satAdd_if {a c : Nat} {p : Prop} [Decidable p] (h : c ≤ u64Max) :
    (if p then satAdd c a else c) = satAdd c (if p then a else 0) := by
  split
  · rfl
  · exact (satAdd_zero h).symm

theorem reading_commitTokens (hcap : st.reading now key m ≤ u64Max) :
    (r.commitTokens now (r.amountFor tokens spendMicroUsd) st).reading now key m =
      satAdd (st.reading now key m) (r.creditOn key tokens spendMicroUsd) := by
  rw [commitTokens_eq, LocalStore.reading_commit, satAdd_if hcap]; rfl

theorem mem_inFlight_commitTokens :
    member ∈ (r.commitTokens now tokens st).inFlight key ↔
      member ∈ st.inFlight key ∧ ¬ r.Holds key member := by
  rw [commitTokens_eq, LocalStore.inFlight_commit]; exact mem_erase_if

theorem mem_inFlight_drop (h : r.committed = false) :
    member ∈ (r.drop now st).inFlight key ↔ member ∈ st.inFlight key ∧ ¬ r.Holds key member := by
  rw [drop_of_live h, LocalStore.inFlight_release]; exact mem_erase_if

theorem reading_dropAll :
    (MultiReservation.dropAll dropTime rs st).reading now key m = st.reading now key m := by
  induction rs generalizing st with
  | nil => rfl
  | cons r rs ih =>
    rw [MultiReservation.dropAll, List.foldl_cons]
    refine ih.trans ?_
    unfold Reservation.drop
    split
    · rfl
    · exact LocalStore.reading_release dropTime

theorem mem_inFlight_dropAll (hlive : ∀ r ∈ rs, r.committed = false) :
    member ∈ (MultiReservation.dropAll now rs st).inFlight key ↔
      member ∈ st.inFlight key ∧ ∀ r ∈ rs, ¬ r.Holds key member := by
  induction rs generalizing st with
  | nil => simp [MultiReservation.dropAll]
  | cons r rs ih =>
    obtain ⟨hr, hrs⟩ := List.forall_mem_cons.1 hlive
    rw [MultiReservation.dropAll, List.foldl_cons, ← MultiReservation.dropAll, ih hrs,
      mem_inFlight_drop hr, List.forall_mem_cons, and_assoc]

theorem dropAll_committed (h : ∀ r ∈ rs, r.committed = true) :
    MultiReservation.dropAll now rs st = st := by
  induction rs generalizing st with
  | nil => rfl
  | cons r rs ih =>
    obtain ⟨hr, hrs⟩ := List.forall_mem_cons.1 h
    rw [MultiReservation.dropAll, List.foldl_cons, ← MultiReservation.dropAll, ih hrs,
      Reservation.drop, if_pos hr]

theorem reading_commitAll (hcap : st.reading now key m ≤ u64Max) :
    (rs.foldl (fun st r => r.commitTokens now (r.amountFor tokens spendMicroUsd) st) st).reading now
    key m =
      satAdd (st.reading now key m) (credited key tokens spendMicroUsd rs) := by
  have hstep : ∀ (st : LocalStore) (r : Reservation), st.reading now key m ≤ u64Max →
      (r.commitTokens now (r.amountFor tokens spendMicroUsd) st).reading now key m =
        satAdd (st.reading now key m) (r.creditOn key tokens spendMicroUsd) :=
    fun _ _ h => reading_commitTokens h
  exact reading_foldl hstep rs hcap

/-- A dropped `commit` has charged the layers it finished, each once, and the one that was under
way. -/
theorem reading_commitUntil {applied : Bool} {done : Nat} (hcap : st.reading now key m ≤ u64Max) :
    (MultiReservation.commitUntil now tokens spendMicroUsd dropTime applied done rs st).reading now
    key m =
      satAdd (st.reading now key m)
        (credited key tokens spendMicroUsd (rs.take (done + applied.toNat))) := by
  induction done generalizing rs st with
  | zero =>
    rw [MultiReservation.commitUntil, reading_dropAll]
    cases applied with
    | false => simpa [credited, MultiReservation.applyNext] using (satAdd_zero hcap).symm
    | true =>
      cases rs with
      | nil => simpa [credited, MultiReservation.applyNext] using (satAdd_zero hcap).symm
      | cons r rs =>
        rw [MultiReservation.applyNext, ← commitTokens_eq, reading_commitTokens hcap]
        simp [credited]
  | succ done ih =>
    cases rs with
    | nil => simpa [MultiReservation.commitUntil, credited] using (satAdd_zero hcap).symm
    | cons r rs =>
      have hfirst : (r.commitTokens now (r.amountFor tokens spendMicroUsd) st).reading now key m =
          satAdd (st.reading now key m) (r.creditOn key tokens spendMicroUsd) :=
            reading_commitTokens hcap
      rw [MultiReservation.commitUntil, ih (hfirst.trans_le (satAdd_le ..)), hfirst,
        Nat.add_right_comm, List.take_succ_cons]
      simp only [credited, List.map_cons, List.sum_cons, satAdd]
      omega

theorem mem_inFlight_commitUntil {applied : Bool} {done : Nat}
    (hlive : ∀ r ∈ rs, r.committed = false) :
    member ∈
      (MultiReservation.commitUntil now tokens spendMicroUsd dropTime applied done rs st).inFlight
      key ↔ member ∈ st.inFlight key ∧ ∀ r ∈ rs, ¬ r.Holds key member := by
  induction done generalizing rs st with
  | zero =>
    rw [MultiReservation.commitUntil, mem_inFlight_dropAll hlive]
    cases applied with
    | false => rfl
    | true =>
      cases rs with
      | nil => rfl
      | cons r rs =>
        -- the layer under way is released once more when it is dropped
        rw [MultiReservation.applyNext, ← commitTokens_eq, mem_inFlight_commitTokens]
        exact ⟨fun h => ⟨h.1.1, h.2⟩, fun h => ⟨⟨h.1, (List.forall_mem_cons.1 h.2).1⟩, h.2⟩⟩
  | succ done ih =>
    cases rs with
    | nil => simp [MultiReservation.commitUntil]
    | cons r rs =>
      rw [MultiReservation.commitUntil, ih (List.forall_mem_cons.1 hlive).2,
        mem_inFlight_commitTokens, List.forall_mem_cons, and_assoc]

end Layers

section Streams

variable {now tokens spendMicroUsd : Nat} {key member : String} {m : Meter} {st : LocalStore}

theorem reading_addTokensPostStreamAll {keys : List String} (hcap : st.reading now key m ≤ u64Max) :
    (st.addTokensPostStreamAll now keys tokens).reading now key m =
      satAdd (st.reading now key m) (keys.map fun k => if k = key then tokens else 0).sum := by
  unfold LocalStore.addTokensPostStreamAll
  split
  next hnone =>
    have hzero : (keys.map fun k => if k = key then tokens else 0).sum = 0 := by
      rcases hnone with rfl | rfl
      · simp
      · rfl
    rw [hzero, satAdd_zero hcap]
  next =>
    refine reading_foldl (fun st k hcap => ?_) keys hcap
    rw [LocalStore.reading_addTokens hcap, satAdd_if hcap]

theorem inFlight_addTokensPostStreamAll {keys : List String} :
    (st.addTokensPostStreamAll now keys tokens).inFlight key = st.inFlight key := by
  have hall : ∀ (keys : List String) (st : LocalStore),
      (st.addTokensAll now keys tokens).inFlight key = st.inFlight key := by
    intro keys
    induction keys with
    | nil => intro st; rfl
    | cons k keys ih => intro st; exact (ih _).trans (LocalStore.inFlight_addTokens tokens)
  unfold LocalStore.addTokensPostStreamAll
  split
  · rfl
  · exact hall keys st

/-- The two key lists together charge what the layers charge, each in its own unit. -/
theorem credited_keysOfUnit (mr : MultiReservation) :
    (mr.tokenKeys.map fun k => if k = key then tokens else 0).sum +
      (mr.spendKeys.map fun k => if k = key then spendMicroUsd else 0).sum =
        credited key tokens spendMicroUsd mr.reservations := by
  simp only [MultiReservation.tokenKeys, MultiReservation.spendKeys, MultiReservation.keysOfUnit]
  induction mr.reservations with
  | nil => rfl
  | cons r rs ih =>
    cases hunit : r.unit <;>
      simp only [List.filter_cons, hunit, decide_true, decide_false, if_true, if_false,
        Bool.false_eq_true, reduceCtorEq, List.map_cons, List.sum_cons, credited,
        Reservation.creditOn, Reservation.amountFor] at ih ⊢ <;>
      omega

theorem intoStreamHold_eq (mr : MultiReservation) :
    mr.intoStreamHold now st = (⟨mr.reservations.map fun r => (r.key, r.member), false⟩, st) := by
  have hdefused : ∀ r ∈ mr.reservations.map fun r => { r with committed := true },
    r.committed = true := by
    intro r hr
    obtain ⟨r', -, rfl⟩ := List.mem_map.1 hr
    rfl
  simp only [MultiReservation.intoStreamHold, dropAll_committed hdefused, List.map_map]
  rfl

theorem reading_releaseNow (hold : StreamConcurrencyGuard) :
    (hold.releaseNow now st).reading now key m = st.reading now key m := by
  unfold StreamConcurrencyGuard.releaseNow
  split
  · rfl
  · induction hold.holds generalizing st with
    | nil => rfl
    | cons h hs ih => exact ih.trans (LocalStore.reading_release now)

theorem mem_inFlight_releaseNow {holds : List (String × String)} :
    member ∈ (StreamConcurrencyGuard.releaseNow now ⟨holds, false⟩ st).inFlight key ↔
      member ∈ st.inFlight key ∧ ∀ h ∈ holds, ¬ (h.1 = key ∧ h.2 = member) :=
  mem_inFlight_foldl
    (fun st h => by rw [LocalStore.inFlight_release]; exact mem_erase_if) holds

theorem reading_finishStream (mr : MultiReservation) (hcap : st.reading now key m ≤ u64Max) :
    (mr.finishStream now tokens spendMicroUsd st).reading now key m =
      satAdd (st.reading now key m) (credited key tokens spendMicroUsd mr.reservations) := by
  have htokens :
      (st.addTokensPostStreamAll now mr.tokenKeys tokens).reading now key m ≤ u64Max := by
    rw [reading_addTokensPostStreamAll hcap]; exact satAdd_le ..
  simp only [MultiReservation.finishStream, intoStreamHold_eq]
  rw [reading_releaseNow, reading_addTokensPostStreamAll htokens,
    reading_addTokensPostStreamAll hcap, ← credited_keysOfUnit]
  simp only [satAdd]; omega

theorem mem_inFlight_finishStream (mr : MultiReservation) :
    member ∈ (mr.finishStream now tokens spendMicroUsd st).inFlight key ↔
      member ∈ st.inFlight key ∧ ∀ r ∈ mr.reservations, ¬ r.Holds key member := by
  simp only [MultiReservation.finishStream, intoStreamHold_eq]
  rw [mem_inFlight_releaseNow, inFlight_addTokensPostStreamAll, inFlight_addTokensPostStreamAll,
    List.forall_mem_map]
  rfl

theorem mem_inFlight_commitAll (mr : MultiReservation) :
    member ∈ (mr.commit now tokens spendMicroUsd st).inFlight key ↔
      member ∈ st.inFlight key ∧ ∀ r ∈ mr.reservations, ¬ r.Holds key member := by
  have hstep : ∀ (st : LocalStore) (r : Reservation),
      member ∈ (r.commitTokens now (r.amountFor tokens spendMicroUsd) st).inFlight key ↔
        member ∈ st.inFlight key ∧ ¬ r.Holds key member := fun _ _ => mem_inFlight_commitTokens
  exact mem_inFlight_foldl hstep mr.reservations

end Streams

theorem notAhead_foldl {α : Type*} {now : Nat} {apply : LocalStore → α → LocalStore}
    (happly : ∀ st a, st.NotAhead now → (apply st a).NotAhead now) (ops : List α) :
    ∀ {st : LocalStore}, st.NotAhead now → (ops.foldl apply st).NotAhead now := by
  induction ops with
  | nil => intro st h; exact h
  | cons a ops ih => intro st h; exact ih (happly st a h)

theorem notAhead_commit {now tokens spendMicroUsd : Nat} {st : LocalStore} (mr : MultiReservation)
    (h : st.NotAhead now) : (mr.commit now tokens spendMicroUsd st).NotAhead now :=
  notAhead_foldl (fun _ r h => h.commit (r.amountFor tokens spendMicroUsd)) mr.reservations h

theorem notAhead_addTokensPostStreamAll {now tokens : Nat} {keys : List String} {st : LocalStore}
    (h : st.NotAhead now) : (st.addTokensPostStreamAll now keys tokens).NotAhead now := by
  unfold LocalStore.addTokensPostStreamAll
  split
  · exact h
  · exact notAhead_foldl (fun _ _ h => h.addTokens tokens) keys h

theorem notAhead_finishStream {now tokens spendMicroUsd : Nat} {st : LocalStore}
    (mr : MultiReservation)
    (h : st.NotAhead now) : (mr.finishStream now tokens spendMicroUsd st).NotAhead now := by
  simp only [MultiReservation.finishStream, intoStreamHold_eq]
  exact notAhead_foldl (fun _ _ h => h.release) _
    (notAhead_addTokensPostStreamAll (notAhead_addTokensPostStreamAll h))

/-- Unary and streamed accounting leave every bucket with the same readings, at that second and, if
the clock has not gone back, at every later one, and with the same members. A `commit` that is
dropped anywhere leaves every bucket with the members it has when all layers are released, and with
the amounts of the layers done, and of the one under way once it took effect, charged once. -/
theorem finish_agree (mr : MultiReservation) (now tokens spendMicroUsd : Nat) (st : LocalStore)
    (hsized : st.Sized) (key : String) :
    (∀ m t, (t = now ∨ (st.NotAhead now ∧ now ≤ t)) →
      (mr.commit now tokens spendMicroUsd st).reading t key m =
        (mr.finishStream now tokens spendMicroUsd st).reading t key m) ∧
    (mr.commit now tokens spendMicroUsd st).inFlight key =
      (mr.finishStream now tokens spendMicroUsd st).inFlight key ∧
    ∀ applied done dropTime,
      let dropped := MultiReservation.commitUntil now tokens spendMicroUsd dropTime applied done
        mr.reservations st
      (∀ m, dropped.reading now key m = satAdd (st.reading now key m)
        (credited key tokens spendMicroUsd (mr.reservations.take (done + applied.toNat)))) ∧
      dropped.inFlight key =
        (MultiReservation.dropAll dropTime mr.reservations st).inFlight key := by
  have hnow : ∀ m, (mr.commit now tokens spendMicroUsd st).reading now key m =
      (mr.finishStream now tokens spendMicroUsd st).reading now key m := by
    intro m
    rw [reading_finishStream mr (hsized.reading now key m)]
    exact reading_commitAll (hsized.reading now key m)
  refine ⟨fun m t ht => ?_, ?_, fun applied done dropTime => ⟨fun m => ?_, ?_⟩⟩
  · rcases ht with rfl | ⟨hahead, ht⟩
    · exact hnow m
    · rw [(notAhead_commit mr hahead).reading ht, (notAhead_finishStream mr hahead).reading ht,
        hnow]
  · ext member
    rw [mem_inFlight_commitAll, mem_inFlight_finishStream]
  · exact reading_commitUntil (hsized.reading now key m)
  · ext member
    rw [mem_inFlight_commitUntil mr.live, mem_inFlight_dropAll mr.live]

/-- A token layer and a spend layer on one bucket. -/
def layers : MultiReservation :=
  ⟨[⟨"k", "a", false, .tokens⟩, ⟨"k", "b", false, .microUsd⟩], by simp⟩

theorem finish_agree_layers :
    (layers.commit 7 30 5 .empty).reading 7 "k" .total =
        (layers.finishStream 7 30 5 .empty).reading 7 "k" .total ∧
      (MultiReservation.commitUntil 7 30 5 9 true 0 layers.reservations .empty).reading 7 "k"
      .total = 30 := by
  have hsized : LocalStore.empty.Sized := by rintro key s ⟨⟩
  obtain ⟨hagree, -, hdropped⟩ := finish_agree layers 7 30 5 .empty hsized "k"
  exact ⟨hagree .total 7 (.inl rfl), ((hdropped true 0 9).1 .total).trans (by decide)⟩

end RateLimit
end Aisix
