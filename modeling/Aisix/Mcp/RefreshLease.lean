import Aisix.Mcp.TokenRefresh
import Aisix.Utf8

/-!
# Aisix.Mcp.RefreshLease

What the lease and the versions give a token refresh, across any number of gateways.

* `HasLease`        — the lease a task took stands until it expires: nobody else's call takes it
  away.
* `run_refreshed`   — a record that a refresh wrote stands in the place of the one whose refresh
  token it had sent, so that no disconnect is undone and no newer sign-in overwritten.
* `run_one_request` — two requests for one record are in flight together only if, for one of their
  tasks, the time until it heard of its lease and the time between reading its budget and sending
  come to more than `leaseMargin` together.
-/

namespace Aisix
namespace Mcp

open Tasks

/-! ## Leases -/

def Call.DropsLease : Call → Prop
  | .delete ns _ _ => ns = nsLease
  | _ => False

/-- Task `n` took the lease on `key` by the write `w`, and has not let go of it. -/
structure HasLease (b : Backend) (n : Nat) (key : String) (w : StoreWrite) : Prop where
  mem : w ∈ b.store.log
  writer : w.writer = some n
  keyed : w.key = (nsLease, key)
  lasts : w.expiresAt = w.instant + leaseTtl
  stands : b.clock < w.expiresAt → ∃ e, b.store.entries w.key = some e ∧ e.version = w.version
  held : ∀ c, (n, c) ∈ b.strays → ¬ c.DropsLease

/-- A lease is created, and deleted only under a version its deleter wrote. -/
def KeepsLeases (s : Store) (writer : Option Nat) : Call → Prop
  | .put ns _ _ _ _ condition => ns = nsLease → condition = .createOnly
  | .delete ns _ ifVersion =>
    ns = nsLease → ∃ w ∈ s.log, w.writer = writer ∧ ifVersion = some w.version
  | .get _ _ => True

namespace HasLease

variable {b : Backend} {n : Nat} {key : String} {w : StoreWrite}

theorem live (h : HasLease b n key w) (hb : CasStore.Sound b.store) (hlt : b.clock < w.expiresAt) :
    ∃ e, b.store.live b.clock w.key = some e ∧ e.version = w.version := by
  obtain ⟨e, he, hversion⟩ := h.stands hlt
  obtain ⟨w', hw', -, -, hversion', hexpires⟩ := hb.entry _ _ he
  have heq : w' = w := hb.write_eq hw' h.mem (hversion'.trans hversion)
  exact ⟨e, CasStore.Store.live_eq_some_iff.2 ⟨he, by rw [← hexpires, heq]; exact hlt⟩, hversion⟩

theorem eq_of_live (hb : CasStore.Sound b.store) {m : Nat} {w' : StoreWrite}
    (h : HasLease b n key w) (h' : HasLease b m key w') (hlt : b.clock < w.expiresAt)
    (hlt' : b.clock < w'.expiresAt) :
    n = m := by
  obtain ⟨e, he, hversion⟩ := h.stands hlt
  obtain ⟨e', he', hversion'⟩ := h'.stands hlt'
  rw [h'.keyed, ← h.keyed, he] at he'
  obtain rfl := Option.some.inj he'
  have heq := hb.write_eq h.mem h'.mem (hversion.symm.trans hversion')
  exact Option.some.inj (h.writer.symm.trans (heq ▸ h'.writer))

theorem serve (h : HasLease b n key w) (hb : CasStore.Sound b.store) {writer : Option Nat}
    {c : Call} (hkeeps : KeepsLeases b.store writer c) (hother : c.DropsLease → writer ≠ some n)
    (expiresAt : Option Int) :
    HasLease (b.serve writer expiresAt c).2 n key w where
  mem := (b.serve_log writer expiresAt c).subset h.mem
  writer := h.writer
  keyed := h.keyed
  lasts := h.lasts
  stands := by
    rw [b.serve_clock]
    intro hlt
    obtain ⟨e, he, hversion⟩ := h.stands hlt
    rcases b.serve_cases writer expiresAt c with hs | ⟨ns, key', value, ttl, labels, condition,
      rfl, hcond, hs⟩ | ⟨ns, key', v, rfl, hs⟩
    · rw [hs]
      exact ⟨e, he, hversion⟩
    · rw [hs]
      by_cases hkey : w.key = (ns, key')
      · -- the lease is live, so it cannot be created again
        have hns : ns = nsLease := (Prod.mk.inj (hkey.symm.trans h.keyed)).1
        obtain ⟨e', hlive, -⟩ := h.live hb hlt
        obtain rfl := hkeeps hns
        rw [hkey] at hlive
        have hnone : b.store.live b.clock (ns, key') = none := hcond
        rw [hnone] at hlive
        cases hlive
      · exact ⟨e, by simpa [CasStore.Store.written, hkey] using he, hversion⟩
    · rw [hs]
      refine ⟨e, ?_, hversion⟩
      unfold CasStore.Store.delete
      split
      · next hall =>
        by_cases hkey : w.key = (ns, key')
        · -- the version deleted is another task's
          have hns : ns = nsLease := (Prod.mk.inj (hkey.symm.trans h.keyed)).1
          obtain ⟨w', hw', hwriter, rfl⟩ := hkeeps hns
          have hsame : e.version = w'.version := by simpa [← hkey, he] using hall
          have heq := hb.write_eq h.mem hw' (hversion.symm.trans hsame)
          exact absurd (hwriter.symm.trans (heq ▸ h.writer)) (hother hns)
        · simpa [hkey] using he
      · exact he
  held := by
    rw [b.serve_strays]
    exact h.held

theorem tick (h : HasLease b n key w) {now : Nat} (hle : b.clock ≤ now) :
    HasLease { b with clock := now } n key w :=
  { h with stands := fun hlt => h.stands (Nat.lt_of_le_of_lt hle hlt) }

theorem strays (h : HasLease b n key w) {strays : List (Nat × Call)}
    (hheld : ∀ c, (n, c) ∈ strays → ¬ c.DropsLease) :
    HasLease { b with strays := strays } n key w :=
  { h with held := hheld }

end HasLease

/-! ## The rules of a refresh -/

variable {serde : RecordSerde}

/-- `base` is a record under `key`, and task `n` has sent its refresh token. -/
def SentFrom (serde : RecordSerde) (sent : List Sent) (n : Nat) (key : String) (base : StoreWrite) :
    Prop :=
  base.key = (nsToken, key) ∧ ∃ r ∈ sent, r.task = n ∧ r.key = key ∧ ∃ record token,
    serde.fromSlice base.value = some record ∧ record.refreshToken = some token ∧
      ("refresh_token", token) ∈ r.form

theorem SentFrom.mono {sent sent' : List Sent} {n : Nat} {key : String} {base : StoreWrite}
    (h : SentFrom serde sent n key base) (hsent : sent <+: sent') :
    SentFrom serde sent' n key base := by
  obtain ⟨hkey, r, hr, hrest⟩ := h
  exact ⟨hkey, r, hsent.subset hr, hrest⟩

/-- A refresh writes a record under the version that it sent the refresh token of. -/
def WritesSent (serde : RecordSerde) (s : RefreshState) (n : Nat) : Call → Prop
  | .put ns key _ _ _ condition => ns = nsToken →
      ∃ base ∈ s.backend.store.log, condition = .ifVersion base.version ∧
        SentFrom serde s.sent n key base
  | _ => True

structure Lawful (serde : RecordSerde) (s : RefreshState) (n : Nat) (c : Call) : Prop where
  keeps : KeepsLeases s.backend.store (some n) c
  sent : WritesSent serde s n c

structure Refreshing (serde : RecordSerde) (s : RefreshState) : Prop where
  sound : CasStore.Sound s.backend.store
  strays : ∀ c ∈ s.backend.strays, Lawful serde s c.1 c.2
  refreshed : ∀ w ∈ s.backend.store.log, ∀ n, w.writer = some n → w.key.1 = nsToken →
    ∃ base ∈ s.backend.store.log, w.replaced = some base.version ∧
      SentFrom serde s.sent n w.key.2 base
  leased : ∀ n r, s.inFlight n = some r → r.task = n ∧ r ∈ s.sent ∧
    r.deadline ≤ r.leaseTaken + leaseTtl - leaseMargin + (r.sentAt - r.readAt) ∧
      ∃ w, HasLease s.backend n r.key w

structure RefreshRely (n : Nat) (s t : RefreshState) : Prop where
  log : s.backend.store.log <+: t.backend.store.log
  clock : s.backend.clock ≤ t.backend.clock
  sent : s.sent <+: t.sent
  inFlight : t.inFlight n = s.inFlight n
  strays : ∀ c, c.DropsLease → (n, c) ∈ t.backend.strays → (n, c) ∈ s.backend.strays
  leases : ∀ key w, HasLease s.backend n key w → HasLease t.backend n key w

theorem RefreshRely.refl (n : Nat) (s : RefreshState) : RefreshRely n s s :=
  ⟨List.prefix_rfl, le_refl _, List.prefix_rfl, rfl, fun _ _ h => h, fun _ _ h => h⟩

theorem RefreshRely.trans {n : Nat} {s t u : RefreshState} (h : RefreshRely n s t)
    (h' : RefreshRely n t u) : RefreshRely n s u where
  log := h.log.trans h'.log
  clock := h.clock.trans h'.clock
  sent := h.sent.trans h'.sent
  inFlight := h'.inFlight.trans h.inFlight
  strays c hc hmem := h.strays c hc (h'.strays c hc hmem)
  leases key w hw := h'.leases key w (h.leases key w hw)

def refreshRules (serde : RecordSerde) : Rules RefreshState where
  Inv := Refreshing serde
  Rely := RefreshRely
  Fresh n s := s.inFlight n = none ∧ ∀ c, c.DropsLease → (n, c) ∉ s.backend.strays
  refl := RefreshRely.refl
  trans _ _ _ _ := RefreshRely.trans
  fresh _ _ _ h hfresh :=
    ⟨h.inFlight.trans hfresh.1, fun c hc hmem => hfresh.2 c hc (h.strays c hc hmem)⟩

theorem Lawful.mono {s t : RefreshState} {n : Nat} {c : Call} (h : Lawful serde s n c)
    (hlog : s.backend.store.log <+: t.backend.store.log) (hsent : s.sent <+: t.sent) :
    Lawful serde t n c where
  keeps := by
    cases c with
    | put ns key value ttl labels condition => exact h.keeps
    | delete ns key ifVersion =>
      intro hns
      obtain ⟨w, hw, hrest⟩ := h.keeps hns
      exact ⟨w, hlog.subset hw, hrest⟩
    | get ns key => trivial
  sent := by
    cases c with
    | put ns key value ttl labels condition =>
      intro hns
      obtain ⟨base, hbase, hcond, hfrom⟩ := h.sent hns
      exact ⟨base, hlog.subset hbase, hcond, hfrom.mono hsent⟩
    | _ => trivial

/-! ## What a call does -/

namespace Refreshing

variable {s : RefreshState}

theorem serve (h : Refreshing serde s) {writer : Option Nat} {c : Call}
    (hkeeps : KeepsLeases s.backend.store writer c)
    (hsent : ∀ m, writer = some m → WritesSent serde s m c)
    (hidle : c.DropsLease → ∀ m, writer = some m → s.inFlight m = none) (expiresAt : Option Int) :
    Refreshing serde { s with backend := (s.backend.serve writer expiresAt c).2 } where
  sound := Backend.serve_sound h.sound writer expiresAt c
  strays := by
    intro stray hstray
    rw [s.backend.serve_strays] at hstray
    exact (h.strays stray hstray).mono (s.backend.serve_log writer expiresAt c) List.prefix_rfl
  refreshed := by
    have hlog := s.backend.serve_log writer expiresAt c
    have hold : ∀ w ∈ s.backend.store.log, ∀ n, w.writer = some n → w.key.1 = nsToken →
        ∃ base ∈ (s.backend.serve writer expiresAt c).2.store.log,
          w.replaced = some base.version ∧ SentFrom serde s.sent n w.key.2 base := by
      intro w hw n hwriter hns
      obtain ⟨base, hbase, hrest⟩ := h.refreshed w hw n hwriter hns
      exact ⟨base, hlog.subset hbase, hrest⟩
    intro w hw n hwriter hns
    rcases s.backend.serve_cases writer expiresAt c with hs | ⟨ns, key, value, ttl, labels,
      condition, rfl, hcond, hs⟩ | ⟨ns, key, v, rfl, hs⟩
    · simp only [hs] at hw
      exact hold w hw n hwriter hns
    · simp only [hs] at hw
      rcases List.mem_append.1 hw with hw | hw
      · exact hold w hw n hwriter hns
      · obtain rfl := List.mem_singleton.1 hw
        obtain ⟨base, hbase, rfl, hfrom⟩ := hsent n hwriter hns
        exact ⟨base, hlog.subset hbase, hcond, hfrom⟩
    · simp only [hs, CasStore.Store.delete_log] at hw
      exact hold w hw n hwriter hns
  leased := by
    intro n r hr
    obtain ⟨htask, hmem, hdeadline, w, hw⟩ := h.leased n r hr
    refine ⟨htask, hmem, hdeadline, w, hw.serve h.sound hkeeps (fun hdrops hwriter => ?_) expiresAt⟩
    have hnone : some r = none := hr.symm.trans (hidle hdrops n hwriter)
    cases hnone

/-- Serving a call, as another task sees it; and its own task, but for the let-go of a lease. -/
theorem serve_rely (h : Refreshing serde s) {writer : Option Nat} {c : Call} {n : Nat}
    (hkeeps : KeepsLeases s.backend.store writer c) (hother : c.DropsLease → writer ≠ some n)
    (expiresAt : Option Int) :
    RefreshRely n s { s with backend := (s.backend.serve writer expiresAt c).2 } where
  log := s.backend.serve_log writer expiresAt c
  clock := (s.backend.serve_clock writer expiresAt c).ge
  sent := List.prefix_rfl
  inFlight := rfl
  strays _ _ hmem := by rwa [s.backend.serve_strays] at hmem
  leases _ _ hw := hw.serve h.sound hkeeps hother expiresAt

theorem unanswered (h : Refreshing serde s) {n : Nat} {c : Call} (hlawful : Lawful serde s n c)
    (hidle : c.DropsLease → s.inFlight n = none) :
    Refreshing serde { s with backend := { s.backend with strays := s.backend.strays ++ [(n, c)] } }
      where
  sound := h.sound
  strays :=
    List.forall_mem_append.2
      ⟨fun stray hstray => (h.strays stray hstray).mono List.prefix_rfl List.prefix_rfl,
    List.forall_mem_singleton.2 (hlawful.mono List.prefix_rfl List.prefix_rfl)⟩
  refreshed := h.refreshed
  leased := by
    intro m r hr
    obtain ⟨htask, hmem, hdeadline, w, hw⟩ := h.leased m r hr
    refine ⟨htask, hmem, hdeadline, w, hw.strays fun c' hc' => ?_⟩
    rcases List.mem_append.1 hc' with hc' | hc'
    · exact hw.held c' hc'
    · obtain ⟨rfl, rfl⟩ := Prod.mk.inj (List.mem_singleton.1 hc')
      intro hdrops
      have hnone : some r = none := hr.symm.trans (hidle hdrops)
      cases hnone

theorem unanswered_rely {n m : Nat} {c : Call} (hother : n ≠ m ∨ ¬ c.DropsLease) :
    RefreshRely n s
      { s with backend := { s.backend with strays := s.backend.strays ++ [(m, c)] } } := by
  have hmem : ∀ c', c'.DropsLease → (n, c') ∈ s.backend.strays ++ [(m, c)] →
      (n, c') ∈ s.backend.strays := by
    intro c' hdrops hc'
    rcases List.mem_append.1 hc' with hc' | hc'
    · exact hc'
    · obtain ⟨rfl, rfl⟩ := Prod.mk.inj (List.mem_singleton.1 hc')
      exact absurd hdrops (hother.resolve_left (not_not.2 rfl))
  exact ⟨List.prefix_rfl, le_refl _, List.prefix_rfl, rfl, hmem,
    fun key w hw => hw.strays fun c' hc' hdrops =>
    hw.held c' (hmem c' hdrops hc') hdrops⟩

end Refreshing

/-- A call of task `n`, and what it leaves to the others and, unless it lets go of a lease, to
itself. -/
theorem call_refreshing {s s' : RefreshState} (h : Refreshing serde s) {n : Nat} {c : Call}
    {o : Outcome} {a : c.Answer} (hlawful : Lawful serde s n c)
    (hidle : c.DropsLease → s.inFlight n = none)
    (hcall : s.call n (.store c) (.outcome o) = some (a, s')) :
    Refreshing serde s' ∧ (∀ m, m ≠ n ∨ ¬ c.DropsLease → RefreshRely m s s') ∧
      ((∃ expiresAt, (a, s'.backend) = s.backend.serve (some n) expiresAt c) ∨
        ∃ e, e ≠ StoreError.preconditionFailed ∧ a = c.failed e) := by
  obtain ⟨⟨a, b⟩, hb, heq⟩ := Option.map_eq_some_iff.1 hcall
  obtain ⟨rfl, rfl⟩ := Prod.mk.inj heq
  cases o with
  | served expiresAt =>
    obtain ⟨rfl, rfl⟩ := Prod.mk.inj (Option.some.inj hb)
    refine ⟨?_, fun m hm => ?_, .inl ⟨expiresAt, rfl⟩⟩
    · refine h.serve hlawful.keeps (fun m hm => ?_) (fun hdrops m hm => ?_) expiresAt
      · exact Option.some.inj hm ▸ hlawful.sent
      · exact Option.some.inj hm ▸ hidle hdrops
    · refine h.serve_rely hlawful.keeps (fun hdrops heq => ?_) expiresAt
      exact hm.elim (fun hne => hne (Option.some.inj heq).symm) fun hno => hno hdrops
  | refused e =>
    simp only [Backend.call, Option.ite_none_left_eq_some] at hb
    obtain ⟨hne, heq⟩ := hb
    obtain ⟨rfl, rfl⟩ := Prod.mk.inj (Option.some.inj heq)
    exact ⟨h, fun m _ => RefreshRely.refl m s, .inr ⟨e, hne, rfl⟩⟩
  | unanswered =>
    obtain ⟨rfl, rfl⟩ := Prod.mk.inj (Option.some.inj hb)
    exact ⟨h.unanswered hlawful hidle, fun m hm => Refreshing.unanswered_rely hm,
      .inr ⟨_, by decide, rfl⟩⟩

/-! ## The rules of the calls -/

section Calls

variable {n : Nat} {s : RefreshState}

theorem refresh_store {c : Call} {Q : c.Answer → RefreshState → Prop} (hlawful : Lawful serde s n c)
    (hkept : ¬ c.DropsLease)
    (hserved : ∀ (t u : RefreshState) expiresAt, Refreshing serde t → RefreshRely n s t →
      RefreshRely n s u →
        u.backend = (t.backend.serve (some n) expiresAt c).2 →
          Q (t.backend.serve (some n) expiresAt c).1 u)
    (hfailed : ∀ e u, e ≠ .preconditionFailed → RefreshRely n s u → Q (c.failed e) u) :
    Tasks.Call RefreshState.call (refreshRules serde) n (.store c) Q s := by
  intro t hst ht choice a u hexec
  cases choice with
  | outcome o =>
    obtain ⟨hu, hothers, hanswer⟩ :=
      call_refreshing ht (hlawful.mono hst.log hst.sent) (fun h => absurd h hkept) hexec
    have hsu : RefreshRely n s u := hst.trans (hothers n (.inr hkept))
    refine ⟨hu, fun m hm => hothers m (.inl hm), ?_⟩
    rcases hanswer with ⟨expiresAt, hserve⟩ | ⟨e, hne, rfl⟩
    · obtain ⟨rfl, hbackend⟩ := Prod.mk.inj hserve
      exact hserved t u expiresAt ht hst hsu hbackend
    · exact hfailed e u hne hsu
  | _ => cases hexec

theorem refresh_get {ns key : String}
    {Q : Except StoreError (Option StoredValue) → RefreshState → Prop}
    (hnone : ∀ u, RefreshRely n s u → Q (.ok none) u)
    (hsome : ∀ stored u, RefreshRely n s u → (∃ base ∈ u.backend.store.log, base.key = (ns, key) ∧
      base.version = stored.version ∧ base.value = stored.value) → Q (.ok (some stored)) u)
    (hfailed : ∀ e u, RefreshRely n s u → Q (.error e) u) :
    Tasks.Call RefreshState.call (refreshRules serde) n (.store (.get ns key)) Q s := by
  refine refresh_store ⟨trivial, trivial⟩ id (fun t u expiresAt ht hst hsu hu => ?_)
    fun e u _ hsu => hfailed e u hsu
  simp only [Backend.serve] at hu ⊢
  cases hlive : t.backend.store.live t.backend.clock (ns, key) with
  | none => exact hnone u hsu
  | some e =>
    obtain ⟨base, hbase, hkey, hvalue, hversion⟩ := ht.sound.of_live hlive
    exact hsome _ u hsu ⟨base, by rw [hu]; exact hbase, hkey, hversion, hvalue⟩

theorem refresh_put {ns key : String} {value : Bytes} {ttl : Nat} {labels : List (String × String)}
    {condition : PutCondition} {Q : Except StoreError Nat → RefreshState → Prop}
    (hlawful : Lawful serde s n (.put ns key value ttl labels condition))
    (hwon : ∀ (t u : RefreshState), RefreshRely n s u →
      u.backend = { t.backend with
        store := t.backend.store.written (some n) t.backend.clock (ns, key) value ttl } →
      Q (.ok (t.backend.store.version + 1)) u)
    (hfailed : ∀ e u, RefreshRely n s u → Q (.error e) u) :
    Tasks.Call RefreshState.call (refreshRules serde) n
      (.store (.put ns key value ttl labels condition)) Q s := by
  refine refresh_store hlawful id (fun t u expiresAt _ _ hsu hu => ?_)
    fun e u _ hsu => hfailed e u hsu
  rcases t.backend.serve_put (some n) expiresAt ns key value ttl labels condition with ⟨-, hserve⟩ |
    ⟨-, hserve⟩
  · rw [hserve] at hu ⊢
    exact hwon t u hsu hu
  · rw [hserve] at hu ⊢
    exact hfailed _ u hsu

theorem refresh_delete {ns key : String} {ifVersion : Option Nat}
    {Q : Except StoreError Unit → RefreshState → Prop} (hns : ns ≠ nsLease)
    (h : ∀ a u, RefreshRely n s u → Q a u) :
    Tasks.Call RefreshState.call (refreshRules serde) n (.store (.delete ns key ifVersion)) Q s :=
  refresh_store ⟨fun heq => absurd heq hns, trivial⟩ hns (fun _ u _ _ _ hsu _ => h _ u hsu)
    fun _ u _ hsu => h _ u hsu

theorem refresh_letGo {key : String} {version : Nat}
    {Q : Except StoreError Unit → RefreshState → Prop} (hidle : s.inFlight n = none)
    (hmine : ∃ w ∈ s.backend.store.log, w.writer = some n ∧ w.version = version)
    (h : ∀ a u, Q a u) :
    Tasks.Call RefreshState.call (refreshRules serde) n
      (.store (.delete nsLease key (some version))) Q s := by
  intro t hst ht choice a u hexec
  cases choice with
  | outcome o =>
    have hlawful : Lawful serde s n (.delete nsLease key (some version)) := by
      obtain ⟨w, hw, hwriter, rfl⟩ := hmine
      exact ⟨fun _ => ⟨w, hw, hwriter, rfl⟩, trivial⟩
    obtain ⟨hu, hothers, -⟩ :=
      call_refreshing ht (hlawful.mono hst.log hst.sent) (fun _ => hst.inFlight.trans hidle) hexec
    exact ⟨hu, fun m hm => hothers m (.inl hm), h a u⟩
  | _ => cases hexec

theorem refresh_asks {i : RefreshCall} {Q : i.Answer → RefreshState → Prop}
    (hexec : ∀ (t : RefreshState) choice a u, t.call n i choice = some (a, u) → u = t)
    (h : ∀ a u, RefreshRely n s u → Q a u) :
    Tasks.Call RefreshState.call (refreshRules serde) n i Q s := by
  intro t hst ht choice a u hcall
  obtain rfl := hexec t choice a u hcall
  exact ⟨ht, fun m _ => RefreshRely.refl m u, h a u hst⟩

theorem refresh_unixNow {Q : Int → RefreshState → Prop} (h : ∀ now u, RefreshRely n s u → Q now u) :
    Tasks.Call RefreshState.call (refreshRules serde) n .unixNow Q s := by
  refine refresh_asks (fun t choice a u hcall => ?_) h
  cases choice with
  | reads now => exact (Prod.mk.inj (Option.some.inj hcall)).2.symm
  | _ => cases hcall

theorem refresh_tokenEndpoint {server : String}
    {Q : Except UserOAuthFailure String → RefreshState → Prop}
    (h : ∀ endpoint u, RefreshRely n s u → Q endpoint u) :
    Tasks.Call RefreshState.call (refreshRules serde) n (.tokenEndpoint server) Q s := by
  refine refresh_asks (fun t choice a u hcall => ?_) h
  cases choice with
  | found endpoint => exact (Prod.mk.inj (Option.some.inj hcall)).2.symm
  | _ => cases hcall

theorem refresh_sleepUntil {instant : Nat} {Q : Unit → RefreshState → Prop}
    (h : ∀ u, RefreshRely n s u → Q () u) :
    Tasks.Call RefreshState.call (refreshRules serde) n (.sleepUntil instant) Q s := by
  refine refresh_asks (fun t choice a u hcall => ?_) fun _ u hu => h u hu
  cases choice with
  | proceeds => exact (Prod.mk.inj (Option.ite_some_none_eq_some.1 hcall).2).2.symm
  | _ => cases hcall

theorem refresh_instant {Q : Nat → RefreshState → Prop}
    (h : ∀ u, RefreshRely n s u → Q u.backend.clock u) :
    Tasks.Call RefreshState.call (refreshRules serde) n .instant Q s := by
  intro t hst ht choice a u hcall
  cases choice with
  | proceeds =>
    obtain ⟨rfl, rfl⟩ := Prod.mk.inj (Option.some.inj hcall)
    exact ⟨ht, fun m _ => RefreshRely.refl m _, h _ hst⟩
  | _ => cases hcall

end Calls

/-! ## A token request -/

section Request

variable {n : Nat} {s : RefreshState}

def RefreshState.request (s : RefreshState) (n : Nat) (r : Sent) : RefreshState :=
  { s with inFlight := Function.update s.inFlight n (some r), sent := s.sent ++ [r] }

def RefreshState.answered (s : RefreshState) (n : Nat) : RefreshState :=
  { s with inFlight := Function.update s.inFlight n none }

theorem Refreshing.request (h : Refreshing serde s) {r : Sent} {w : StoreWrite} (htask : r.task = n)
    (hdeadline : r.deadline ≤ r.leaseTaken + leaseTtl - leaseMargin + (r.sentAt - r.readAt))
    (hlease : HasLease s.backend n r.key w) : Refreshing serde (s.request n r) where
  sound := h.sound
  strays stray hstray := (h.strays stray hstray).mono List.prefix_rfl (List.prefix_append _ _)
  refreshed w hw m hwriter hns := by
    obtain ⟨base, hbase, hreplaced, hfrom⟩ := h.refreshed w hw m hwriter hns
    exact ⟨base, hbase, hreplaced, hfrom.mono (List.prefix_append _ _)⟩
  leased m r' hr' := by
    by_cases hm : m = n
    · subst hm
      obtain rfl : r = r' := by simpa [RefreshState.request] using hr'
      exact ⟨htask, List.mem_append_right _ (List.mem_singleton_self _), hdeadline, w, hlease⟩
    · obtain ⟨htask', hmem, hrest⟩ := h.leased m r' (by simpa [RefreshState.request, hm] using hr')
      exact ⟨htask', List.mem_append_left _ hmem, hrest⟩

theorem Refreshing.answered (h : Refreshing serde s) (n : Nat) :
    Refreshing serde (s.answered n) where
  sound := h.sound
  strays stray hstray := (h.strays stray hstray).mono List.prefix_rfl List.prefix_rfl
  refreshed := h.refreshed
  leased m r hr := by
    by_cases hm : m = n
    · subst hm
      simp [RefreshState.answered] at hr
    · exact h.leased m r (by simpa [RefreshState.answered, hm] using hr)

/-- What a task has of the state once its request is answered: all it had, and the request among
those sent. -/
theorem safe_tokenRequest {key endpoint : String} {form : List (String × String)}
    {leaseTaken readAt budget : Nat} {w : StoreWrite} (hidle : s.inFlight n = none)
    (hlease : HasLease s.backend n key w) (hread : readAt ≤ s.backend.clock)
    (hbudget : readAt + budget ≤ leaseTaken + leaseTtl - leaseMargin) :
    Safe RefreshState.call (refreshRules serde) n
      (fun _ u => RefreshRely n s u ∧ ∃ r ∈ u.sent, r.task = n ∧ r.key = key ∧ r.form = form)
      (RefreshProg.tokenRequest key endpoint form leaseTaken readAt budget) s := by
  unfold RefreshProg.tokenRequest
  simp only [Prog.op_bind]
  refine Safe.op fun t hst ht choice a u hexec => ?_
  cases choice with
  | proceeds =>
    let r : Sent := ⟨n, key, form, leaseTaken, readAt, t.backend.clock, t.backend.clock + budget⟩
    obtain ⟨-, rfl⟩ := Prod.mk.inj (Option.some.inj hexec)
    have hclock := hst.clock
    have hdeadline :
        r.deadline ≤ r.leaseTaken + leaseTtl - leaseMargin + (r.sentAt - r.readAt) := by
      simp only [r]
      omega
    refine ⟨ht.request rfl hdeadline (hst.leases key w hlease), fun m hm => ?_, ?_⟩
    · exact ⟨List.prefix_rfl, le_refl _,
        List.prefix_append _ _, by simp [hm], fun _ _ h => h, fun _ _ h => h⟩
    · refine Safe.op fun v huv hv choice a z hexec => ?_
      cases choice with
      | answers o =>
        obtain ⟨rfl, rfl⟩ := Prod.mk.inj (Option.some.inj hexec)
        have hrely : RefreshRely n s (v.answered n) :=
          { log := hst.log.trans huv.log
            clock := hst.clock.trans huv.clock
            sent := (hst.sent.trans (List.prefix_append _ _)).trans huv.sent
            inFlight := by simp [RefreshState.answered, hidle]
            strays := fun c hc hmem => hst.strays c hc (huv.strays c hc hmem)
            leases := fun key w h => huv.leases key w (hst.leases key w h) }
        have hsent : r ∈ v.sent :=
          huv.sent.subset (List.mem_append_right _ (List.mem_singleton_self _))
        refine ⟨hv.answered n, fun m hm => ?_, Safe.done fun x hx => ?_⟩
        · exact ⟨List.prefix_rfl, le_refl _,
            List.prefix_rfl, by simp [hm], fun _ _ h => h, fun _ _ h => h⟩
        · exact ⟨hrely.trans hx, r, hx.sent.subset hsent, rfl, rfl, rfl⟩
      | _ => cases hexec
  | _ => cases hexec

end Request

/-! ## The bodies -/

section Bodies

variable {n : Nat} {s t : RefreshState} {server : UserOAuthServer} {subject : UserSubject}
    {key : String} {replacing : Replacing}

/-- A body that leaves its task, from `t` on, with all it had at `s`. -/
abbrev Leaves {α : Type} (serde : RecordSerde) (n : Nat) (s : RefreshState) (p : RefreshProg α)
    (t : RefreshState) : Prop :=
  Safe RefreshState.call (refreshRules serde) n (fun _ u => RefreshRely n s u) p t

theorem leaves_done {α : Type} {a : α} (h : RefreshRely n s t) : Leaves serde n s (.done a) t :=
  fun _ hu => h.trans hu

/-- The record of version `version` under `key`, read by a task. -/
def ReadRecord (serde : RecordSerde) (s : RefreshState) (key : String) (version : Nat)
    (record : TokenRecord) : Prop :=
  ∃ base ∈ s.backend.store.log, base.key = (nsToken, key) ∧ base.version = version ∧
    serde.fromSlice base.value = some record

theorem ReadRecord.rely {version : Nat} {record : TokenRecord}
    (h : ReadRecord serde s key version record)
    (hst : RefreshRely n s t) : ReadRecord serde t key version record := by
  obtain ⟨base, hbase, hrest⟩ := h
  exact ⟨base, hst.log.subset hbase, hrest⟩

theorem leaves_storeRefreshed {version : Nat} {record : TokenRecord} (hst : RefreshRely n s t)
    (hfrom : ∃ base ∈ t.backend.store.log, base.version = version ∧
      SentFrom serde t.sent n key base) :
    Leaves serde n s (storeRefreshed serde server subject key version record) t := by
  unfold storeRefreshed
  simp only [Prog.op_bind]
  have hlawful : Lawful serde t n
      (.put nsToken key (serde.toVec record) tokenTtl (tokenLabels server subject)
        (.ifVersion version)) := by
    obtain ⟨base, hbase, rfl, hfrom⟩ := hfrom
    exact ⟨fun hns => absurd hns (by decide), fun _ => ⟨base, hbase, rfl, hfrom⟩⟩
  refine Safe.op (refresh_put hlawful (fun _ u hu _ => leaves_done (hst.trans hu)) fun e u hu => ?_)
  cases e with
  | preconditionFailed =>
    refine Safe.op (refresh_get (fun v hv => leaves_done (hst.trans (hu.trans hv)))
      (fun stored v hv _ => ?_) fun e v hv => leaves_done (hst.trans (hu.trans hv)))
    simp only [Option.bind_some]
    split <;> exact leaves_done (hst.trans (hu.trans hv))
  | _ => exact leaves_done (hst.trans hu)

theorem leaves_spendRefresh {w : StoreWrite} {leaseTaken version : Nat} {record : TokenRecord}
    {refreshToken : String} {fallback : Option String} (hidle : s.inFlight n = none)
    (hlease : HasLease s.backend n key w) (hread : ReadRecord serde s key version record)
    (htoken : record.refreshToken = some refreshToken) :
    Leaves serde n s
      (spendRefresh serde server subject key leaseTaken version record refreshToken fallback)
      s := by
  unfold spendRefresh
  simp only [Prog.op_bind]
  refine Safe.op (refresh_tokenEndpoint fun endpoint t hst => ?_)
  cases endpoint with
  | error failure => exact leaves_done hst
  | ok endpoint =>
    refine Safe.op (refresh_instant fun u htu => ?_)
    have hsu := hst.trans htu
    split
    · exact leaves_done hsu
    · next hleft =>
      refine Safe.bind
        (Safe.imp (fun o v hv => ?_)
          (safe_tokenRequest (hsu.inFlight.trans hidle) (hsu.leases _ _ hlease)
          (le_refl _) (by omega)))
      obtain ⟨huv, r, hr, hrtask, hrkey, hrform⟩ := hv
      have hsv := hsu.trans huv
      cases o with
      | rejected code =>
        dsimp only
        split
        · exact Safe.op (refresh_delete (by decide) fun a x hx => leaves_done (hsv.trans hx))
        · exact leaves_done hsv
      | transient => exact leaves_done hsv
      | blocked => exact leaves_done hsv
      | issued issued =>
        refine leaves_storeRefreshed hsv ?_
        obtain ⟨base, hbase, hkey, hversion, hdecoded⟩ := hread.rely hsv
        have hsent : ("refresh_token", refreshToken) ∈ r.form := by
          rw [hrform]
          simp [refreshForm]
        exact ⟨base, hbase, hversion, hkey, r, hr, hrtask, hrkey, record, refreshToken,
          hdecoded, htoken, hsent⟩

theorem leaves_refreshHoldingLease {w : StoreWrite} {leaseTaken : Nat} (hidle : s.inFlight n = none)
    (hlease : HasLease s.backend n key w) :
    Leaves serde n s (refreshHoldingLease serde server subject key replacing leaseTaken) s := by
  unfold refreshHoldingLease
  simp only [Prog.op_bind]
  refine Safe.op
    (refresh_get (fun t ht => leaves_done ht) (fun stored t ht hread => ?_)
      fun e t ht => leaves_done ht)
  dsimp only
  cases hdecoded : decodeToken serde stored with
  | none => exact leaves_done ht
  | some record =>
    refine Safe.op (refresh_unixNow fun now u hu => ?_)
    have hsu := ht.trans hu
    split
    · exact leaves_done hsu
    · cases htoken : record.refreshToken with
      | none =>
        dsimp only
        split
        · exact leaves_done hsu
        · exact Safe.op (refresh_delete (by decide) fun a v hv => leaves_done (hsu.trans hv))
      | some refreshToken =>
        have hrecord : ReadRecord serde u key stored.version record := by
          obtain ⟨base, hbase, hkey, hversion, hvalue⟩ := hread
          exact ⟨base, hu.log.subset hbase, hkey, hversion, by rw [hvalue]; exact hdecoded⟩
        refine Safe.imp (fun _ v hv => hsu.trans hv) ?_
        exact leaves_spendRefresh (hsu.inFlight.trans hidle) (hsu.leases _ _ hlease) hrecord htoken

theorem leaves_holderGone (hst : RefreshRely n s t) :
    Leaves serde n s (holderGone key replacing) t := by
  cases replacing with
  | rejected token => exact leaves_done hst
  | expiring version =>
    refine Safe.op
      (refresh_get (fun u hu => leaves_done (hst.trans hu))
        (fun stored u hu _ => leaves_done (hst.trans hu)) fun e u hu => leaves_done (hst.trans hu))

theorem leaves_waitForRefresh {started : Nat} (rounds : Nat) :
    ∀ {t : RefreshState}, RefreshRely n s t →
      Leaves serde n s (waitForRefresh serde server key replacing started rounds) t := by
  induction rounds with
  | zero => exact fun hst => leaves_done hst
  | succ rounds ih =>
    intro t hst
    unfold waitForRefresh
    refine Safe.bind (Safe.imp (fun gone u hu => ?_) (leaves_holderGone hst))
    cases gone with
    | error e => exact leaves_done hu
    | ok gone =>
      simp only [Prog.op_bind]
      refine Safe.op (refresh_get (fun v hv => leaves_done (hu.trans hv)) (fun stored v hv _ => ?_)
        fun e v hv => leaves_done (hu.trans hv))
      dsimp only [Option.bind_some]
      cases decodeToken serde stored with
      | none => exact leaves_done (hu.trans hv)
      | some record =>
        refine Safe.op (refresh_unixNow fun unix x hx => Safe.op (refresh_instant fun y hy => ?_))
        have hsy := (hu.trans hv).trans (hx.trans hy)
        split
        · exact leaves_done hsy
        · refine Safe.op (refresh_instant fun z hz => ?_)
          split
          · exact leaves_done (hsy.trans hz)
          · exact Safe.op (refresh_sleepUntil fun q hq => ih (hsy.trans (hz.trans hq)))

theorem safe_refreshUnderLease (hfresh : (refreshRules serde).Fresh n s) :
    Safe RefreshState.call (refreshRules serde) n (fun _ _ => True)
      (refreshUnderLease serde server subject key replacing) s := by
  unfold refreshUnderLease
  simp only [Prog.op_bind]
  refine Safe.op (refresh_put ⟨fun _ => rfl, fun hns => absurd hns (by decide)⟩
    (fun t u hsu hu => ?won) fun e u hsu => ?failed)
  case won =>
    have hfresh' := (refreshRules serde).fresh n s u hsu hfresh
    have hlease :
        HasLease u.backend n key (t.backend.writeOf (some n) nsLease key [49] leaseTtl) := by
      refine ⟨?_, rfl, rfl, rfl, fun _ => ?_, fun c hc hdrops => hfresh'.2 c hdrops hc⟩
      · rw [hu]
        exact t.backend.writeOf_mem _ _ _ _ _
      · rw [hu]
        exact ⟨⟨[49], t.backend.store.version + 1, t.backend.clock + leaseTtl⟩, by
          simp [CasStore.Store.written, Backend.writeOf], rfl⟩
    refine Safe.op (refresh_instant fun v hv => ?_)
    refine Safe.bind (Safe.imp (fun outcome x hx => ?_)
      (leaves_refreshHoldingLease (hv.inFlight.trans hfresh'.1) (hv.leases _ _ hlease)))
    refine Safe.op
      (refresh_letGo (hx.inFlight.trans (hv.inFlight.trans hfresh'.1)) ?_ fun a y => Safe.done
        fun _ _ => trivial)
    exact ⟨_, hx.log.subset (hv.log.subset hlease.mem), rfl, rfl⟩
  case failed =>
    cases e with
    | preconditionFailed =>
      exact Safe.op (refresh_instant fun v hv => Safe.imp (fun _ _ _ => trivial)
        (leaves_waitForRefresh (server.timeout / leasePoll + 1) (RefreshRely.refl n v)))
    | _ => exact Safe.done fun _ _ => trivial

end Bodies

/-! ## Everything else -/

section Events

variable {s : RefreshState}

theorem Refreshing.tick (h : Refreshing serde s) {now : Nat} (hle : s.backend.clock ≤ now) :
    Refreshing serde { s with backend := { s.backend with clock := now } } where
  sound := h.sound
  strays stray hstray := (h.strays stray hstray).mono List.prefix_rfl List.prefix_rfl
  refreshed := h.refreshed
  leased n r hr := by
    obtain ⟨htask, hmem, hdeadline, w, hw⟩ := h.leased n r hr
    exact ⟨htask, hmem, hdeadline, w, hw.tick hle⟩

theorem Refreshing.erase (h : Refreshing serde s) (i : Nat) :
    Refreshing serde { s with backend := { s.backend with strays := s.backend.strays.eraseIdx i } }
      where
  sound := h.sound
  strays stray hstray :=
    (h.strays stray (List.mem_of_mem_eraseIdx hstray)).mono List.prefix_rfl List.prefix_rfl
  refreshed := h.refreshed
  leased n r hr := by
    obtain ⟨htask, hmem, hdeadline, w, hw⟩ := h.leased n r hr
    exact ⟨htask, hmem, hdeadline, w, hw.strays fun c hc => hw.held c (List.mem_of_mem_eraseIdx hc)⟩

theorem keepsLeases_of_spares {store : Store} {c : Call} (h : sparesLeases c) :
    KeepsLeases store none c := by
  cases c with
  | put ns key value ttl labels condition =>
    exact fun hns => absurd hns (by simpa [sparesLeases] using h)
  | delete ns key ifVersion => exact fun hns => absurd hns (by simpa [sparesLeases] using h)
  | get ns key => trivial

theorem event_refreshRules {s' : RefreshState} {e : Event} (h : Refreshing serde s)
    (hevent : (refreshSystem serde).env s e = some s') :
    Refreshing serde s' ∧ ∀ n, RefreshRely n s s' := by
  obtain ⟨b, hb, rfl⟩ := Option.map_eq_some_iff.1 hevent
  cases e with
  | tick now =>
    obtain ⟨hle, rfl⟩ := Option.ite_some_none_eq_some.1 hb
    exact ⟨h.tick hle, fun n => ⟨List.prefix_rfl, hle, List.prefix_rfl, rfl, fun _ _ hmem => hmem,
      fun _ _ hw => hw.tick hle⟩⟩
  | lands i =>
    obtain ⟨⟨m, c⟩, hi, rfl⟩ := Option.map_eq_some_iff.1 hb
    have hmem : (m, c) ∈ s.backend.strays := List.mem_of_getElem? hi
    have hlawful : Lawful serde s m c := h.strays _ hmem
    let s₀ : RefreshState :=
      { s with backend := { s.backend with strays := s.backend.strays.eraseIdx i } }
    have h₀ : Refreshing serde s₀ := h.erase i
    -- a task with a lease has no let-go of it on the way
    have hheld : ∀ n key w, HasLease s.backend n key w → c.DropsLease → some m ≠ some n := by
      intro n key w hw hdrops heq
      obtain rfl := Option.some.inj heq
      exact hw.held c hmem hdrops
    refine ⟨h₀.serve (hlawful.keeps) (fun k hk => Option.some.inj hk ▸ hlawful.sent)
      (fun hdrops k hk => ?_) none, fun n => ?_⟩
    · cases hflight : s.inFlight k with
      | none => rfl
      | some r =>
        obtain ⟨-, -, -, w, hw⟩ := h.leased k r hflight
        exact absurd hk (hheld k _ w hw hdrops)
    · exact
        { log := s₀.backend.serve_log (some m) none c
          clock := (s₀.backend.serve_clock (some m) none c).ge
          sent := List.prefix_rfl
          inFlight := rfl
          strays := fun c' _ hmem => by
            rw [s₀.backend.serve_strays] at hmem
            exact List.mem_of_mem_eraseIdx hmem
          leases := fun key w hw =>
            (hw.strays fun c' hc' => hw.held c' (List.mem_of_mem_eraseIdx hc')).serve
              h₀.sound hlawful.keeps (fun hdrops => hheld n key w hw hdrops) none }
  | foreign c =>
    obtain ⟨hc, rfl⟩ := Option.ite_some_none_eq_some.1 hb
    exact ⟨h.serve (keepsLeases_of_spares hc) (fun m hm => by cases hm)
      (fun _ m hm => by cases hm) none, fun n =>
      h.serve_rely (keepsLeases_of_spares hc) (fun _ hm => by cases hm) none⟩

end Events

/-! ## Runs -/

section Runs

abbrev RefreshWorld :=
  World RefreshState RefreshJob RefreshCall RefreshCall.Answer (Except UserOAuthFailure String)

variable {now : Nat} {ls : List (Label RefreshJob RefreshChoice Event)} {w : RefreshWorld}

theorem run_refreshing
    (hrun : Lts.run (step (refreshSystem serde)) (.init (.init now)) ls = some w) :
    Refreshing serde w.shared := by
  have hinit : Refreshing serde (.init now) :=
    ⟨.empty, by
      simp [RefreshState.init, Backend.init], by
        simp [RefreshState.init, Backend.init, CasStore.Store.empty],
      by simp [RefreshState.init]⟩
  have hfresh : ∀ n, (refreshRules serde).Fresh n (.init now) := fun n =>
    ⟨rfl, by simp [RefreshState.init, Backend.init]⟩
  have hkept : Kept (refreshSystem serde) (refreshRules serde) (fun _ _ _ _ => True) w :=
    run_safe hinit hfresh (fun j n s _ h => safe_refreshUnderLease h)
      (fun _ _ _ h => event_refreshRules h) hrun
  exact hkept.inv

/-- Every record that a refresh wrote replaced one that stood under the same key, whose refresh
token that refresh had sent. -/
theorem run_refreshed (hrun : Lts.run (step (refreshSystem serde)) (.init (.init now)) ls = some w)
    {write : StoreWrite} (hwrite : write ∈ w.shared.backend.store.log) {n : Nat}
    (hwriter : write.writer = some n) (htoken : write.key.1 = nsToken) :
    ∃ base ∈ w.shared.backend.store.log, write.replaced = some base.version ∧
      SentFrom serde w.shared.sent n write.key.2 base :=
  (run_refreshing hrun).refreshed write hwrite n hwriter htoken

/-! What a sign-in stored, and what the endpoint makes of it. -/

def signedIn : TokenRecord := ⟨"a0", some "r0", some 100, none, none, none⟩

def signedInJson : Bytes :=
  Utf8.bytes "\x7b\"access_token\":\"a0\",\"refresh_token\":\"r0\",\"expires_at\":100\x7d"

def rotated : TokenRecord := ⟨"a1", some "r1", some 4000, none, none, none⟩

def rotatedJson : Bytes :=
  Utf8.bytes "\x7b\"access_token\":\"a1\",\"refresh_token\":\"r1\",\"expires_at\":4000\x7d"

/-- `serde_json` on these two. -/
def sampleSerde : RecordSerde where
  toVec r := if r = rotated then rotatedJson else signedInJson
  fromSlice v :=
    if v = rotatedJson then some rotated else if v = signedInJson then some signedIn else none

def sampleJob : RefreshJob := ⟨⟨"s", some "gw", none, secs 30⟩, ⟨"u", none⟩, "k", .expiring 1⟩

def signIn : Label RefreshJob RefreshChoice Event :=
  .env (.foreign (.put nsToken "k" signedInJson tokenTtl [] .createOnly))

def served : RefreshChoice := .outcome (.served none)

/-- A refresh, from its lease to the request. -/
def spend (n : Nat) : List (Label RefreshJob RefreshChoice Event) :=
  [.call n .proceeds, .call n served, .call n (.reads 90),
    .call n (.found (.ok "https://idp.example/token")), .call n .proceeds, .call n .proceeds]

def rotatedRun : List (Label RefreshJob RefreshChoice Event) :=
  [signIn, .start sampleJob, .call 0 served] ++ spend 0 ++
    [.call 0 (.answers (.issued ⟨"a1", some "r1", some 4000⟩)), .call 0 served, .call 0 served]

theorem run_refreshed_rotated :
    ∃ w : RefreshWorld,
      Lts.run (step (refreshSystem sampleSerde)) (.init (.init 0)) rotatedRun =
      some w ∧ w.result 0 = some (sampleJob, .ok "a1") ∧
      ∃ base ∈ w.shared.backend.store.log, some 1 = some base.version ∧
        SentFrom sampleSerde w.shared.sent 0 "k" base := by
  obtain ⟨w, hrun, hresult, write, hwrite, hwriter, hkey, hreplaced⟩ : ∃ w : RefreshWorld,
      Lts.run (step (refreshSystem sampleSerde)) (.init (.init 0)) rotatedRun = some w ∧
      w.result 0 = some (sampleJob, .ok "a1") ∧
        ∃ write, w.shared.backend.store.log[2]? = some write ∧ write.writer = some 0 ∧
        write.key = (nsToken, "k") ∧ write.replaced = some 1 :=
    ⟨_, rfl, rfl, _, rfl, rfl, rfl, rfl⟩
  refine ⟨w, hrun, hresult, ?_⟩
  have h := run_refreshed hrun (List.mem_of_getElem? hwrite) hwriter (by rw [hkey])
  rwa [hkey, hreplaced] at h

/-- A task's request is in flight until it is answered or given up. -/
def InFlight (s : RefreshState) (n : Nat) (r : Sent) : Prop :=
  s.inFlight n = some r ∧ s.backend.clock < r.deadline

/-- Two tasks have requests for one record in flight only if one of them used up the margin, by the
time until it heard of its lease and the time it was about sending its request together. -/
theorem run_one_request (hrun : Lts.run (step (refreshSystem serde)) (.init (.init now)) ls =
    some w) {m n : Nat}
    (hmn : m ≠ n) {r r' : Sent} (hm : InFlight w.shared m r) (hn : InFlight w.shared n r')
    (hkey : r.key = r'.key) :
    ∃ late ∈ [r, r'], ∃ lease ∈ w.shared.backend.store.log, lease.writer = some late.task ∧
      lease.key = (nsLease, late.key) ∧
        lease.instant + leaseMargin < late.leaseTaken + (late.sentAt - late.readAt) := by
  have h := run_refreshing hrun
  obtain ⟨htask, -, hdeadline, lease, hlease⟩ := h.leased m r hm.1
  obtain ⟨htask', -, hdeadline', lease', hlease'⟩ := h.leased n r' hn.1
  have hmargin : leaseMargin ≤ leaseTtl := by decide
  have hexpires := hlease.lasts
  have hexpires' := hlease'.lasts
  have hclock := hm.2
  have hclock' := hn.2
  by_cases hlate : lease.instant + leaseMargin < r.leaseTaken + (r.sentAt - r.readAt)
  · exact ⟨r, by simp, lease, hlease.mem, by rw [hlease.writer, htask], hlease.keyed, hlate⟩
  by_cases hlate' : lease'.instant + leaseMargin < r'.leaseTaken + (r'.sentAt - r'.readAt)
  · exact ⟨r', by simp, lease', hlease'.mem, by rw [hlease'.writer, htask'], hlease'.keyed, hlate'⟩
  -- both leases outlast their requests, and they are on one key
  rw [← hkey] at hlease'
  exact absurd (hlease.eq_of_live h.sound hlease' (by omega) (by omega)) hmn

/-- The first to take the lease hears of it once it has expired, and another has taken it. -/
def lateLeaseRun : List (Label RefreshJob RefreshChoice Event) :=
  [signIn, .start sampleJob, .start { sampleJob with replacing := .rejected "a0" }, .call 0 served,
    .env (.tick (secs 61)), .call 1 served] ++ spend 1 ++ spend 0

theorem run_one_request_late :
    ∃ w : RefreshWorld,
      Lts.run (step (refreshSystem sampleSerde)) (.init (.init 0)) lateLeaseRun =
      some w ∧ ∃ r r', InFlight w.shared 0 r ∧ InFlight w.shared 1 r' ∧ r.key = r'.key ∧
        ∃ late ∈ [r, r'], ∃ lease ∈ w.shared.backend.store.log, lease.writer = some late.task ∧
          lease.key = (nsLease, late.key) ∧
            lease.instant + leaseMargin < late.leaseTaken + (late.sentAt - late.readAt) := by
  obtain ⟨w, hrun, r, r', h0, hlt, h1, hlt', hkey⟩ : ∃ w : RefreshWorld,
      Lts.run (step (refreshSystem sampleSerde)) (.init (.init 0)) lateLeaseRun = some w ∧
      ∃ r r', w.shared.inFlight 0 = some r ∧ w.shared.backend.clock < r.deadline ∧
        w.shared.inFlight 1 = some r' ∧ w.shared.backend.clock < r'.deadline ∧ r.key = r'.key :=
    ⟨_, rfl, _, _, rfl, by decide, rfl, by decide, rfl⟩
  exact ⟨w, hrun, r, r', ⟨h0, hlt⟩, ⟨h1, hlt'⟩, hkey, run_one_request hrun (by decide) ⟨h0, hlt⟩
    ⟨h1, hlt'⟩ hkey⟩

end Runs

end Mcp
end Aisix
