import Aisix.Lts
import Aisix.Pricing.Index

/-!
# Aisix.Pricing.Live

The price index all readers share. Tables are stamped whenever they change, by one counter for all
of them, and the cached copy is kept with the stamps of the two tables it was made of;
`index_never_stale` says that equal stamps are equal rows. The counter has 64 bits in the source and
does not run out.
-/

namespace Aisix
namespace Pricing

open Etcd ResourceTable

/-- A pricing table, with the stamp of its last change. -/
structure Table where
  indices : Indices Pricing
  generation : Nat

namespace Table

/-- The stamp of a table that was never changed is 0. -/
def new : Table := ⟨.empty, 0⟩

/-- A clone counts its rows anew and keeps the stamp. -/
def clone (t : Table) : Table := ⟨{ t.indices with count := t.indices.stored.length }, t.generation⟩

def insert (t : Table) (entry : Entry) (stamp : Nat) : Table :=
  ⟨t.indices.insertArc Pricing.key entry, stamp⟩

/-- `none` when there is no such row: then nothing is stamped. -/
def remove (t : Table) (id : String) (stamp : Nat) : Option Table :=
  let (indices, removed) := t.indices.remove Pricing.key id
  removed.map fun _ => ⟨indices, stamp⟩

end Table

/-- The rows, in one of the orders in which they can be listed. -/
def listed (indices : Indices Pricing) : List Entry :=
  if indices.len = 0 then [] else indices.stored

def Table.entries (t : Table) : List Entry := listed t.indices

structure Snapshot where
  pricing : Table
  globalPricing : Table

namespace Snapshot

def new : Snapshot := ⟨.new, .new⟩

def clone (snap : Snapshot) : Snapshot := ⟨snap.pricing.clone, snap.globalPricing.clone⟩

def table (snap : Snapshot) (isGlobal : Bool) : Table :=
  if isGlobal then snap.globalPricing else snap.pricing

def withTable (snap : Snapshot) (isGlobal : Bool) (t : Table) : Snapshot :=
  if isGlobal then { snap with globalPricing := t } else { snap with pricing := t }

def indexKey (snap : Snapshot) : Nat × Nat :=
  (snap.pricing.generation, snap.globalPricing.generation)

end Snapshot

structure Cached where
  key : Nat × Nat
  index : PricingIndex

/-- How far a call of `for_snapshot` is. -/
inductive Stage where
  | start
  /-- The generation of the environment's table is read. -/
  | halfKey (generation : Nat)
  | keyed (key : Nat × Nat)
  /-- The cached copy is another one. -/
  | missed (key : Nat × Nat)
  | built (key : Nat × Nat) (index : PricingIndex)

structure Call where
  snapshot : Nat
  stage : Stage

/-- What a call returned, and the snapshot it was given. -/
structure Answer where
  snapshot : Snapshot
  index : PricingIndex

structure State where
  nextGeneration : Nat
  snapshots : List Snapshot
  cached : Option Cached
  calls : KeyMap Nat Call
  answers : List Answer

def start : State := ⟨1, [], none, ∅, []⟩

/-- Snapshots are known by their number, readers too. -/
inductive Act where
  | create
  | clone (snapshot : Nat)
  | insert (snapshot : Nat) (isGlobal : Bool) (entry : Entry)
  | remove (snapshot : Nat) (isGlobal : Bool) (id : String)
  /-- A table of another kind is stamped. -/
  | otherTable
  | call (reader snapshot : Nat)
  | readPricing (reader : Nat)
  | readGlobal (reader : Nat)
  | load (reader : Nat)
  /-- The tables are listed in these orders. -/
  | build (reader : Nat) (entries globalEntries : List Entry)
  | store (reader : Nat)

namespace State

variable (st : State)

/-- A call is at work on the snapshot. -/
def inUse (snapshot : Nat) : Bool :=
  (KeyMap.values st.calls).any fun call => call.snapshot == snapshot

/-- The call of a reader and the snapshot it was given. -/
def callOf (reader : Nat) : Option (Call × Snapshot) :=
  (st.calls.lookup reader).bind fun call => (st.snapshots[call.snapshot]?).map
    fun snap => (call, snap)

def goOn (reader : Nat) (call : Call) (stage : Stage) : State :=
  { st with calls := st.calls.insert reader { call with stage := stage } }

def answer (reader : Nat) (snap : Snapshot) (index : PricingIndex) : State :=
  { st with calls := st.calls.erase reader, answers := ⟨snap, index⟩ :: st.answers }

def step : Act → Option State
  | .create => some { st with snapshots := st.snapshots ++ [.new] }
  | .clone i => (st.snapshots[i]?).map fun snap =>
    { st with snapshots := st.snapshots ++ [snap.clone] }
  | .insert i isGlobal entry =>
    if st.inUse i then none
    else (st.snapshots[i]?).map fun snap =>
      { st with
        nextGeneration := st.nextGeneration + 1
        snapshots := st.snapshots.set i
          (snap.withTable isGlobal ((snap.table isGlobal).insert entry st.nextGeneration)) }
  | .remove i isGlobal id =>
    if st.inUse i then none
    else (st.snapshots[i]?).map fun snap =>
      match (snap.table isGlobal).remove id st.nextGeneration with
      | none => st
      | some t =>
        { st with
          nextGeneration := st.nextGeneration + 1
          snapshots := st.snapshots.set i (snap.withTable isGlobal t) }
  | .otherTable => some { st with nextGeneration := st.nextGeneration + 1 }
  | .call reader i =>
    if (st.calls.lookup reader).isSome then none
    else (st.snapshots[i]?).map fun _ => { st with calls := st.calls.insert reader ⟨i, .start⟩ }
  | .readPricing reader =>
    (st.callOf reader).bind fun (call, snap) =>
      match call.stage with
      | .start => some (st.goOn reader call (.halfKey snap.pricing.generation))
      | _ => none
  | .readGlobal reader =>
    (st.callOf reader).bind fun (call, snap) =>
      match call.stage with
      | .halfKey generation =>
        some (st.goOn reader call (.keyed (generation, snap.globalPricing.generation)))
      | _ => none
  | .load reader =>
    (st.callOf reader).bind fun (call, snap) =>
      match call.stage with
      | .keyed key =>
        match st.cached with
        | some cached =>
          if cached.key = key then some (st.answer reader snap cached.index)
          else some (st.goOn reader call (.missed key))
        | none => some (st.goOn reader call (.missed key))
      | _ => none
  | .build reader entries globalEntries =>
    (st.callOf reader).bind fun (call, snap) =>
      match call.stage with
      | .missed key =>
        if entries.Perm snap.pricing.entries ∧ globalEntries.Perm snap.globalPricing.entries then
          some (st.goOn reader call (.built key (.build entries globalEntries)))
        else none
      | _ => none
  | .store reader =>
    (st.callOf reader).bind fun (call, snap) =>
      match call.stage with
      | .built key index => some ({ st with cached := some ⟨key, index⟩ }.answer reader snap index)
      | _ => none

end State

/-! ### Stamps and rows -/

/-- The index of a snapshot. -/
def Snapshot.index (snap : Snapshot) : PricingIndex :=
  .build snap.pricing.entries snap.globalPricing.entries

/-- The table's maps agree with one another. -/
def Table.Sound (t : Table) : Prop :=
  ∃ r : ResourceTable Pricing Pricing.key, Indices.Shows t.indices r

namespace Table

variable {t : Table}

theorem Sound.entries_eq (h : t.Sound) : t.entries = t.indices.stored := by
  obtain ⟨r, hr⟩ := h
  unfold entries listed Indices.len
  split
  · next hzero =>
    rw [hr.count] at hzero
    exact (List.eq_nil_of_length_eq_zero hzero).symm
  · rfl

theorem Sound.nodup (h : t.Sound) : (t.entries.map (·.id)).Nodup := by
  rw [h.entries_eq]
  obtain ⟨r, hr⟩ := h
  rw [hr.rows]
  exact r.nodup

theorem Sound.clone_eq (h : t.Sound) : t.clone = t := by
  obtain ⟨r, hr⟩ := h
  unfold clone
  rw [← hr.count]

/-- What a stamp stands for: `rows` has the rows of every table that carries it. -/
structure Known (rows : Nat → Indices Pricing) (next : Nat) (t : Table) : Prop where
  stamped : t.generation < next
  rows_eq : rows t.generation = t.indices
  sound : t.Sound

variable {rows : Nat → Indices Pricing} {next : Nat}

theorem known_new (hzero : rows 0 = .empty) (hnext : 0 < next) : Known rows next .new where
  stamped := hnext
  rows_eq := hzero
  sound := ⟨.empty, Indices.shows_empty⟩

theorem Known.mono (h : t.Known rows next) (indices : Indices Pricing) :
    t.Known (Function.update rows next indices) (next + 1) where
  stamped := Nat.lt_succ_of_lt h.stamped
  rows_eq := by
    rw [Function.update_of_ne h.stamped.ne]
    exact h.rows_eq
  sound := h.sound

theorem Known.insert (h : t.Known rows next) (entry : Entry) :
    (t.insert entry next).Known (Function.update rows next (t.insert entry next).indices)
    (next + 1) where
  stamped := Nat.lt_succ_self next
  rows_eq := Function.update_self ..
  sound := by
    obtain ⟨r, hr⟩ := h.sound
    exact ⟨_, Indices.shows_insertArc hr entry⟩

theorem Known.remove (h : t.Known rows next) {id : String} {t' : Table}
    (hremove : t.remove id next = some t') :
    t'.Known (Function.update rows next t'.indices) (next + 1) := by
  obtain ⟨removed, -, rfl⟩ := Option.map_eq_some_iff.mp hremove
  obtain ⟨r, hr⟩ := h.sound
  exact {
    stamped := Nat.lt_succ_self next
    rows_eq := Function.update_self ..
    sound := ⟨_, Indices.shows_remove hr id⟩ }

end Table

namespace Snapshot

/-- Both tables are known by their stamps. -/
structure Known (rows : Nat → Indices Pricing) (next : Nat) (snap : Snapshot) : Prop where
  pricing : snap.pricing.Known rows next
  globalPricing : snap.globalPricing.Known rows next

variable {rows : Nat → Indices Pricing} {next : Nat} {snap : Snapshot}

theorem Known.table (h : snap.Known rows next) (isGlobal : Bool) :
    (snap.table isGlobal).Known rows next := by
  cases isGlobal with
  | true => exact h.globalPricing
  | false => exact h.pricing

theorem Known.mono (h : snap.Known rows next) (indices : Indices Pricing) :
    snap.Known (Function.update rows next indices) (next + 1) :=
  ⟨h.pricing.mono indices, h.globalPricing.mono indices⟩

theorem Known.withTable {t : Table} (h : snap.Known rows next) (isGlobal : Bool)
    (ht : t.Known rows next) :
    (snap.withTable isGlobal t).Known rows next := by
  cases isGlobal with
  | true => exact ⟨h.pricing, ht⟩
  | false => exact ⟨ht, h.globalPricing⟩

theorem Known.clone_eq (h : snap.Known rows next) : snap.clone = snap := by
  unfold clone
  rw [h.pricing.sound.clone_eq, h.globalPricing.sound.clone_eq]

theorem Known.index_eq (h : snap.Known rows next) :
    snap.index = .build (listed (rows snap.indexKey.1)) (listed (rows snap.indexKey.2)) := by
  unfold index Table.entries indexKey
  rw [h.pricing.rows_eq, h.globalPricing.rows_eq]

end Snapshot

/-! ### What holds of every state -/

/-- How much of the way a call has gone, and rightly so. -/
def Stage.Fits (snap : Snapshot) : Stage → Prop
  | start => True
  | halfKey generation => generation = snap.pricing.generation
  | keyed key => key = snap.indexKey
  | missed key => key = snap.indexKey
  | built key index => key = snap.indexKey ∧ index = snap.index

structure Inv (rows : Nat → Indices Pricing) (st : State) : Prop where
  next_pos : 0 < st.nextGeneration
  zero : rows 0 = .empty
  snapshots : ∀ snap ∈ st.snapshots, snap.Known rows st.nextGeneration
  cached : ∀ c, st.cached = some c → c.key.1 < st.nextGeneration ∧ c.key.2 < st.nextGeneration ∧
    c.index = .build (listed (rows c.key.1)) (listed (rows c.key.2))
  calls : ∀ reader call, st.calls.lookup reader = some call →
    ∃ snap, st.snapshots[call.snapshot]? = some snap ∧ call.stage.Fits snap
  answers : ∀ a ∈ st.answers, a.snapshot.pricing.Sound ∧ a.snapshot.globalPricing.Sound ∧
    a.index = a.snapshot.index

namespace Inv

variable {rows : Nat → Indices Pricing} {st : State}

theorem cached_mono (h : Inv rows st) (indices : Indices Pricing) {c : Cached}
    (hc : st.cached = some c) : c.key.1 < st.nextGeneration + 1 ∧ c.key.2 < st.nextGeneration + 1 ∧
      c.index = .build (listed (Function.update rows st.nextGeneration indices c.key.1))
        (listed (Function.update rows st.nextGeneration indices c.key.2)) := by
  obtain ⟨hfirst, hsecond, hindex⟩ := h.cached c hc
  refine ⟨Nat.lt_succ_of_lt hfirst, Nat.lt_succ_of_lt hsecond, ?_⟩
  rw [Function.update_of_ne hfirst.ne, Function.update_of_ne hsecond.ne]
  exact hindex

theorem zero_mono (h : Inv rows st) (indices : Indices Pricing) :
    Function.update rows st.nextGeneration indices 0 = .empty := by
  rw [Function.update_of_ne h.next_pos.ne]
  exact h.zero

theorem append (h : Inv rows st) {snap : Snapshot} (hsnap : snap.Known rows st.nextGeneration) :
    Inv rows { st with snapshots := st.snapshots ++ [snap] } where
  next_pos := h.next_pos
  zero := h.zero
  snapshots := by
    intro snap' hmem
    rcases List.mem_append.mp hmem with hmem | hmem
    · exact h.snapshots snap' hmem
    · rw [List.mem_singleton.mp hmem]
      exact hsnap
  cached := h.cached
  calls := by
    intro reader call hcall
    obtain ⟨snap', hget, hfits⟩ := h.calls reader call hcall
    refine ⟨snap', ?_, hfits⟩
    obtain ⟨hlt, -⟩ := List.getElem?_eq_some_iff.mp hget
    exact (List.getElem?_append_left hlt).trans hget
  answers := h.answers

theorem change (h : Inv rows st) {i : Nat} {snap : Snapshot} {isGlobal : Bool} {t : Table}
    (hfree : st.inUse i = false) (hget : st.snapshots[i]? = some snap)
    (ht : t.Known (Function.update rows st.nextGeneration t.indices) (st.nextGeneration + 1)) :
    Inv (Function.update rows st.nextGeneration t.indices)
      { st with
        nextGeneration := st.nextGeneration + 1
        snapshots := st.snapshots.set i (snap.withTable isGlobal t) } where
  next_pos := Nat.succ_pos _
  zero := h.zero_mono t.indices
  snapshots := by
    intro snap' hmem
    rcases List.mem_or_eq_of_mem_set hmem with hmem | rfl
    · exact (h.snapshots snap' hmem).mono t.indices
    · exact ((h.snapshots snap (List.mem_of_getElem? hget)).mono t.indices).withTable isGlobal ht
  cached := fun c hc => h.cached_mono t.indices hc
  calls := by
    intro reader call hcall
    obtain ⟨snap', hget', hfits⟩ := h.calls reader call hcall
    refine ⟨snap', ?_, hfits⟩
    have hne : i ≠ call.snapshot := by
      rintro rfl
      have hmem : call ∈ KeyMap.values st.calls := KeyMap.mem_values.mpr ⟨reader, hcall⟩
      have huse : st.inUse call.snapshot = true :=
        List.any_eq_true.mpr ⟨call, hmem, beq_self_eq_true _⟩
      rw [huse] at hfree
      cases hfree
    exact (List.getElem?_set_ne hne).trans hget'
  answers := h.answers

theorem goOn (h : Inv rows st) {reader : Nat} {call : Call} {snap : Snapshot} {stage : Stage}
    (hget : st.snapshots[call.snapshot]? = some snap) (hfits : stage.Fits snap) :
    Inv rows (st.goOn reader call stage) where
  next_pos := h.next_pos
  zero := h.zero
  snapshots := h.snapshots
  cached := h.cached
  calls := by
    intro reader' call' hcall
    by_cases hreader : reader' = reader
    · have hlookup :
          (st.goOn reader call stage).calls.lookup reader' = some { call with stage := stage } := by
        rw [hreader]
        exact AList.lookup_insert st.calls
      rw [hlookup] at hcall
      cases hcall
      exact ⟨snap, hget, hfits⟩
    · have hlookup : (st.goOn reader call stage).calls.lookup reader' = st.calls.lookup reader' :=
        AList.lookup_insert_ne hreader
      rw [hlookup] at hcall
      exact h.calls reader' call' hcall
  answers := h.answers

theorem answer (h : Inv rows st) {reader : Nat} {snap : Snapshot} {index : PricingIndex}
    (hsnap : snap ∈ st.snapshots) (hindex : index = snap.index) :
    Inv rows (st.answer reader snap index) where
  next_pos := h.next_pos
  zero := h.zero
  snapshots := h.snapshots
  cached := h.cached
  calls := by
    intro reader' call' hcall
    by_cases hreader : reader' = reader
    · have hlookup : (st.answer reader snap index).calls.lookup reader' = none := by
        rw [hreader]
        exact AList.lookup_erase reader st.calls
      rw [hlookup] at hcall
      cases hcall
    · have hlookup : (st.answer reader snap index).calls.lookup reader' = st.calls.lookup reader' :=
        AList.lookup_erase_ne hreader
      rw [hlookup] at hcall
      exact h.calls reader' call' hcall
  answers := by
    intro a ha
    rcases List.mem_cons.mp ha with rfl | ha
    · have hknown := h.snapshots snap hsnap
      exact ⟨hknown.pricing.sound, hknown.globalPricing.sound, hindex⟩
    · exact h.answers a ha

theorem skip (h : Inv rows st) :
    Inv (Function.update rows st.nextGeneration .empty)
      { st with nextGeneration := st.nextGeneration + 1 } where
  next_pos := Nat.succ_pos _
  zero := h.zero_mono .empty
  snapshots := fun snap hmem => (h.snapshots snap hmem).mono .empty
  cached := fun _ hc => h.cached_mono .empty hc
  calls := h.calls
  answers := h.answers

theorem call (h : Inv rows st) {reader i : Nat} {snap : Snapshot}
    (hget : st.snapshots[i]? = some snap) :
    Inv rows { st with calls := st.calls.insert reader ⟨i, .start⟩ } := by
  show Inv rows (st.goOn reader ⟨i, .start⟩ .start)
  exact h.goOn hget trivial

theorem callOf_eq_some {reader : Nat} {call : Call} {snap : Snapshot} (h : Inv rows st)
    (hcall : st.callOf reader = some (call, snap)) :
    st.snapshots[call.snapshot]? = some snap ∧ call.stage.Fits snap := by
  obtain ⟨call', hlookup, hmap⟩ := Option.bind_eq_some_iff.mp hcall
  obtain ⟨snap', hget, hpair⟩ := Option.map_eq_some_iff.mp hmap
  cases hpair
  obtain ⟨snap'', hget', hfits⟩ := h.calls reader call hlookup
  cases hget.symm.trans hget'
  exact ⟨hget, hfits⟩

theorem cached_eq (h : Inv rows st) {c : Cached} (hc : st.cached = some c) {snap : Snapshot}
    (hsnap : snap ∈ st.snapshots) (hkey : c.key = snap.indexKey) : c.index = snap.index := by
  obtain ⟨-, -, hindex⟩ := h.cached c hc
  rw [hindex, hkey]
  exact (h.snapshots snap hsnap).index_eq.symm

theorem store (h : Inv rows st) {snap : Snapshot} (hsnap : snap ∈ st.snapshots) :
    Inv rows { st with cached := some ⟨snap.indexKey, snap.index⟩ } where
  next_pos := h.next_pos
  zero := h.zero
  snapshots := h.snapshots
  cached := by
    rintro c ⟨⟩
    have hknown := h.snapshots snap hsnap
    exact ⟨hknown.pricing.stamped, hknown.globalPricing.stamped, hknown.index_eq⟩
  calls := h.calls
  answers := h.answers

theorem start : Inv (fun _ => .empty) start where
  next_pos := Nat.one_pos
  zero := rfl
  snapshots := by
    intro snap hmem
    cases hmem
  cached := by
    intro c hc
    cases hc
  calls := by
    intro reader call hcall
    cases hcall
  answers := by
    intro a ha
    cases ha

theorem step (h : Inv rows st) {act : Act} {st' : State} (hstep : st.step act = some st') :
    ∃ rows', Inv rows' st' := by
  cases act with
  | create =>
    cases hstep
    exact ⟨rows, h.append ⟨Table.known_new h.zero h.next_pos, Table.known_new h.zero h.next_pos⟩⟩
  | clone i =>
    obtain ⟨snap, hget, rfl⟩ := Option.map_eq_some_iff.mp hstep
    have hknown := h.snapshots snap (List.mem_of_getElem? hget)
    rw [hknown.clone_eq]
    exact ⟨rows, h.append hknown⟩
  | insert i isGlobal entry =>
    simp only [State.step] at hstep
    split at hstep
    · cases hstep
    · next hfree =>
      obtain ⟨snap, hget, rfl⟩ := Option.map_eq_some_iff.mp hstep
      have hknown := (h.snapshots snap (List.mem_of_getElem? hget)).table isGlobal
      exact ⟨_, h.change ((Bool.not_eq_true _).mp hfree) hget (hknown.insert entry)⟩
  | remove i isGlobal id =>
    simp only [State.step] at hstep
    split at hstep
    · cases hstep
    · next hfree =>
      obtain ⟨snap, hget, rfl⟩ := Option.map_eq_some_iff.mp hstep
      have hknown := (h.snapshots snap (List.mem_of_getElem? hget)).table isGlobal
      split
      · exact ⟨rows, h⟩
      · next t hremove =>
        exact ⟨_, h.change ((Bool.not_eq_true _).mp hfree) hget (hknown.remove hremove)⟩
  | otherTable =>
    cases hstep
    exact ⟨_, h.skip⟩
  | call reader i =>
    simp only [State.step] at hstep
    split at hstep
    · cases hstep
    · obtain ⟨snap, hget, rfl⟩ := Option.map_eq_some_iff.mp hstep
      exact ⟨rows, h.call hget⟩
  | readPricing reader =>
    obtain ⟨⟨call, snap⟩, hcall, hnext⟩ := Option.bind_eq_some_iff.mp hstep
    obtain ⟨hget, -⟩ := h.callOf_eq_some hcall
    dsimp only at hnext
    split at hnext
    · cases hnext
      exact ⟨rows, h.goOn hget rfl⟩
    · cases hnext
  | readGlobal reader =>
    obtain ⟨⟨call, snap⟩, hcall, hnext⟩ := Option.bind_eq_some_iff.mp hstep
    obtain ⟨hget, hfits⟩ := h.callOf_eq_some hcall
    dsimp only at hnext
    split at hnext
    · next generation hstage =>
      cases hnext
      rw [hstage] at hfits
      exact ⟨rows, h.goOn hget (Prod.ext hfits rfl)⟩
    · cases hnext
  | load reader =>
    obtain ⟨⟨call, snap⟩, hcall, hnext⟩ := Option.bind_eq_some_iff.mp hstep
    obtain ⟨hget, hfits⟩ := h.callOf_eq_some hcall
    dsimp only at hnext
    split at hnext
    · next key hstage =>
      rw [hstage] at hfits
      split at hnext
      · next cached hcached =>
        split at hnext
        · next hkey =>
          cases hnext
          have hsnap := List.mem_of_getElem? hget
          exact ⟨rows, h.answer hsnap (h.cached_eq hcached hsnap (hkey.trans hfits))⟩
        · cases hnext
          exact ⟨rows, h.goOn hget hfits⟩
      · cases hnext
        exact ⟨rows, h.goOn hget hfits⟩
    · cases hnext
  | build reader entries globalEntries =>
    obtain ⟨⟨call, snap⟩, hcall, hnext⟩ := Option.bind_eq_some_iff.mp hstep
    obtain ⟨hget, hfits⟩ := h.callOf_eq_some hcall
    dsimp only at hnext
    split at hnext
    · next key hstage =>
      rw [hstage] at hfits
      split at hnext
      · next hperm =>
        cases hnext
        have hknown := h.snapshots snap (List.mem_of_getElem? hget)
        have hindex :=
          PricingIndex.build_perm hknown.pricing.sound.nodup hknown.globalPricing.sound.nodup
          hperm.1.symm hperm.2.symm
        exact ⟨rows, h.goOn hget ⟨hfits, hindex.symm⟩⟩
      · cases hnext
    · cases hnext
  | store reader =>
    obtain ⟨⟨call, snap⟩, hcall, hnext⟩ := Option.bind_eq_some_iff.mp hstep
    obtain ⟨hget, hfits⟩ := h.callOf_eq_some hcall
    dsimp only at hnext
    split at hnext
    · next key index hstage =>
      cases hnext
      rw [hstage] at hfits
      obtain ⟨rfl, rfl⟩ := hfits
      have hsnap := List.mem_of_getElem? hget
      exact ⟨rows, (h.store hsnap).answer hsnap rfl⟩
    · cases hnext

end Inv

theorem inv_run {acts : List Act} {st : State} (h : Lts.run State.step start acts = some st) :
    ∃ rows, Inv rows st :=
  Lts.run_invariant (I := fun st => ∃ rows, Inv rows st)
    (fun _ _ _ ⟨_, hinv⟩ hstep => hinv.step hstep) ⟨_, .start⟩ h

/-- A listing of a snapshot's two tables, whatever the order. -/
structure Snapshot.Lists (snap : Snapshot) (entries globalEntries : List Entry) : Prop where
  pricing : entries.Perm snap.pricing.entries
  globalPricing : globalEntries.Perm snap.globalPricing.entries

/-- Every index that was returned is the one of its snapshot, in which a key has the price of the
latest document. -/
theorem index_never_stale {acts : List Act} {st : State}
    (h : Lts.run State.step start acts = some st) :
    (∀ a ∈ st.answers, ∀ entries globalEntries, a.snapshot.Lists entries globalEntries →
      a.index = .build entries globalEntries) ∧
    ∀ snap ∈ st.snapshots, snap.pricing.entries = snap.pricing.indices.stored ∧
      snap.globalPricing.entries = snap.globalPricing.indices.stored ∧
      ∀ entries globalEntries, snap.Lists entries globalEntries → ∀ key cost,
        (PricingIndex.build entries globalEntries).get key = some cost ↔
          (∃ e, Greatest snap.pricing.indices.stored key e ∧ cost = costOf e.value) ∨
            (∀ e ∈ snap.pricing.indices.stored, e.value.key ≠ key) ∧
              ∃ e, Greatest snap.globalPricing.indices.stored key e ∧ cost = costOf e.value := by
  obtain ⟨rows, hinv⟩ := inv_run h
  have hbuild : ∀ {snap : Snapshot}, snap.pricing.Sound → snap.globalPricing.Sound →
      ∀ {entries globalEntries}, snap.Lists entries globalEntries →
      PricingIndex.build entries globalEntries = snap.index := by
    intro snap hsound hsound' entries globalEntries hlists
    exact (PricingIndex.build_perm hsound.nodup hsound'.nodup hlists.pricing.symm
      hlists.globalPricing.symm).symm
  constructor
  · intro a ha entries globalEntries hlists
    obtain ⟨hsound, hsound', hindex⟩ := hinv.answers a ha
    rw [hbuild hsound hsound' hlists]
    exact hindex
  · intro snap hsnap
    have hknown := hinv.snapshots snap hsnap
    refine ⟨hknown.pricing.sound.entries_eq, hknown.globalPricing.sound.entries_eq, ?_⟩
    intro entries globalEntries hlists key cost
    rw [hbuild hknown.pricing.sound hknown.globalPricing.sound hlists,
      ← hknown.pricing.sound.entries_eq, ← hknown.globalPricing.sound.entries_eq]
    exact PricingIndex.get_build_eq_some_iff hknown.pricing.sound.nodup
      hknown.globalPricing.sound.nodup

/-- A document of the environment. -/
def override : Entry := ⟨"p1", ⟨"gpt-4o", 1, 2⟩, 7⟩

/-- Two readers, the second with a clone: it is answered with the copy the first one stored. -/
def twoReaders : List Act :=
  [.create, .insert 0 false override, .call 0 0, .readPricing 0, .readGlobal 0, .load 0,
    .build 0 [override] [], .store 0, .clone 0, .call 1 1, .readPricing 1, .readGlobal 1, .load 1]

theorem twoReaders_answers :
    (Lts.run State.step start twoReaders).map (·.answers.length) = some 2 := by
  decide

theorem index_never_stale_twoReaders :
    ∃ st, Lts.run State.step start twoReaders = some st ∧ st.answers.length = 2 ∧
      ∀ a ∈ st.answers, ∀ entries globalEntries, a.snapshot.Lists entries globalEntries →
        a.index = .build entries globalEntries := by
  obtain ⟨st, hst, hlength⟩ := Option.map_eq_some_iff.mp twoReaders_answers
  exact ⟨st, hst, hlength, (index_never_stale hst).1⟩

end Pricing
end Aisix
