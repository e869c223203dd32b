import Mathlib.Data.List.Basic
import Mathlib.Tactic.IntervalCases

/-!
# Aisix.Ebml

The reader of a WebM file's length: the elements of the file, of its `Segment` and of its `Info` are
walked by the sizes they declare. `walk_goes`: no input makes it read outside, and it goes forward
within what it may visit.
-/

namespace Aisix
namespace Ebml

/-- An upload; no buffer is longer than half the address space. -/
structure Input where
  bytes : List UInt8
  fits : bytes.length < 2 ^ 63

def EBML_MAGIC : List UInt8 := [0x1A, 0x45, 0xDF, 0xA3]

def ID_SEGMENT : Nat := 0x18538067
def ID_INFO : Nat := 0x1549A966
def ID_DURATION : Nat := 0x4489
def ID_TIMECODE_SCALE : Nat := 0x2AD7B1

def DEFAULT_TIMECODE_SCALE : Nat := 1000000

def MAX_ELEMENTS : Nat := 8192

/-- Why there is no answer: the input is declined, or the program would panic. -/
inductive Halt where
  | declined
  | panic
  deriving DecidableEq

abbrev Read := Except Halt

/-- `&data[a..b]`. -/
def slice (data : List UInt8) (a b : Nat) : Read (List UInt8) :=
  if a ≤ b ∧ b ≤ data.length then .ok ((data.take b).drop a) else .error .panic

/-- `usize::checked_add`, declined where it fails. -/
def checkedAdd (a b : Nat) : Read Nat := if a + b < 2 ^ 64 then .ok (a + b) else .error .declined

/-- A variable-length integer and its width. -/
structure VInt where
  value : Nat
  width : Nat

def leadingZeros (b : UInt8) : Nat := ((List.range 8).find? fun k => 2 ^ (7 - k) ≤ b.toNat).getD 8

/-- The bytes after a first value, most significant first. -/
def bigEndian (value : Nat) (bytes : List UInt8) : Nat :=
  bytes.foldl (fun value b => value <<< 8 ||| b.toNat) value

def readVint (data : List UInt8) (pos : Nat) (keepMarker : Bool) : Read VInt :=
  match data[pos]? with
  | none => .error .declined
  | some first =>
    if first = 0 then .error .declined
    else
      let width := leadingZeros first + 1
      if 8 < width ∨ data.length < pos + width then .error .declined
      else
        let value :=
          if keepMarker then first.toNat
          else first.toNat &&& (if 8 ≤ width then 0 else 0xFF >>> width)
        match slice data (pos + 1) (pos + width) with
        | .error e => .error e
        | .ok rest => .ok ⟨bigEndian value rest, width⟩

def isUnknownSize (size : VInt) : Bool := size.value == 1 <<< (7 * size.width) - 1

/-- An element header: the bounds of the body, and where the next sibling starts if the size is
known. -/
structure Element where
  id : Nat
  bodyStart : Nat
  bodyEnd : Nat
  next : Option Nat

def readElement (data : List UInt8) (pos parentEnd : Nat) : Read Element := do
  let id ← readVint data pos true
  let sizePos ← checkedAdd pos id.width
  let size ← readVint data sizePos false
  let bodyStart ← checkedAdd sizePos size.width
  if bodyStart > parentEnd then .error .declined
  else if isUnknownSize size then .ok ⟨id.value, bodyStart, parentEnd, none⟩
  else
    let declared ← checkedAdd bodyStart size.value
    let bodyEnd := min declared parentEnd
    .ok ⟨id.value, bodyStart, bodyEnd, some bodyEnd⟩

/-- An element the walk came to: where, within what, and its end if its header could be read. -/
structure Visit where
  pos : Nat
  parentEnd : Nat
  bodyEnd : Option Nat

/-- The elements visited, which the program does not record, and the outcome. -/
abbrev Walk (α : Type) := List Visit × Read α

def visit (pos parentEnd : Nat) (read : Read Element) : Visit :=
  ⟨pos, parentEnd, read.toOption.map Element.bodyEnd⟩

/-- Scans children for `wanted`: its body, and what is left of the budget, which bounds the
recursion. -/
def findChild (data : List UInt8) (stop wanted : Nat) : Nat → Nat → Walk ((Nat × Nat) × Nat)
  | 0, _ => ([], .error .declined)
  | budget + 1, pos =>
    if pos < stop then
      let read := readElement data pos stop
      let here := visit pos stop read
      match read with
      | .error e => ([here], .error e)
      | .ok element =>
        if element.id = wanted then ([here], .ok ((element.bodyStart, element.bodyEnd), budget))
        else
          match element.next with
          | none => ([here], .error .declined)
          | some next =>
            let (visits, found) := findChild data stop wanted budget next
            (here :: visits, found)
    else ([], .error .declined)

/-- Floating-point numbers, as far as the reader uses them. -/
structure Floats (F : Type) where
  ofBytes : List UInt8 → F
  usable : F → Bool
  seconds : F → Nat → F

section Reader

variable {F : Type} (ops : Floats F)

def readFloat (body : List UInt8) : Option F :=
  if body.length = 4 ∨ body.length = 8 then some (ops.ofBytes body) else none

def readUint (body : List UInt8) : Nat :=
  if body.isEmpty ∨ 8 < body.length then DEFAULT_TIMECODE_SCALE else bigEndian 0 body

/-- The children of `Info`: its duration and scale, the last of each. -/
def readInfo (data : List UInt8) (stop : Nat) : Nat → Nat → Option F → Nat → Walk (Option F × Nat)
  | 0, pos, duration, scale =>
    if pos < stop then ([], .error .declined) else ([], .ok (duration, scale))
  | budget + 1, pos, duration, scale =>
    if pos < stop then
      let read := readElement data pos stop
      let here := visit pos stop read
      match read with
      | .error e => ([here], .error e)
      | .ok element =>
        match slice data element.bodyStart element.bodyEnd with
        | .error e => ([here], .error e)
        | .ok body =>
          let duration := if element.id = ID_DURATION then readFloat ops body else duration
          let scale := if element.id = ID_TIMECODE_SCALE then readUint body else scale
          match element.next with
          | none => ([here], .error .declined)
          | some next =>
            let (visits, info) := readInfo data stop budget next duration scale
            (here :: visits, info)
    else ([], .ok (duration, scale))

/-- The length that ticks and scale make. -/
def lengthOf (duration : Option F) (scale : Nat) : Read F :=
  match duration with
  | none => .error .declined
  | some ticks =>
    if !ops.usable ticks || scale == 0 then .error .declined
    else if ops.usable (ops.seconds ticks scale) then .ok (ops.seconds ticks scale)
    else .error .declined

def walk (input : Input) : Walk F :=
  let data := input.bytes
  if !EBML_MAGIC.isPrefixOf data then ([], .error .declined)
  else
    match findChild data data.length ID_SEGMENT MAX_ELEMENTS 0 with
    | (visits, .error e) => (visits, .error e)
    | (visits, .ok (segment, budget)) =>
      match findChild data segment.2 ID_INFO budget segment.1 with
      | (more, .error e) => (visits ++ more, .error e)
      | (more, .ok (info, budget)) =>
        match readInfo ops data info.2 budget info.1 none DEFAULT_TIMECODE_SCALE with
        | (last, .error e) => (visits ++ more ++ last, .error e)
        | (last, .ok (duration, scale)) => (visits ++ more ++ last, lengthOf ops duration scale)

/-- Seconds of audio, where the header can be read. -/
def durationSeconds (input : Input) : Option F := (walk ops input).2.toOption

end Reader

/-! ### No input leads it astray -/

/-- A visit within its parent and the input; a body that was found begins later and ends within the
parent. -/
structure Visit.Within (v : Visit) (size : Nat) : Prop where
  starts : v.pos < v.parentEnd
  parent : v.parentEnd ≤ size
  ends : ∀ e, v.bodyEnd = some e → v.pos < e ∧ e ≤ v.parentEnd

/-- A walk from `start` on: ever later, within the input and the budget, and without a panic. -/
structure Goes (size start budget : Nat) {α : Type} (w : Walk α) : Prop where
  later : w.1.Pairwise fun a b => a.pos < b.pos
  within : ∀ v ∈ w.1, start ≤ v.pos ∧ v.Within size
  few : w.1.length ≤ budget
  no_panic : w.2 ≠ .error .panic

section Total

variable {data : List UInt8} {pos stop : Nat}

theorem slice_eq_ok {a b : Nat} (hab : a ≤ b) (hb : b ≤ data.length) :
    slice data a b = .ok ((data.take b).drop a) :=
  if_pos ⟨hab, hb⟩

theorem checkedAdd_spec (a b : Nat) :
    checkedAdd a b = .error .declined ∨ checkedAdd a b = .ok (a + b) := by
  unfold checkedAdd
  split
  · exact .inr rfl
  · exact .inl rfl

@[simp] theorem ok_bind {α β : Type} (a : α) (f : α → Read β) : (Except.ok a >>= f) = f a := rfl

theorem readVint_spec (data : List UInt8) (pos : Nat) (keepMarker : Bool) :
    readVint data pos keepMarker = .error .declined ∨
      ∃ v, readVint data pos keepMarker = .ok v ∧ 1 ≤ v.width ∧ v.width ≤ 8 ∧
        pos + v.width ≤ data.length := by
  unfold readVint
  split
  · exact .inl rfl
  · next first hfirst =>
    split
    · exact .inl rfl
    · dsimp only
      split
      · exact .inl rfl
      · next hwidth =>
        rw [slice_eq_ok (by omega) (by omega)]
        exact .inr ⟨_, rfl, by simp only; omega, by simp only; omega, by simp only; omega⟩

/-- What an element header tells lies within the parent, and the next element lies behind it. -/
theorem readElement_spec (data : List UInt8) (pos stop : Nat) :
    readElement data pos stop = .error .declined ∨
      ∃ el, readElement data pos stop = .ok el ∧ pos < el.bodyStart ∧ el.bodyStart ≤ el.bodyEnd ∧
        el.bodyEnd ≤ stop ∧ ∀ next, el.next = some next → next = el.bodyEnd := by
  unfold readElement
  rcases readVint_spec data pos true with hid | ⟨id, hid, hidPos, -, -⟩
  · rw [hid]
    exact .inl rfl
  rw [hid, ok_bind]
  rcases checkedAdd_spec pos id.width with hadd | hadd
  · rw [hadd]
    exact .inl rfl
  rw [hadd, ok_bind]
  rcases readVint_spec data (pos + id.width) false with hsize | ⟨size, hsize, hsizePos, -, -⟩
  · rw [hsize]
    exact .inl rfl
  rw [hsize, ok_bind]
  rcases checkedAdd_spec (pos + id.width) size.width with hstart | hstart
  · rw [hstart]
    exact .inl rfl
  rw [hstart, ok_bind]
  split
  · exact .inl rfl
  · next hinside =>
    split
    · exact .inr
        ⟨_,
        rfl, by
        simp only; omega, by simp only; omega, Nat.le_refl stop, fun next hnext => by cases hnext⟩
    · rcases checkedAdd_spec (pos + id.width + size.width) size.value with hend | hend
      · rw [hend]
        exact .inl rfl
      · rw [hend, ok_bind]
        exact .inr
          ⟨_, rfl, by simp only; omega, by simp only; omega, Nat.min_le_right .., fun next hnext =>
          (Option.some.inj hnext).symm⟩

theorem visit_within (hpos : pos < stop) (hstop : stop ≤ data.length) :
    (visit pos stop (readElement data pos stop)).Within data.length := by
  refine ⟨hpos, hstop, fun e he => ?_⟩
  rcases readElement_spec data pos stop with h | ⟨el, h, hstart, hbody, hend, -⟩
  · rw [visit, h] at he
    cases he
  · rw [visit, h] at he
    obtain rfl := Option.some.inj he
    exact ⟨Nat.lt_of_lt_of_le hstart hbody, hend⟩

theorem goes_single {α : Type} {budget : Nat} {r : Read α} (hpos : pos < stop)
    (hstop : stop ≤ data.length) (hr : r ≠ .error .panic) :
    Goes data.length pos (budget + 1) ([visit pos stop (readElement data pos stop)], r) where
  later := List.pairwise_singleton _ _
  within := by
    intro v hv
    rw [List.mem_singleton.1 hv]
    exact ⟨Nat.le_refl pos, visit_within hpos hstop⟩
  few := Nat.succ_le_succ (Nat.zero_le budget)
  no_panic := hr

theorem Goes.cons {α : Type} {budget next : Nat} {w : Walk α} (hpos : pos < stop)
    (hstop : stop ≤ data.length) (hnext : pos < next) (h : Goes data.length next budget w) :
    Goes data.length pos (budget + 1) (visit pos stop (readElement data pos stop) :: w.1, w.2) where
  later := List.pairwise_cons.2 ⟨fun v hv => Nat.lt_of_lt_of_le hnext (h.within v hv).1, h.later⟩
  within := by
    intro v hv
    rcases List.mem_cons.1 hv with rfl | hv
    · exact ⟨Nat.le_refl pos, visit_within hpos hstop⟩
    · obtain ⟨hle, hwithin⟩ := h.within v hv
      exact ⟨by omega, hwithin⟩
  few := Nat.succ_le_succ h.few
  no_panic := h.no_panic

theorem goes_nil {α : Type} {budget : Nat} {r : Read α} (hr : r ≠ .error .panic) :
    Goes data.length pos budget (([], r) : Walk α) :=
  ⟨.nil, fun _ hv => absurd hv List.not_mem_nil, Nat.zero_le _, hr⟩

theorem declined_ne_panic {α : Type} : (Except.error Halt.declined : Read α) ≠ .error .panic :=
  fun h => by cases h

theorem ok_ne_panic {α : Type} (a : α) : (Except.ok a : Read α) ≠ .error .panic :=
  fun h => by cases h

/-! The four ways a scan goes on at an element. -/

theorem findChild_declined {wanted budget : Nat} {e : Halt} (hpos : pos < stop)
    (h : readElement data pos stop = .error e) :
    findChild data stop wanted (budget + 1) pos =
      ([visit pos stop (readElement data pos stop)], .error e) := by
  rw [findChild, if_pos hpos, h]

theorem findChild_found {wanted budget : Nat} {el : Element} (hpos : pos < stop)
    (h : readElement data pos stop = .ok el)
    (hid : el.id = wanted) : findChild data stop wanted (budget + 1) pos =
      ([visit pos stop (readElement data pos stop)], .ok ((el.bodyStart, el.bodyEnd), budget)) := by
  rw [findChild, if_pos hpos, h]
  exact if_pos hid

theorem findChild_unknown {wanted budget : Nat} {el : Element} (hpos : pos < stop)
    (h : readElement data pos stop = .ok el)
    (hid : el.id ≠ wanted) (hnext : el.next = none) : findChild data stop wanted (budget + 1) pos =
      ([visit pos stop (readElement data pos stop)], .error .declined) := by
  rw [findChild, if_pos hpos, h]
  dsimp only
  rw [if_neg hid, hnext]

theorem findChild_next {wanted budget next : Nat} {el : Element} (hpos : pos < stop)
    (h : readElement data pos stop = .ok el) (hid : el.id ≠ wanted) (hnext : el.next = some next) :
    findChild data stop wanted (budget + 1) pos =
      (visit pos stop (readElement data pos stop) :: (findChild data stop wanted budget next).1,
        (findChild data stop wanted budget next).2) := by
  rw [findChild, if_pos hpos, h]
  dsimp only
  rw [if_neg hid, hnext]

theorem findChild_end {wanted budget : Nat} (hpos : ¬ pos < stop) :
    findChild data stop wanted budget pos = ([], .error .declined) := by
  cases budget with
  | zero => rfl
  | succ budget => rw [findChild, if_neg hpos]

/-- Scanning for a child: what it finds lies behind every visit, and the budget counts the visits.
-/
theorem findChild_goes (hstop : stop ≤ data.length) (wanted budget pos : Nat) :
    Goes data.length pos budget (findChild data stop wanted budget pos) ∧
      ∀ range left, (findChild data stop wanted budget pos).2 = .ok (range, left) →
        (findChild data stop wanted budget pos).1.length + left = budget ∧ pos < range.1 ∧
        (∀ v ∈ (findChild data stop wanted budget pos).1, v.pos < range.1) ∧ range.1 ≤ range.2 ∧
          range.2 ≤ stop := by
  induction budget generalizing pos with
  | zero => exact ⟨goes_nil declined_ne_panic, fun range left h => by cases h⟩
  | succ budget ih =>
    by_cases hpos : pos < stop
    · rcases readElement_spec data pos stop with h | ⟨el, h, hstart, hbody, hend, hnext⟩
      · rw [findChild_declined hpos h]
        exact ⟨goes_single hpos hstop declined_ne_panic, fun range left h => by cases h⟩
      by_cases hid : el.id = wanted
      · rw [findChild_found hpos h hid]
        refine ⟨goes_single hpos hstop (ok_ne_panic _), fun range left hfound => ?_⟩
        obtain ⟨rfl, rfl⟩ := Prod.mk.inj (Except.ok.inj hfound)
        refine ⟨Nat.add_comm 1 budget, hstart, fun v hv => ?_, hbody, hend⟩
        rw [List.mem_singleton.1 hv]
        exact hstart
      cases hsome : el.next with
      | none =>
        rw [findChild_unknown hpos h hid hsome]
        exact ⟨goes_single hpos hstop declined_ne_panic, fun range left h => by cases h⟩
      | some next =>
        have hlater : pos < next := by
          rw [hnext next hsome]
          omega
        obtain ⟨hgoes, hfound⟩ := ih next
        rw [findChild_next hpos h hid hsome]
        refine ⟨hgoes.cons hpos hstop hlater, fun range left hok => ?_⟩
        obtain ⟨hlength, hstarts, hbefore, hrange⟩ := hfound range left hok
        have hpos' : pos < range.1 := Nat.lt_trans hlater hstarts
        refine ⟨?_, hpos', fun v hv => ?_, hrange⟩
        · rw [List.length_cons, Nat.add_right_comm, hlength]
        · rcases List.mem_cons.1 hv with rfl | hv
          · exact hpos'
          · exact hbefore v hv
    · rw [findChild_end hpos]
      exact ⟨goes_nil declined_ne_panic, fun range left h => by cases h⟩

section Info

variable {F : Type} (ops : Floats F) {duration : Option F} {scale : Nat}

def durationAfter (el : Element) (body : List UInt8) (duration : Option F) : Option F :=
  if el.id = ID_DURATION then readFloat ops body else duration

def scaleAfter (el : Element) (body : List UInt8) (scale : Nat) : Nat :=
  if el.id = ID_TIMECODE_SCALE then readUint body else scale

theorem readInfo_declined {budget : Nat} {e : Halt} (hpos : pos < stop)
    (h : readElement data pos stop = .error e) :
    readInfo ops data stop (budget + 1) pos duration scale =
      ([visit pos stop (readElement data pos stop)], .error e) := by
  rw [readInfo, if_pos hpos, h]

theorem readInfo_element {budget : Nat} {el : Element} {body : List UInt8} (hpos : pos < stop)
    (h : readElement data pos stop = .ok el)
    (hslice : slice data el.bodyStart el.bodyEnd = .ok body) :
    readInfo ops data stop (budget + 1) pos duration scale =
      match el.next with
      | none => ([visit pos stop (readElement data pos stop)], .error .declined)
      | some next =>
        (visit pos stop (readElement data pos stop) ::
            (readInfo ops data stop budget next (durationAfter ops el body duration)
              (scaleAfter el body scale)).1,
          (readInfo ops data stop budget next (durationAfter ops el body duration)
            (scaleAfter el body scale)).2) := by
  rw [readInfo, if_pos hpos, h]
  dsimp only
  rw [hslice]
  cases el.next <;> rfl

theorem readInfo_end (budget : Nat) (hpos : ¬ pos < stop) :
    readInfo ops data stop budget pos duration scale = ([], .ok (duration, scale)) := by
  cases budget with
  | zero => exact if_neg hpos
  | succ budget => rw [readInfo, if_neg hpos]

theorem readInfo_goes (hstop : stop ≤ data.length) (budget pos : Nat) (duration : Option F)
    (scale : Nat) :
    Goes data.length pos budget (readInfo ops data stop budget pos duration scale) := by
  induction budget generalizing pos duration scale with
  | zero =>
    unfold readInfo
    split
    · exact goes_nil declined_ne_panic
    · exact goes_nil (ok_ne_panic _)
  | succ budget ih =>
    by_cases hpos : pos < stop
    · rcases readElement_spec data pos stop with h | ⟨el, h, hstart, hbody, hend, hnext⟩
      · rw [readInfo_declined ops hpos h]
        exact goes_single hpos hstop declined_ne_panic
      rw [readInfo_element ops hpos h (slice_eq_ok hbody (Nat.le_trans hend hstop))]
      cases hsome : el.next with
      | none => exact goes_single hpos hstop declined_ne_panic
      | some next =>
        refine (ih next _ _).cons hpos hstop ?_
        rw [hnext next hsome]
        exact Nat.lt_of_lt_of_le hstart hbody
    · rw [readInfo_end ops _ hpos]
      exact goes_nil (ok_ne_panic _)

theorem lengthOf_ne_panic (duration : Option F) (scale : Nat) :
    lengthOf ops duration scale ≠ .error .panic := by
  unfold lengthOf
  split
  · exact declined_ne_panic
  · split
    · exact declined_ne_panic
    · split
      · exact ok_ne_panic _
      · exact declined_ne_panic

theorem Goes.append {α β : Type} {size start mid budget left : Nat} {w : Walk α} {w' : Walk β}
    (h : Goes size start budget w) (h' : Goes size mid left w')
    (hbudget : w.1.length + left ≤ budget) (hmid : start ≤ mid)
    (hbefore : ∀ v ∈ w.1, v.pos < mid) : Goes size start budget (w.1 ++ w'.1, w'.2) where
  later := List.pairwise_append.2 ⟨h.later, h'.later, fun v hv v' hv' =>
    Nat.lt_of_lt_of_le (hbefore v hv) (h'.within v' hv').1⟩
  within := by
    intro v hv
    rcases List.mem_append.1 hv with hv | hv
    · exact h.within v hv
    · exact ⟨Nat.le_trans hmid (h'.within v hv).1, (h'.within v hv).2⟩
  few := by
    have hfew := h'.few
    rw [List.length_append]
    omega
  no_panic := h'.no_panic

theorem Goes.map {α β : Type} {size start budget : Nat} {visits : List Visit} {r : Read α}
    {r' : Read β} (h : Goes size start budget (visits, r)) (hr : r' ≠ .error .panic) :
    Goes size start budget (visits, r') :=
  ⟨h.later, h.within, h.few, hr⟩

/-- No input makes the reader panic or read outside; it visits no more elements than it may, each
behind the last one and within its parent. -/
theorem walk_goes (input : Input) : Goes input.bytes.length 0 MAX_ELEMENTS (walk ops input) := by
  unfold walk
  dsimp only
  split
  · exact goes_nil declined_ne_panic
  obtain ⟨hsegment, hfound⟩ :=
    findChild_goes (Nat.le_refl input.bytes.length) ID_SEGMENT MAX_ELEMENTS 0
  cases hw : findChild input.bytes input.bytes.length ID_SEGMENT MAX_ELEMENTS 0 with
  | mk visits r =>
    rw [hw] at hsegment hfound
    cases r with
    | error e => exact hsegment.map fun heq => hsegment.no_panic (by rw [Except.error.inj heq])
    | ok found =>
      obtain ⟨segment, budget⟩ := found
      obtain ⟨hlength, hstart, hbefore, -, hend⟩ := hfound _ _ rfl
      obtain ⟨hinfo, hfound'⟩ := findChild_goes hend ID_INFO budget segment.1
      have hboth := hsegment.append hinfo (Nat.le_of_eq hlength) (Nat.zero_le _) hbefore
      dsimp only
      cases hw' : findChild input.bytes segment.2 ID_INFO budget segment.1 with
      | mk more r' =>
        rw [hw'] at hboth hfound'
        cases r' with
        | error e => exact hboth.map fun heq => hboth.no_panic (by rw [Except.error.inj heq])
        | ok found =>
          obtain ⟨info, left⟩ := found
          obtain ⟨hlength', hstart', hbefore', -, hend'⟩ := hfound' _ _ rfl
          have hlast :=
            readInfo_goes ops (Nat.le_trans hend' hend) left info.1 none DEFAULT_TIMECODE_SCALE
          have hall :=
            hboth.append hlast (by rw [List.length_append]; omega) (Nat.zero_le _) fun v hv => by
            rcases List.mem_append.1 hv with hv | hv
            · exact Nat.lt_trans (hbefore v hv) hstart'
            · exact hbefore' v hv
          dsimp only
          cases hw'' : readInfo ops input.bytes info.2 left info.1 none DEFAULT_TIMECODE_SCALE with
          | mk last r'' =>
            rw [hw''] at hall
            cases r'' with
            | error e => exact hall.map fun heq => hall.no_panic (by rw [Except.error.inj heq])
            | ok found => exact hall.map (lengthOf_ne_panic ops found.1 found.2)

end Info

end Total

end Ebml
end Aisix
