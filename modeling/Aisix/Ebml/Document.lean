import Aisix.Ebml
import Mathlib.Data.List.Induction

/-!
# Aisix.Ebml.Document

Well-formed files up to the end of `Info`, whatever follows: the reader uses the duration and the
scale that `Info` holds (`walk_of_head`).
-/

namespace Aisix
namespace Ebml

/-- A number in so many bytes, most significant first. -/
def bigEndianBytes : Nat → Nat → List UInt8
  | 0, _ => []
  | k + 1, n => UInt8.ofNat (n / 256 ^ k) :: bigEndianBytes k (n % 256 ^ k)

/-- A variable-length integer: the length marker, and seven bits a byte. -/
structure Code where
  width : Nat
  bits : Nat
  width_pos : 1 ≤ width
  width_le : width ≤ 8
  bits_lt : bits < 2 ^ (7 * width)

namespace Code

def marked (c : Code) : Nat := 2 ^ (7 * c.width) + c.bits

def bytes (c : Code) : List UInt8 := bigEndianBytes c.width c.marked

/-- All bits set: of unknown size. -/
def IsUnknown (c : Code) : Prop := c.bits = 2 ^ (7 * c.width) - 1

instance (c : Code) : Decidable c.IsUnknown := inferInstanceAs (Decidable (c.bits = _))

end Code

/-- An element of known size. -/
structure Elem where
  id : Code
  size : Code
  body : List UInt8
  sized : size.bits = body.length
  known : ¬ size.IsUnknown

def Elem.bytes (e : Elem) : List UInt8 := e.id.bytes ++ (e.size.bytes ++ e.body)

def encode (es : List Elem) : List UInt8 := es.flatMap Elem.bytes

/-- A file: an EBML header, siblings, and a `Segment` with an `Info` after other children. -/
structure Document where
  header : Elem
  header_id : header.id.bytes = EBML_MAGIC
  siblings : List Elem
  siblings_other : ∀ e ∈ siblings, e.id.marked ≠ ID_SEGMENT
  segmentId : Code
  segment_id : segmentId.marked = ID_SEGMENT
  segmentSize : Code
  children : List Elem
  children_other : ∀ e ∈ children, e.id.marked ≠ ID_INFO
  info : Elem
  info_id : info.id.marked = ID_INFO
  fields : List Elem
  info_body : info.body = encode fields
  /-- What follows `Info` in the segment, and what follows the segment. -/
  rest : List UInt8
  after : List UInt8
  segment_size : segmentSize.IsUnknown ∨
    segmentSize.bits = (encode children ++ info.bytes ++ rest).length

namespace Document

/-- The file up to the end of `Info`. -/
def head (doc : Document) : List UInt8 :=
  encode (doc.header :: doc.siblings) ++
    ((doc.segmentId.bytes ++ doc.segmentSize.bytes) ++ (encode doc.children ++ doc.info.bytes))

def bytes (doc : Document) : List UInt8 := doc.head ++ (doc.rest ++ doc.after)

/-- The elements up to the last one of `Info`. -/
def elements (doc : Document) : Nat :=
  (1 + doc.siblings.length) + 1 + (doc.children.length + 1) + doc.fields.length

/-- The last field of an id. -/
def field (doc : Document) (id : Nat) : Option Elem :=
  (doc.fields.filter fun e => e.id.marked = id).getLast?

end Document

/-! ### Reading back a number -/

theorem length_bigEndianBytes (k n : Nat) : (bigEndianBytes k n).length = k := by
  induction k generalizing n with
  | zero => rfl
  | succ k ih => rw [bigEndianBytes, List.length_cons, ih]

theorem shiftLeft_or (value : Nat) (b : UInt8) :
    value <<< 8 ||| b.toNat = value * 256 + b.toNat := by
  rw [← Nat.shiftLeft_add_eq_or_of_lt (i := 8) b.toNat_lt, Nat.shiftLeft_eq]

theorem bigEndian_bytes (value : Nat) {k n : Nat} (hn : n < 256 ^ k) :
    bigEndian value (bigEndianBytes k n) = value * 256 ^ k + n := by
  induction k generalizing value n with
  | zero =>
    have hzero : n = 0 := by simpa using hn
    rw [hzero]
    simp [bigEndian, bigEndianBytes]
  | succ k ih =>
    have hlead : n / 256 ^ k < 256 := Nat.div_lt_of_lt_mul (by rwa [pow_succ] at hn)
    have hbyte : (UInt8.ofNat (n / 256 ^ k)).toNat = n / 256 ^ k := by
      rw [UInt8.toNat_ofNat']
      exact Nat.mod_eq_of_lt hlead
    have hrest :=
      ih (value * 256 + n / 256 ^ k) (Nat.mod_lt n (Nat.pow_pos (n := k) (by decide : 0 < 256)))
    rw [bigEndianBytes, bigEndian, List.foldl_cons, shiftLeft_or, hbyte]
    rw [bigEndian] at hrest
    rw [hrest, Nat.add_mul, pow_succ, Nat.mul_assoc, Nat.mul_comm 256, Nat.add_assoc,
      Nat.div_add_mod']

theorem Code.marked_lt (c : Code) : c.marked < 256 ^ c.width := by
  have hbits := c.bits_lt
  have hpos := c.width_pos
  have hpow : 2 ^ (7 * c.width) * 2 ≤ 256 ^ c.width := by
    rw [← pow_succ, show (256 : Nat) = 2 ^ 8 from rfl, ← pow_mul]
    exact Nat.pow_le_pow_right (by decide) (by omega)
  unfold Code.marked
  omega

theorem Code.bigEndian_bytes (c : Code) : bigEndian 0 c.bytes = c.marked := by
  rw [Code.bytes, Ebml.bigEndian_bytes 0 c.marked_lt, Nat.zero_mul, Nat.zero_add]

/-- The first byte of a code tells the width, and what is left of it with the marker taken off. -/
theorem Code.lead (c : Code) : ∃ k, c.width = k + 1 ∧ k ≤ 7 ∧ 2 ^ (7 - k) ≤ c.marked / 256 ^ k ∧
    c.marked / 256 ^ k < 2 ^ (8 - k) ∧ c.marked / 256 ^ k % 2 ^ (7 - k) = c.bits / 256 ^ k ∧
    c.marked % 256 ^ k = c.bits % 256 ^ k := by
  obtain ⟨width, bits, hpos, hle, hlt⟩ := c
  unfold Code.marked
  dsimp only
  interval_cases width
  all_goals refine ⟨_, rfl, by decide, ?_⟩
  all_goals norm_num at hlt ⊢
  all_goals omega

theorem leadingZeros_eq {b : UInt8} {k : Nat} (hk : k ≤ 7) (hlow : 2 ^ (7 - k) ≤ b.toNat)
    (hhigh : b.toNat < 2 ^ (8 - k)) : leadingZeros b = k := by
  have hfind : (List.range 8).find? (fun k => decide (2 ^ (7 - k) ≤ b.toNat)) = some k := by
    rw [List.find?_range_eq_some]
    refine ⟨by simpa using hlow, by simp; omega, fun j hj => ?_⟩
    have hpow : 2 ^ (8 - k) ≤ 2 ^ (7 - j) := Nat.pow_le_pow_right (by decide) (by omega)
    simp only [Bool.not_eq_true', decide_eq_false_iff_not]
    omega
  rw [leadingZeros, hfind]
  rfl

theorem Code.length_bytes (c : Code) : c.bytes.length = c.width := length_bigEndianBytes _ _

theorem readVint_code (pre post : List UInt8) (c : Code) :
    readVint (pre ++ (c.bytes ++ post)) pre.length true = .ok ⟨c.marked, c.width⟩ ∧
      readVint (pre ++ (c.bytes ++ post)) pre.length false = .ok ⟨c.bits, c.width⟩ := by
  obtain ⟨k, hwidth, hk, hlow, hhigh, hlead, hrest⟩ := c.lead
  have hpow : 0 < 256 ^ k := Nat.pow_pos (by decide)
  have hbytes :
      c.bytes = UInt8.ofNat (c.marked / 256 ^ k) :: bigEndianBytes k (c.marked % 256 ^ k) := by
    rw [Code.bytes, hwidth, bigEndianBytes]
  have hsmall : 2 ^ (8 - k) ≤ 2 ^ 8 := Nat.pow_le_pow_right (by decide) (Nat.sub_le 8 k)
  have hfirst : (UInt8.ofNat (c.marked / 256 ^ k)).toNat = c.marked / 256 ^ k := by
    rw [UInt8.toNat_ofNat']
    exact Nat.mod_eq_of_lt (Nat.lt_of_lt_of_le hhigh hsmall)
  generalize UInt8.ofNat (c.marked / 256 ^ k) = first at hbytes hfirst
  have hget : (pre ++ (c.bytes ++ post))[pre.length]? = some first := by
    rw [List.getElem?_append_right (Nat.le_refl _), Nat.sub_self, hbytes]
    rfl
  have hne : first ≠ 0 := fun heq => by
    have htwo : 0 < 2 ^ (7 - k) := Nat.pow_pos (by decide)
    rw [heq] at hfirst
    have hzero : (0 : UInt8).toNat = 0 := rfl
    omega
  have hzeros : leadingZeros first = k :=
    leadingZeros_eq hk (by rw [hfirst]; exact hlow) (by rw [hfirst]; exact hhigh)
  have htotal : (pre ++ (c.bytes ++ post)).length = pre.length + (k + 1 + post.length) := by
    rw [List.length_append, List.length_append, c.length_bytes, hwidth]
  have hslice : slice (pre ++ (c.bytes ++ post)) (pre.length + 1) (pre.length + (k + 1)) =
      .ok (bigEndianBytes k (c.marked % 256 ^ k)) := by
    rw [slice_eq_ok (by omega) (by omega), List.take_length_add_append,
      List.drop_length_add_append, hbytes]
    congr 1
    have hlength := length_bigEndianBytes k (c.marked % 256 ^ k)
    rw [List.cons_append, List.take_succ_cons, List.drop_succ_cons, List.drop_zero]
    rw [List.take_append_of_le_length (by omega), List.take_of_length_le (by omega)]
  have hread : ∀ keepMarker, readVint (pre ++ (c.bytes ++ post)) pre.length keepMarker =
      .ok ⟨bigEndian
        (if keepMarker then first.toNat
          else first.toNat &&& (if 8 ≤ k + 1 then 0 else 0xFF >>> (k + 1)))
        (bigEndianBytes k (c.marked % 256 ^ k)), k + 1⟩ := by
    intro keepMarker
    rw [readVint, hget]
    dsimp only
    rw [if_neg hne, hzeros, if_neg (by omega), hslice]
  have hmod : c.marked % 256 ^ k < 256 ^ k := Nat.mod_lt _ hpow
  constructor
  · rw [hread true, if_pos rfl, hfirst, bigEndian_bytes _ hmod, Nat.div_add_mod', hwidth]
  · have hmask : first.toNat &&& (if 8 ≤ k + 1 then 0 else 0xFF >>> (k + 1)) =
        c.bits / 256 ^ k := by
      rw [← hlead, ← hfirst, ← Nat.and_two_pow_sub_one_eq_mod]
      congr 1
      interval_cases k <;> rfl
    rw [hread false, if_neg (by decide), hmask, bigEndian_bytes _ hmod, hrest,
      Nat.div_add_mod', hwidth]

/-! ### Reading back an element -/

theorem Elem.length_bytes (e : Elem) :
    e.bytes.length = e.id.width + (e.size.width + e.body.length) := by
  rw [Elem.bytes, List.length_append, List.length_append, e.id.length_bytes, e.size.length_bytes]

theorem readElement_header (pre post : List UInt8) (id size : Code) {stop : Nat}
    (hfits : (pre ++ (id.bytes ++ (size.bytes ++ post))).length < 2 ^ 63)
    (hstop : pre.length + (id.width + size.width) ≤ stop) :
    readElement (pre ++ (id.bytes ++ (size.bytes ++ post))) pre.length stop =
      if isUnknownSize ⟨size.bits, size.width⟩ then .ok
        ⟨id.marked, pre.length + (id.width + size.width), stop, none⟩
      else .ok ⟨id.marked, pre.length + (id.width + size.width),
        min (pre.length + (id.width + size.width) + size.bits) stop,
        some (min (pre.length + (id.width + size.width) + size.bits) stop)⟩ := by
  have hlength : (pre ++ (id.bytes ++ (size.bytes ++ post))).length =
      pre.length + (id.width + (size.width + post.length)) := by
    rw [List.length_append, List.length_append, List.length_append, id.length_bytes,
      size.length_bytes]
  have hsize := (readVint_code (pre ++ id.bytes) post size).2
  rw [List.append_assoc, List.length_append, id.length_bytes] at hsize
  have hbits : size.bits < 2 ^ 56 :=
    Nat.lt_of_lt_of_le size.bits_lt
      (Nat.pow_le_pow_right (by decide) (Nat.mul_le_mul_left 7 size.width_le))
  have hadd : ∀ a b, a + b < 2 ^ 64 → checkedAdd a b = .ok (a + b) := fun a b h => if_pos h
  unfold readElement
  rw [(readVint_code pre _ id).1, ok_bind, hadd _ _ (by dsimp only; omega), ok_bind, hsize, ok_bind,
    hadd _ _ (by dsimp only; omega), ok_bind, if_neg (by dsimp only; omega)]
  dsimp only
  rw [Nat.add_assoc]
  split
  · rfl
  · rw [hadd _ _ (by omega), ok_bind]

theorem isUnknownSize_iff (c : Code) : isUnknownSize ⟨c.bits, c.width⟩ = true ↔ c.IsUnknown := by
  rw [isUnknownSize, beq_iff_eq, Nat.one_shiftLeft]
  rfl

theorem readElement_elem (pre post : List UInt8) (e : Elem) {stop : Nat}
    (hfits : (pre ++ (e.bytes ++ post)).length < 2 ^ 63)
    (hstop : pre.length + e.bytes.length ≤ stop) :
    readElement (pre ++ (e.bytes ++ post)) pre.length stop =
      .ok ⟨e.id.marked, pre.length + (e.id.width + e.size.width), pre.length + e.bytes.length,
        some (pre.length + e.bytes.length)⟩ := by
  have hbytes : e.bytes ++ post = e.id.bytes ++ (e.size.bytes ++ (e.body ++ post)) := by
    rw [Elem.bytes, List.append_assoc, List.append_assoc]
  have hlength := e.length_bytes
  rw [hbytes] at hfits ⊢
  rw [readElement_header pre _ e.id e.size hfits (by omega),
    if_neg fun h => e.known ((isUnknownSize_iff _).1 h), e.sized]
  have hend : min (pre.length + (e.id.width + e.size.width) + e.body.length) stop = pre.length +
      e.bytes.length := by
    rw [hlength]
    omega
  rw [hend]

section Encoded

variable {pre post data : List UInt8} {stop budget : Nat} {es : List Elem}

theorem encode_cons (e : Elem) (es : List Elem) : encode (e :: es) = e.bytes ++ encode es :=
  List.flatMap_cons

theorem bytes_pos (e : Elem) : 0 < e.bytes.length := by
  have hid := e.id.width_pos
  rw [e.length_bytes]
  omega

theorem findChild_encode {wanted : Nat} (hother : ∀ e ∈ es, e.id.marked ≠ wanted)
    (hfits : (pre ++ (encode es ++ post)).length < 2 ^ 63)
    (hstop : pre.length + (encode es).length ≤ stop) :
    (findChild (pre ++ (encode es ++ post)) stop wanted (es.length + budget) pre.length).2 =
      (findChild (pre ++ (encode es ++ post)) stop wanted budget
      (pre.length + (encode es).length)).2 := by
  induction es generalizing pre with
  | nil => rw [List.length_nil, Nat.zero_add]; rfl
  | cons e es ih =>
    have hpos := bytes_pos e
    have hsplit : pre ++ (encode (e :: es) ++ post) = pre ++ (e.bytes ++ (encode es ++ post)) := by
      rw [encode_cons, List.append_assoc]
    have hshift : pre ++ (e.bytes ++ (encode es ++ post)) = (pre ++ e.bytes) ++
        (encode es ++ post) :=
      (List.append_assoc ..).symm
    rw [hsplit] at hfits ⊢
    rw [encode_cons, List.length_append] at hstop ⊢
    have hinside : pre.length + e.bytes.length ≤ stop := by omega
    have hread := readElement_elem pre (encode es ++ post) e hfits hinside
    have hstep :=
      @findChild_next _ _ _ wanted (es.length + budget) _ _ (by omega) hread
        (hother e List.mem_cons_self) rfl
    have hrest :=
      @ih (pre ++ e.bytes) (fun e' he' => hother e' (List.mem_cons_of_mem e he'))
        (by rwa [← hshift])
      (by rw [List.length_append]; omega)
    rw [List.length_append, ← hshift, Nat.add_assoc] at hrest
    rw [List.length_cons, Nat.add_right_comm, hstep, hrest]

section Info

variable {F : Type} (ops : Floats F)

theorem readInfo_encode (hfits : (pre ++ (encode es ++ post)).length < 2 ^ 63) (duration : Option F)
    (scale : Nat) :
    (readInfo ops (pre ++ (encode es ++ post)) (pre.length + (encode es).length)
      (es.length + budget) pre.length duration scale).2 =
      .ok
        (es.foldl (fun d e => if e.id.marked = ID_DURATION then readFloat ops e.body else d)
        duration,
        es.foldl (fun s e => if e.id.marked = ID_TIMECODE_SCALE then readUint e.body else s)
          scale) := by
  induction es generalizing pre duration scale with
  | nil =>
    have hend : ¬ pre.length < pre.length + (encode []).length := Nat.lt_irrefl _
    rw [readInfo_end ops _ hend]
    rfl
  | cons e es ih =>
    have hpos := bytes_pos e
    have hlength := e.length_bytes
    have hsplit : pre ++ (encode (e :: es) ++ post) = pre ++ (e.bytes ++ (encode es ++ post)) := by
      rw [encode_cons, List.append_assoc]
    have hshift : pre ++ (e.bytes ++ (encode es ++ post)) = (pre ++ e.bytes) ++
        (encode es ++ post) :=
      (List.append_assoc ..).symm
    rw [hsplit] at hfits ⊢
    rw [encode_cons, List.length_append]
    have hinside :
        pre.length + e.bytes.length ≤ pre.length + (e.bytes.length + (encode es).length) := by omega
    have hread := readElement_elem pre (encode es ++ post) e hfits hinside
    have hslice :
        slice (pre ++ (e.bytes ++ (encode es ++ post))) (pre.length + (e.id.width + e.size.width))
        (pre.length + e.bytes.length) = .ok e.body := by
      rw [slice_eq_ok (by omega) (by simp only [List.length_append]; omega),
        List.take_length_add_append, List.take_left]
      have hcodes : pre ++ e.bytes = (pre ++ (e.id.bytes ++ e.size.bytes)) ++ e.body := by
        rw [Elem.bytes, List.append_assoc, List.append_assoc]
      have hstart : (pre ++ (e.id.bytes ++ e.size.bytes)).length = pre.length +
          (e.id.width + e.size.width) := by
        rw [List.length_append, List.length_append, e.id.length_bytes, e.size.length_bytes]
      rw [hcodes, ← hstart, List.drop_left]
    have hrest := @ih (pre ++ e.bytes) (by rwa [← hshift])
      (durationAfter ops ⟨e.id.marked, pre.length + (e.id.width + e.size.width),
        pre.length + e.bytes.length, some (pre.length + e.bytes.length)⟩ e.body duration)
      (scaleAfter ⟨e.id.marked, pre.length + (e.id.width + e.size.width),
        pre.length + e.bytes.length, some (pre.length + e.bytes.length)⟩ e.body scale)
    rw [← hshift, List.length_append, Nat.add_assoc] at hrest
    rw [List.length_cons, Nat.add_right_comm, readInfo_element ops (by omega) hread hslice]
    exact hrest

end Info

end Encoded

theorem foldl_last {α β : Type} (p : α → Prop) [DecidablePred p] (f : α → β) (l : List α) (b : β) :
    l.foldl (fun b a => if p a then f a else b) b =
      ((l.filter fun a => p a).getLast?).elim b f := by
  induction l using List.reverseRecOn with
  | nil => rfl
  | append_singleton l a ih =>
    rw [List.foldl_concat, List.filter_append, ih]
    by_cases h : p a
    · rw [if_pos h, List.filter_cons_of_pos (by simpa using h), List.filter_nil,
        List.getLast?_concat]
      rfl
    · rw [if_neg h, List.filter_cons_of_neg (by simpa using h), List.filter_nil, List.append_nil]

section Reading

variable {F : Type} (ops : Floats F) (doc : Document)

namespace Document

/-- The duration that `Info` holds. -/
def duration : Option F := (doc.field ID_DURATION).bind fun e => readFloat ops e.body

/-- Its scale, or the default. -/
def scale : Nat :=
  (doc.field ID_TIMECODE_SCALE).elim DEFAULT_TIMECODE_SCALE fun e => readUint e.body

end Document

theorem walk_found {input : Input} {segment info : Nat × Nat} {budget left : Nat}
    {duration : Option F} {scale : Nat} (hmagic : EBML_MAGIC.isPrefixOf input.bytes = true)
    (hsegment : (findChild input.bytes input.bytes.length ID_SEGMENT MAX_ELEMENTS 0).2 =
      .ok (segment, budget))
    (hinfo : (findChild input.bytes segment.2 ID_INFO budget segment.1).2 = .ok (info, left))
    (hfields : (readInfo ops input.bytes info.2 left info.1 none DEFAULT_TIMECODE_SCALE).2 =
      .ok (duration, scale)) :
    (walk ops input).2 = lengthOf ops duration scale := by
  unfold walk
  dsimp only
  rw [hmagic]
  cases hw : findChild input.bytes input.bytes.length ID_SEGMENT MAX_ELEMENTS 0 with
  | mk visits r =>
    rw [hw] at hsegment
    obtain rfl : r = _ := hsegment
    cases hw' : findChild input.bytes segment.2 ID_INFO budget segment.1 with
    | mk more r' =>
      rw [hw'] at hinfo
      obtain rfl : r' = _ := hinfo
      cases hw'' : readInfo ops input.bytes info.2 left info.1 none DEFAULT_TIMECODE_SCALE with
      | mk last r'' =>
        rw [hw''] at hfields
        obtain rfl : r'' = _ := hfields
        simp only [Bool.not_true, Bool.false_eq_true, if_false, hw', hw'']

/-- The header of the segment is read, and its body holds the children and `Info`. -/
theorem readElement_segment {input : Input} {tail : List UInt8}
    (htail : doc.head ++ tail = input.bytes) :
    ∃ segment,
      readElement input.bytes (encode (doc.header :: doc.siblings)).length input.bytes.length =
      .ok segment ∧ segment.id = ID_SEGMENT ∧
      segment.bodyStart = (encode (doc.header :: doc.siblings)).length +
        (doc.segmentId.width + doc.segmentSize.width) ∧
      segment.bodyStart + ((encode doc.children).length + doc.info.bytes.length) ≤ segment.bodyEnd ∧
      segment.bodyEnd ≤ input.bytes.length := by
  have hfits := input.fits
  have hdata :
      encode (doc.header :: doc.siblings) ++ (doc.segmentId.bytes ++ (doc.segmentSize.bytes ++
      (encode doc.children ++ doc.info.bytes ++ tail))) = input.bytes := by
    rw [← htail, Document.head]
    simp only [List.append_assoc]
  have hlength := congrArg List.length hdata
  simp only [List.length_append, Code.length_bytes] at hlength
  have hread :=
    @readElement_header (encode (doc.header :: doc.siblings))
      (encode doc.children ++ doc.info.bytes ++ tail)
    doc.segmentId doc.segmentSize input.bytes.length (by rw [hdata]; exact hfits) (by omega)
  rw [hdata, doc.segment_id] at hread
  by_cases hunknown : doc.segmentSize.IsUnknown
  · rw [if_pos ((isUnknownSize_iff _).2 hunknown)] at hread
    exact ⟨_, hread, rfl, rfl, by dsimp only; omega, Nat.le_refl _⟩
  · rw [if_neg fun h => hunknown ((isUnknownSize_iff _).1 h)] at hread
    have hbits := doc.segment_size.resolve_left hunknown
    simp only [List.length_append] at hbits
    exact ⟨_, hread, rfl, rfl, by dsimp only; omega, Nat.min_le_right ..⟩

theorem walk_of_head (hbudget : doc.elements ≤ MAX_ELEMENTS) (input : Input)
    (hhead : doc.head <+: input.bytes) :
    (walk ops input).2 = lengthOf ops (doc.duration ops) doc.scale := by
  obtain ⟨tail, htail⟩ := hhead
  have hfits := input.fits
  obtain ⟨segment, hsegment, hsegmentId, hbodyStart, hinside, hbodyEnd⟩ :=
    readElement_segment doc htail
  obtain ⟨spare, hspare⟩ := Nat.exists_eq_add_of_le hbudget
  have hmax : MAX_ELEMENTS = (doc.header :: doc.siblings).length +
      ((doc.children.length + ((doc.fields.length + spare) + 1)) + 1) := by
    rw [hspare, Document.elements, List.length_cons]
    omega
  -- the file as the elements before the segment, before `Info` and of `Info` see it
  have hsiblings :
      ([] : List UInt8) ++
      (encode (doc.header :: doc.siblings) ++ ((doc.segmentId.bytes ++ doc.segmentSize.bytes) ++
      (encode doc.children ++ doc.info.bytes) ++ tail)) = input.bytes := by
    rw [← htail, Document.head]
    simp only [List.append_assoc, List.nil_append]
  have hchildren :
      (encode (doc.header :: doc.siblings) ++ (doc.segmentId.bytes ++ doc.segmentSize.bytes)) ++
      (encode doc.children ++ (doc.info.bytes ++ tail)) = input.bytes := by
    rw [← htail, Document.head]
    simp only [List.append_assoc]
  have hinfo :
      ((encode (doc.header :: doc.siblings) ++ (doc.segmentId.bytes ++ doc.segmentSize.bytes)) ++
      encode doc.children) ++ (doc.info.bytes ++ tail) = input.bytes := by
    rw [← hchildren]
    simp only [List.append_assoc]
  have hfields :
      (((encode (doc.header :: doc.siblings) ++ (doc.segmentId.bytes ++ doc.segmentSize.bytes)) ++
        encode doc.children) ++ (doc.info.id.bytes ++ doc.info.size.bytes)) ++
      (encode doc.fields ++ tail) = input.bytes := by
    rw [← hinfo, Elem.bytes, doc.info_body]
    simp only [List.append_assoc]
  have hstart :
      (encode (doc.header :: doc.siblings) ++
        (doc.segmentId.bytes ++ doc.segmentSize.bytes)).length =
      segment.bodyStart := by
    rw [hbodyStart, List.length_append, List.length_append, Code.length_bytes, Code.length_bytes]
  have hheader : doc.header.id.marked ≠ ID_SEGMENT := by
    rw [← doc.header.id.bigEndian_bytes, doc.header_id]
    decide
  have hmagic : EBML_MAGIC.isPrefixOf input.bytes = true := by
    rw [List.isPrefixOf_iff_prefix, ← hsiblings, encode_cons, Elem.bytes, doc.header_id]
    simp only [List.nil_append, List.append_assoc]
    exact List.prefix_append _ _
  have hfound : (findChild input.bytes input.bytes.length ID_SEGMENT MAX_ELEMENTS 0).2 =
      .ok ((segment.bodyStart, segment.bodyEnd), doc.children.length +
        ((doc.fields.length + spare) + 1)) := by
    have hother : ∀ e ∈ doc.header :: doc.siblings, e.id.marked ≠ ID_SEGMENT := by
      intro e he
      rcases List.mem_cons.1 he with rfl | he
      · exact hheader
      · exact doc.siblings_other e he
    have hskip := @findChild_encode [] _ input.bytes.length
      ((doc.children.length + ((doc.fields.length + spare) + 1)) + 1) _ ID_SEGMENT hother
        (by rw [hsiblings]; exact hfits)
      (by rw [← hsiblings]; simp only [List.length_append, List.length_nil]; omega)
    rw [hsiblings, ← hmax, List.length_nil, Nat.zero_add] at hskip
    have hpos := doc.segmentId.width_pos
    rw [hskip, findChild_found (by omega) hsegment hsegmentId]
  have hlength := congrArg List.length hinfo
  simp only [List.length_append] at hlength
  have hinfoFound :
      (findChild input.bytes segment.bodyEnd ID_INFO
        (doc.children.length + ((doc.fields.length + spare) + 1))
        segment.bodyStart).2 =
        .ok
        ((segment.bodyStart + (encode doc.children).length +
        (doc.info.id.width + doc.info.size.width), segment.bodyStart +
        (encode doc.children).length + doc.info.bytes.length), doc.fields.length + spare) := by
    have hskip :=
      @findChild_encode
        (encode (doc.header :: doc.siblings) ++ (doc.segmentId.bytes ++ doc.segmentSize.bytes)) _
      segment.bodyEnd ((doc.fields.length + spare) + 1) _ ID_INFO doc.children_other
        (by rw [hchildren]; exact hfits)
      (by rw [hstart]; omega)
    have hread := @readElement_elem
      ((encode (doc.header :: doc.siblings) ++ (doc.segmentId.bytes ++ doc.segmentSize.bytes)) ++
        encode doc.children) tail
      doc.info segment.bodyEnd (by rw [hinfo]; exact hfits)
        (by rw [List.length_append, hstart]; omega)
    rw [hinfo, List.length_append, hstart] at hread
    rw [hchildren, hstart] at hskip
    have hpos : segment.bodyStart + (encode doc.children).length < segment.bodyEnd := by
      have hinfo := bytes_pos doc.info
      omega
    rw [hskip, findChild_found hpos hread doc.info_id]
  have hread :
      (readInfo ops input.bytes (segment.bodyStart + (encode doc.children).length +
      doc.info.bytes.length)
      (doc.fields.length + spare)
        (segment.bodyStart + (encode doc.children).length +
          (doc.info.id.width + doc.info.size.width))
      none DEFAULT_TIMECODE_SCALE).2 = .ok (doc.duration ops, doc.scale) := by
    have hall := @readInfo_encode
      (((encode (doc.header :: doc.siblings) ++ (doc.segmentId.bytes ++ doc.segmentSize.bytes)) ++
        encode doc.children) ++ (doc.info.id.bytes ++ doc.info.size.bytes)) tail spare doc.fields F
        ops (by rw [hfields]; exact hfits) none
      DEFAULT_TIMECODE_SCALE
    have hbody :
        (((encode (doc.header :: doc.siblings) ++ (doc.segmentId.bytes ++ doc.segmentSize.bytes)) ++
          encode doc.children) ++ (doc.info.id.bytes ++ doc.info.size.bytes)).length =
        segment.bodyStart + (encode doc.children).length +
          (doc.info.id.width + doc.info.size.width) := by
      rw [List.length_append, List.length_append, hstart, List.length_append, Code.length_bytes,
        Code.length_bytes]
    have hend :
        segment.bodyStart + (encode doc.children).length +
        (doc.info.id.width + doc.info.size.width) + (encode doc.fields).length = segment.bodyStart +
        (encode doc.children).length + doc.info.bytes.length := by
      rw [Elem.length_bytes, doc.info_body]
      omega
    rw [hfields, hbody, hend, foldl_last, foldl_last] at hall
    rw [hall, Document.duration, Document.scale, Document.field, Document.field]
    congr 2
    cases (doc.fields.filter fun e => e.id.marked = ID_DURATION).getLast? <;> rfl
  exact walk_found ops hmagic hfound hinfoFound hread

theorem durationSeconds_of_head (hbudget : doc.elements ≤ MAX_ELEMENTS) (input : Input)
    (hhead : doc.head <+: input.bytes) :
    durationSeconds ops input = (lengthOf ops (doc.duration ops) doc.scale).toOption :=
  congrArg Except.toOption (walk_of_head ops doc hbudget input hhead)

/-- Every input is walked forward, within its parents and the budget, and without a panic; the
answer for a well-formed file is made of the duration and the scale that its `Info` holds, wherever
the file is cut after `Info` and whatever follows it. -/
theorem durationSeconds_spec :
    (∀ input : Input, Goes input.bytes.length 0 MAX_ELEMENTS (walk ops input)) ∧
      ∀ (doc : Document) (input : Input), doc.elements ≤ MAX_ELEMENTS →
        (input.bytes = doc.bytes ∨ (∃ n, doc.head.length ≤ n ∧ input.bytes = doc.bytes.take n) ∨
          ∃ later, input.bytes = doc.head ++ later) →
        durationSeconds ops input = (lengthOf ops (doc.duration ops) doc.scale).toOption := by
  refine ⟨walk_goes ops,
    fun doc input hbudget hinput => durationSeconds_of_head ops doc hbudget input ?_⟩
  rcases hinput with hwhole | ⟨n, hn, hcut⟩ | ⟨later, hlater⟩
  · rw [hwhole]
    exact List.prefix_append _ _
  · rw [hcut, Document.bytes]
    exact List.prefix_take_iff.2 ⟨List.prefix_append _ _, hn⟩
  · rw [hlater]
    exact List.prefix_append _ _

end Reading

/-! A recording: a segment of unknown size, an element whose body holds the bytes of a duration's
id, and the duration before the scale. -/

def code (width bits : Nat) (h : 1 ≤ width ∧ width ≤ 8 ∧ bits < 2 ^ (7 * width)) : Code :=
  ⟨width, bits, h.1, h.2.1, h.2.2⟩

def recording : Document where
  header := ⟨code 4 0xA45DFA3 (by decide), code 1 0 (by decide), [], rfl, by decide⟩
  header_id := by decide
  siblings := []
  siblings_other := fun _ h => absurd h List.not_mem_nil
  segmentId := code 4 0x8538067 (by decide)
  segment_id := by decide
  segmentSize := code 1 127 (by decide)
  children :=
    [⟨code 1 0x6C (by decide), code 1 4 (by decide), [0x44, 0x89, 0x81, 7], rfl, by decide⟩]
  children_other := by decide
  info :=
    ⟨code 4 0x549A966 (by decide), code 1 14 (by decide),
      [0x44, 0x89, 0x84, 0, 0, 0, 9, 0x2A, 0xD7, 0xB1, 0x83, 15, 66, 64],
    rfl, by decide⟩
  info_id := by decide
  fields := [⟨code 2 0x489 (by decide), code 1 4 (by decide), [0, 0, 0, 9], rfl, by decide⟩,
    ⟨code 3 0xAD7B1 (by decide), code 1 3 (by decide), [15, 66, 64], rfl, by decide⟩]
  info_body := by decide
  rest := [0x1F, 0x43]
  after := []
  segment_size := .inl (by decide)

/-- Ticks as whole numbers. -/
def wholeTicks : Floats Nat := ⟨bigEndian 0, (0 < ·), fun ticks scale => ticks * scale / 1000000⟩

def upload : Input := ⟨recording.bytes, by decide⟩

theorem durationSeconds_upload : durationSeconds wholeTicks upload = some 9 :=
  (durationSeconds_spec wholeTicks).2 recording upload (by decide) (.inl rfl)

end Ebml
end Aisix
