import Aisix.Base64
import Mathlib.Algebra.Order.Ring.Nat
import Mathlib.Data.Set.Basic

/-!
# Aisix.OpaqueId.Sealer

The reversible seal of a Responses id: a readable prefix, then base64 of a nonce and of the padded
id under an authenticated cipher, whose associated data are the owner, the kind of id and the
prefix.

* `openAs_iff` — one attempt opens what was sealed for the owner, as the kind, behind the prefix it
  is given.
* `unseal_iff` — a text unseals to `id` exactly when it is the seal of `id` for the owner, as the
  kind.
-/

namespace Aisix
namespace OpaqueId

abbrev Bytes := List UInt8

/-- `ring`: HMAC-SHA256, as a key derivation and as a tag, and AES-256-GCM with the tag appended. -/
structure Crypto (Key : Type) where
  derive : Key → String → Key
  mac : Key → Bytes → Bytes
  sealInPlace : Key → Bytes → Bytes → Bytes → Bytes
  openInPlace : Key → Bytes → Bytes → Bytes → Option Bytes

def asBytes (s : String) : Bytes := s.toUTF8.data.toList

def fromUtf8 (bytes : Bytes) : Option String := String.fromUTF8? ⟨bytes.toArray⟩

theorem fromUtf8_asBytes (s : String) : fromUtf8 (asBytes s) = some s := by
  simp [fromUtf8, asBytes, String.fromUTF8?, s.isValidUTF8, String.fromUTF8]

theorem asBytes_inj {s t : String} (h : asBytes s = asBytes t) : s = t := by
  have hsome := fromUtf8_asBytes s
  rw [h, fromUtf8_asBytes] at hsome
  exact (Option.some.inj hsome).symm

theorem length_asBytes (s : String) : (asBytes s).length = s.utf8ByteSize := by
  rw [asBytes, Array.length_toList]
  rfl

theorem utf8ByteSize_ascii {text : List Char} (h : ∀ c ∈ text, c.toNat < 128) :
    (String.ofList text).utf8ByteSize = text.length := by
  have hsize : ∀ l : List Char, (∀ c ∈ l, c.toNat < 128) → l.utf8Encode.size = l.length := by
    intro l hl
    induction l with
    | nil => rfl
    | cons c l ih =>
      have hc : c.val ≤ 127 := UInt32.le_iff_toNat_le.mpr (Nat.le_of_lt_succ (hl c (by simp)))
      rw [List.utf8Encode_cons, ByteArray.size_append, List.utf8Encode_singleton,
        List.size_toByteArray, String.length_utf8EncodeChar, Char.utf8Size_eq_one_iff.mpr hc,
        ih fun d hd => hl d (by simp [hd]), List.length_cons, Nat.add_comm]
  rw [String.utf8ByteSize, String.toByteArray_ofList]
  exact hsize text h

def MAX_KEPT_PREFIX : Nat := 16

def CALL_PREFIX : String := "call_"

def NONCE_LEN : Nat := 12

def MAX_TAG_LEN : Nat := 16

def SEAL_BUCKET : Nat := 64

def MIN_SEALED_LEN : Nat := ((NONCE_LEN + SEAL_BUCKET + MAX_TAG_LEN) * 4 + 2) / 3

inductive IdKind where
  | item
  | call
  deriving DecidableEq, Repr

def IdKind.label : IdKind → UInt8
  | .item => 0x69
  | .call => 0x63

def isAsciiAlphanumeric (c : Char) : Bool :=
  let v := c.toNat
  (0x30 ≤ v && v ≤ 0x39) || (0x41 ≤ v && v ≤ 0x5A) || (0x61 ≤ v && v ≤ 0x7A)

/-- The text before the first `_` and the text behind it. -/
def splitUnderscore (id : String) : Option (List Char × List Char) :=
  match id.toList.dropWhile (· ≠ '_') with
  | [] => none
  | _ :: rest => some (id.toList.takeWhile (· ≠ '_'), rest)

def keptPrefix (id : String) : String :=
  match splitUnderscore id with
  | some (head, _) =>
    let size := (String.ofList head).utf8ByteSize
    if 1 ≤ size ∧ size ≤ MAX_KEPT_PREFIX ∧
      head.all isAsciiAlphanumeric then String.ofList (head ++ ['_'])
    else ""
  | none => ""

def IdKind.shownPrefix : IdKind → String → String
  | .item, id => keptPrefix id
  | .call, _ => CALL_PREFIX

def padTo (data : String) (bucket : Nat) : Bytes :=
  let paddedLen := (data.utf8ByteSize + 1 + (bucket - 1)) / bucket * bucket
  asBytes data ++ 0x80 :: List.replicate (paddedLen - (data.utf8ByteSize + 1)) 0

def pad (id : String) : Bytes := padTo id SEAL_BUCKET

def unpad (padded : Bytes) : Option Bytes :=
  match padded.reverse.dropWhile (· == 0) with
  | [] => none
  | marker :: data => if marker = 0x80 then some data.reverse else none

/-- The tenant that ids are handed to. A Rust string is shorter than its 64-bit length field can
say. -/
structure Owner where
  text : String
  fits : text.utf8ByteSize < 2 ^ 64

/-- `to_be_bytes`, in the given number of bytes. -/
def toBeBytes : Nat → Nat → Bytes
  | 0, _ => []
  | width + 1, n => toBeBytes width (n / 256) ++ [.ofNat (n % 256)]

def Owner.bytes (owner : Owner) : Bytes := toBeBytes 8 owner.text.utf8ByteSize ++ asBytes owner.text

structure SealKeys (Key : Type) where
  nonceKey : Key
  cipher : Key

structure Sealer (Key : Type) where
  keys : SealKeys Key
  owner : Bytes
  last : Option (IdKind × String × String)

variable {Key : Type}

def SealKeys.new (c : Crypto Key) (key : Key) : SealKeys Key := ⟨key, c.derive key "seal-aead"⟩

def sealKey (c : Crypto Key) (idKey : Key) : Key := c.derive idKey "seal-v1"

def responseIdKey (c : Crypto Key) (idKey : Key) : Key := c.derive idKey "resp-v2"

namespace Sealer

def withKeys (keys : SealKeys Key) (owner : Owner) : Sealer Key := ⟨keys, owner.bytes, none⟩

/-- The sealer of the platform that has `idKey`. -/
def of (c : Crypto Key) (idKey : Key) (owner : Owner) : Sealer Key :=
  withKeys (.new c (sealKey c idKey)) owner

def aad (s : Sealer Key) (kind : IdKind) (shown : String) : Bytes :=
  s.owner ++ [kind.label] ++ asBytes shown

def nonce (c : Crypto Key) (s : Sealer Key) (kind : IdKind) (id : String) : Bytes :=
  (c.mac s.keys.nonceKey (asBytes "seal" ++ [0] ++ s.owner ++ [kind.label] ++ asBytes id)).take
    NONCE_LEN

def sealFresh (c : Crypto Key) (s : Sealer Key) (kind : IdKind) (id : String) : String :=
  let shown := kind.shownPrefix id
  let nonce := s.nonce c kind id
  let payload := nonce ++ c.sealInPlace s.keys.cipher nonce (s.aad kind shown) (pad id)
  shown ++ String.ofList (Base64.encode payload)

/-- Sealing, with the last seal remembered. -/
def «seal» (c : Crypto Key) (s : Sealer Key) (kind : IdKind) (id : String) : String × Sealer Key :=
  match s.last with
  | some (k, plain, sealed) =>
    if k = kind ∧ plain = id then (sealed, s)
    else (s.sealFresh c kind id, { s with last := some (kind, id, s.sealFresh c kind id) })
  | none => (s.sealFresh c kind id, { s with last := some (kind, id, s.sealFresh c kind id) })

/-- `open`: the id that was sealed as `kind` behind `shown`. -/
def openAs (c : Crypto Key) (s : Sealer Key) (kind : IdKind) (shown : String)
    (payload : List Char) :
    Option String :=
  match Base64.decode payload with
  | none => none
  | some raw =>
    if raw.length < NONCE_LEN + SEAL_BUCKET + MAX_TAG_LEN then none
    else
      let nonce := raw.take NONCE_LEN
      ((c.openInPlace s.keys.cipher nonce (s.aad kind shown) (raw.drop NONCE_LEN)).bind unpad).bind
        fun text =>
        (fromUtf8 text).bind fun plain =>
          if kind.shownPrefix plain = shown ∧ s.nonce c kind plain = nonce then some plain else none

def «unseal» (c : Crypto Key) (s : Sealer Key) (kind : IdKind) (id : String) : Option String :=
  if id.utf8ByteSize < MIN_SEALED_LEN then none
  else
    match kind with
    | .item =>
      -- the payload's alphabet includes `_`, so the whole text is tried as well
      ((splitUnderscore id).bind fun r => s.openAs c kind (String.ofList (r.1 ++ ['_'])) r.2).or
        (s.openAs c kind "" id.toList)
    | .call =>
      if CALL_PREFIX.toList.isPrefixOf id.toList then
        s.openAs c kind CALL_PREFIX (id.toList.drop CALL_PREFIX.toList.length)
      else none

end Sealer

/-! ### The codecs -/

theorem length_toBeBytes (width n : Nat) : (toBeBytes width n).length = width := by
  induction width generalizing n with
  | zero => rfl
  | succ width ih => simp [toBeBytes, ih]

theorem toBeBytes_inj {width m n : Nat} (hm : m < 256 ^ width) (hn : n < 256 ^ width)
    (h : toBeBytes width m = toBeBytes width n) : m = n := by
  induction width generalizing m n with
  | zero => omega
  | succ width ih =>
    rw [Nat.pow_succ, Nat.mul_comm] at hm hn
    simp only [toBeBytes] at h
    obtain ⟨hhigh, hlow⟩ := List.append_inj h (by simp [length_toBeBytes])
    have hdiv : m / 256 = n / 256 :=
      ih (Nat.div_lt_of_lt_mul hm) (Nat.div_lt_of_lt_mul hn) hhigh
    have hbyte : (UInt8.ofNat (m % 256)).toNat = (UInt8.ofNat (n % 256)).toNat :=
      congrArg UInt8.toNat (List.singleton_inj.mp hlow)
    have hmod : m % 256 = n % 256 := by simpa using hbyte
    omega

theorem IdKind.label_inj {k k' : IdKind} (h : k.label = k'.label) : k = k' := by
  cases k with
  | item =>
    cases k' with
    | item => rfl
    | call => exact absurd h (by decide)
  | call =>
    cases k' with
    | item => exact absurd h (by decide)
    | call => rfl

theorem Owner.bytes_append_inj {o o' : Owner} {s t : Bytes} (h : o.bytes ++ s = o'.bytes ++ t) :
    o = o' ∧ s = t := by
  simp only [Owner.bytes, List.append_assoc] at h
  obtain ⟨hsize, hrest⟩ := List.append_inj h (by rw [length_toBeBytes, length_toBeBytes])
  have hlen := toBeBytes_inj o.fits o'.fits hsize
  obtain ⟨htext, hst⟩ := List.append_inj hrest (by rw [length_asBytes, length_asBytes, hlen])
  obtain ⟨text, fits⟩ := o
  obtain ⟨text', fits'⟩ := o'
  obtain rfl : text = text' := asBytes_inj htext
  exact ⟨rfl, hst⟩

theorem unpad_pad (id : String) : unpad (pad id) = some (asBytes id) := by
  have hzeros : ∀ (n : Nat) (rest : Bytes),
      (List.replicate n 0 ++ (0x80 : UInt8) :: rest).dropWhile (· == 0) = 0x80 :: rest := by
    intro n rest
    induction n with
    | zero => rfl
    | succ n ih => simp [List.replicate_succ]
  simp only [unpad, pad, padTo, List.reverse_append, List.reverse_cons, List.reverse_replicate,
    List.append_assoc, List.singleton_append, hzeros]
  simp

theorem length_pad (id : String) : (pad id).length = (id.utf8ByteSize / 64 + 1) * 64 := by
  simp only [pad, padTo, SEAL_BUCKET, List.length_append, length_asBytes, List.length_cons,
    List.length_replicate]
  omega

theorem toList_of_splitUnderscore {id : String} {head rest : List Char}
    (h : splitUnderscore id = some (head, rest)) : id.toList = head ++ '_' :: rest := by
  have happ := List.takeWhile_append_dropWhile (p := (· ≠ '_')) (l := id.toList)
  unfold splitUnderscore at h
  cases hdrop : id.toList.dropWhile (· ≠ '_') with
  | nil => rw [hdrop] at h; cases h
  | cons c tail =>
    rw [hdrop] at h
    obtain ⟨rfl, rfl⟩ : id.toList.takeWhile (· ≠ '_') = head ∧ tail = rest := by simpa using h
    have hc : c = '_' := by
      have hhead := List.head?_dropWhile_not (· ≠ '_') id.toList
      rw [hdrop] at hhead
      simpa using hhead
    rw [hdrop, hc] at happ
    exact happ.symm

theorem splitUnderscore_of_toList {id : String} {head rest : List Char} (hhead : '_' ∉ head)
    (h : id.toList = head ++ '_' :: rest) : splitUnderscore id = some (head, rest) := by
  have hkeep : ∀ c ∈ head, (decide (c ≠ '_')) = true := by
    intro c hc
    have : c ≠ '_' := fun heq => hhead (heq ▸ hc)
    simpa using this
  unfold splitUnderscore
  rw [h, List.dropWhile_append_of_pos hkeep, List.takeWhile_append_of_pos hkeep]
  simp

theorem keptPrefix_cases (id : String) :
    keptPrefix id = "" ∨
      ∃ head, keptPrefix id = String.ofList (head ++ ['_']) ∧ '_' ∉ head ∧ head.length ≤ 16 := by
  unfold keptPrefix
  cases hsplit : splitUnderscore id with
  | none => exact .inl rfl
  | some r =>
    obtain ⟨head, rest⟩ := r
    dsimp only
    split
    · next hshort =>
      obtain ⟨-, hsize, halnum⟩ := hshort
      have hascii : ∀ c ∈ head, c.toNat < 128 := by
        intro c hc
        have hal := List.all_eq_true.mp halnum c hc
        simp only [isAsciiAlphanumeric, Bool.or_eq_true, Bool.and_eq_true, decide_eq_true_eq] at hal
        omega
      rw [utf8ByteSize_ascii hascii] at hsize
      refine .inr ⟨head, rfl, ?_, hsize⟩
      intro hunder
      exact absurd (List.all_eq_true.mp halnum '_' hunder) (by decide)
    · exact .inl rfl

/-! ### Sealing and unsealing under an ideal cipher -/

/-- One call of `seal` by the gateway. -/
structure SealCall (Key : Type) where
  idKey : Key
  owner : Owner
  kind : IdKind
  id : String

/-- One seal of a response id, under the platform's other cipher. -/
structure ResponseSeal (Key : Type) where
  idKey : Key
  nonce : Bytes
  aad : Bytes
  plain : Bytes

namespace SealCall

def sealer (c : Crypto Key) (call : SealCall Key) : Sealer Key := .of c call.idKey call.owner

def nonce (c : Crypto Key) (call : SealCall Key) : Bytes :=
  (call.sealer c).nonce c call.kind call.id

def aad (c : Crypto Key) (call : SealCall Key) : Bytes :=
  (call.sealer c).aad call.kind (call.kind.shownPrefix call.id)

/-- The ciphertext and its tag. -/
def sealed (c : Crypto Key) (call : SealCall Key) : Bytes :=
  c.sealInPlace (call.sealer c).keys.cipher (call.nonce c) (call.aad c) (pad call.id)

/-- What the caller is handed. -/
def text (c : Crypto Key) (call : SealCall Key) : String :=
  (call.sealer c).sealFresh c call.kind call.id

end SealCall

/-- Key derivation is injective, and the cipher opens what the gateway sealed under the same key,
nonce and associated data, and nothing else. -/
structure Ideal (c : Crypto Key) (calls : Set (SealCall Key)) (answers : Set (ResponseSeal Key)) :
    Prop where
  derive_inj : ∀ {k k' : Key} {label label' : String},
    c.derive k label = c.derive k' label' → k = k' ∧ label = label'
  mac_length : ∀ (k : Key) (data : Bytes), (c.mac k data).length = 32
  seal_length : ∀ (k : Key) (nonce aad plain : Bytes),
    (c.sealInPlace k nonce aad plain).length = plain.length + MAX_TAG_LEN
  open_iff : ∀ (k : Key) (nonce aad sealed plain : Bytes),
    c.openInPlace k nonce aad sealed = some plain ↔
      sealed = c.sealInPlace k nonce aad plain ∧
        ((∃ call ∈ calls, k = (call.sealer c).keys.cipher ∧ nonce = call.nonce c ∧
          aad = call.aad c ∧
            plain = pad call.id) ∨
          ∃ answer ∈ answers, k = responseIdKey c answer.idKey ∧ nonce = answer.nonce ∧
            aad = answer.aad ∧ plain = answer.plain)

section Opening

variable {c : Crypto Key} {calls : Set (SealCall Key)} {answers : Set (ResponseSeal Key)}

theorem Ideal.length_nonce (h : Ideal c calls answers) (s : Sealer Key) (kind : IdKind)
    (id : String) :
    (s.nonce c kind id).length = NONCE_LEN := by
  rw [Sealer.nonce, List.length_take, h.mac_length]
  rfl

theorem Ideal.length_payload (h : Ideal c calls answers) (call : SealCall Key) :
    (call.nonce c ++ call.sealed c).length = 28 + (call.id.utf8ByteSize / 64 + 1) * 64 := by
  rw [List.length_append, SealCall.nonce, h.length_nonce, SealCall.sealed,
    h.seal_length, length_pad, NONCE_LEN, MAX_TAG_LEN]
  omega

/-- The two ciphers of a platform never share a key, and two platforms never share a cipher. -/
theorem Ideal.cipher_inj (h : Ideal c calls answers) {idKey idKey' : Key} {o o' : Owner}
    (heq : (Sealer.of c idKey o).keys.cipher = (Sealer.of c idKey' o').keys.cipher) :
    idKey = idKey' :=
  (h.derive_inj (h.derive_inj heq).1).1

theorem Ideal.cipher_ne_responseIdKey (h : Ideal c calls answers) (idKey idKey' : Key) (o : Owner) :
    (Sealer.of c idKey o).keys.cipher ≠ responseIdKey c idKey' := by
  intro heq
  exact absurd (h.derive_inj heq).2 (by decide)

theorem aad_inj {idKey idKey' : Key} {o o' : Owner} {kind kind' : IdKind} {shown shown' : String}
    (h : (Sealer.of c idKey o).aad kind shown = (Sealer.of c idKey' o').aad kind' shown') :
    o = o' ∧ kind = kind' ∧ shown = shown' := by
  simp only [Sealer.aad, Sealer.of, Sealer.withKeys, List.append_assoc] at h
  obtain ⟨howner, hrest⟩ := Owner.bytes_append_inj h
  obtain ⟨hlabel, hshown⟩ := List.cons.inj hrest
  exact ⟨howner, IdKind.label_inj hlabel, asBytes_inj hshown⟩

/-- **One attempt opens exactly what was sealed for the owner, as the kind, behind that prefix.** -/
theorem Ideal.openAs_iff (h : Ideal c calls answers) {idKey : Key} {owner : Owner} {kind : IdKind}
    {shown : String} {payload : List Char} {id : String} :
    (Sealer.of c idKey owner).openAs c kind shown payload = some id ↔
      ⟨idKey, owner, kind, id⟩ ∈ calls ∧ shown = kind.shownPrefix id ∧
        payload = Base64.encode (SealCall.nonce c ⟨idKey, owner, kind, id⟩ ++
          SealCall.sealed c ⟨idKey, owner, kind, id⟩) := by
  constructor
  · intro hopen
    unfold Sealer.openAs at hopen
    cases hraw : Base64.decode payload with
    | none => rw [hraw] at hopen; cases hopen
    | some raw =>
      simp only [hraw] at hopen
      split at hopen
      · cases hopen
      · simp only [Option.bind_eq_some_iff] at hopen
        obtain ⟨text, ⟨plain, hplain, hunpad⟩, found, hfound, hchecks⟩ := hopen
        split at hchecks
        · next hboth =>
          obtain ⟨hshown, hnonce⟩ := hboth
          obtain rfl : found = id := by simpa using hchecks
          obtain ⟨hsealed, hmade⟩ := (h.open_iff _ _ _ _ _).mp hplain
          rcases hmade with ⟨call, hcall, hkey, hn, haad, rfl⟩ | ⟨answer, -, hkey, -⟩
          · obtain ⟨idKey', owner', kind', id'⟩ := call
            obtain rfl : idKey = idKey' := h.cipher_inj hkey
            obtain ⟨rfl, rfl, hshown'⟩ := aad_inj haad
            have hid : id' = found := by
              rw [unpad_pad, Option.some.injEq] at hunpad
              rw [← hunpad, fromUtf8_asBytes, Option.some.injEq] at hfound
              exact hfound
            subst hid
            refine ⟨hcall, hshown', ?_⟩
            rw [Base64.encode_of_decode hraw]
            congr 1
            rw [← List.take_append_drop NONCE_LEN raw, hsealed, hn, haad]
            simp [SealCall.sealed, SealCall.sealer]
          · exact absurd hkey (h.cipher_ne_responseIdKey _ _ _)
        · cases hchecks
  · rintro ⟨hcall, rfl, rfl⟩
    have hlen := h.length_payload ⟨idKey, owner, kind, id⟩
    have hnonce : (SealCall.nonce c ⟨idKey, owner, kind, id⟩).length = NONCE_LEN :=
      h.length_nonce _ _ _
    have hopen : c.openInPlace (Sealer.of c idKey owner).keys.cipher
        (SealCall.nonce c ⟨idKey, owner, kind, id⟩)
          ((Sealer.of c idKey owner).aad kind (kind.shownPrefix id))
        (SealCall.sealed c ⟨idKey, owner, kind, id⟩) = some (pad id) :=
      (h.open_iff _ _ _ _ _).mpr ⟨rfl, .inl ⟨_, hcall, rfl, rfl, rfl, rfl⟩⟩
    have hlong : ¬(SealCall.nonce c ⟨idKey, owner, kind, id⟩ ++
        SealCall.sealed c ⟨idKey, owner, kind, id⟩).length < NONCE_LEN + SEAL_BUCKET +
          MAX_TAG_LEN := by
      rw [hlen, NONCE_LEN, SEAL_BUCKET, MAX_TAG_LEN]
      omega
    simp only [Sealer.openAs, Base64.decode_encode, if_neg hlong]
    rw [← hnonce, List.take_left, List.drop_left, hopen, Option.bind_some, unpad_pad,
      Option.bind_some, fromUtf8_asBytes, Option.bind_some]
    exact if_pos ⟨rfl, rfl⟩

theorem SealCall.toList_text (call : SealCall Key) :
    (call.text c).toList = (call.kind.shownPrefix call.id).toList ++
      Base64.encode (call.nonce c ++ call.sealed c) := by
  simp [SealCall.text, Sealer.sealFresh, SealCall.nonce, SealCall.sealed, SealCall.aad,
    String.toList_append, String.toList_ofList]

theorem Ideal.utf8ByteSize_text (h : Ideal c calls answers) (call : SealCall Key) :
    (call.text c).utf8ByteSize = (call.kind.shownPrefix call.id).utf8ByteSize +
      ((28 + (call.id.utf8ByteSize / 64 + 1) * 64) * 4 + 2) / 3 := by
  have henc := Base64.length_encode (call.nonce c ++ call.sealed c)
  rw [h.length_payload] at henc
  rw [SealCall.text, Sealer.sealFresh, String.utf8ByteSize_append,
    utf8ByteSize_ascii (Base64.encode_ascii _)]
  exact congrArg _ henc

theorem Ideal.text_ne_id (h : Ideal c calls answers) (call : SealCall Key) :
    call.text c ≠ call.id := by
  intro heq
  have hsize := h.utf8ByteSize_text call
  rw [heq] at hsize
  omega

/-- The first attempt, behind the text before the first `_`, opens no seal that keeps no prefix: the
two payloads would differ by no whole bucket. -/
theorem Ideal.openAs_head (h : Ideal c calls answers) {call : SealCall Key} {head rest : List Char}
    (hkept : keptPrefix call.id = "") (hkind : call.kind = .item)
    (hsplit : splitUnderscore (call.text c) = some (head, rest)) (idKey : Key) (owner : Owner) :
    (Sealer.of c idKey owner).openAs c .item (String.ofList (head ++ ['_'])) rest = none := by
  cases hopen : (Sealer.of c idKey owner).openAs c .item (String.ofList (head ++ ['_'])) rest with
  | none => rfl
  | some id' =>
    obtain ⟨-, hshown, hrest⟩ := h.openAs_iff.mp hopen
    have hhead : (head ++ ['_']).length ≤ 17 := by
      rcases keptPrefix_cases id' with hnone | ⟨head', hhead', -, hlen⟩
      · have hlist := congrArg String.toList (hshown.trans hnone)
        rw [String.toList_ofList] at hlist
        simp at hlist
      · have hlist := congrArg String.toList (hshown.trans hhead')
        rw [String.toList_ofList, String.toList_ofList] at hlist
        rw [hlist, List.length_append, List.length_singleton]
        omega
    have hlist := toList_of_splitUnderscore hsplit
    have hshort : IdKind.shownPrefix call.kind call.id = "" := by rw [hkind]; exact hkept
    rw [SealCall.toList_text, hshort, String.toList_empty, List.nil_append] at hlist
    have hlen := congrArg List.length hlist
    rw [List.length_append, List.length_cons, hrest, Base64.length_encode, Base64.length_encode,
      h.length_payload, h.length_payload] at hlen
    rw [List.length_append, List.length_singleton] at hhead
    dsimp only at hlen
    rcases Nat.lt_trichotomy (call.id.utf8ByteSize / 64)
      (id'.utf8ByteSize / 64) with hlt | heq | hgt
    · omega
    · rw [heq] at hlen
      omega
    · omega

/-- **A text unseals to `id` exactly when it is what `seal` made of `id` for the owner, as the
kind.** -/
theorem Ideal.unseal_iff (h : Ideal c calls answers) {idKey : Key} {owner : Owner} {kind : IdKind}
    {s id : String} :
    (Sealer.of c idKey owner).«unseal» c kind s = some id ↔
      ⟨idKey, owner, kind, id⟩ ∈ calls ∧ s = SealCall.text c ⟨idKey, owner, kind, id⟩ := by
  have htext :
      ∀ {payload : List Char} {id : String}, s.toList = (kind.shownPrefix id).toList ++ payload →
      payload = Base64.encode (SealCall.nonce c ⟨idKey, owner, kind, id⟩ ++
        SealCall.sealed c ⟨idKey, owner, kind, id⟩) →
      s = SealCall.text c ⟨idKey, owner, kind, id⟩ := by
    rintro payload id hs rfl
    apply String.toList_inj.mp
    rw [hs, SealCall.toList_text]
  constructor
  · intro hopen
    unfold Sealer.«unseal» at hopen
    split at hopen
    · cases hopen
    · cases kind with
      | item =>
        simp only [Option.or_eq_some_iff, Option.bind_eq_some_iff] at hopen
        rcases hopen with ⟨⟨head, rest⟩, hsplit, hfirst⟩ | ⟨-, hwhole⟩
        · obtain ⟨hcall, hshown, hpayload⟩ := h.openAs_iff.mp hfirst
          refine ⟨hcall, htext ?_ hpayload⟩
          rw [← hshown, String.toList_ofList, toList_of_splitUnderscore hsplit]
          simp
        · obtain ⟨hcall, hshown, hpayload⟩ := h.openAs_iff.mp hwhole
          exact ⟨hcall, htext (by rw [← hshown]; rfl) hpayload⟩
      | call =>
        dsimp only at hopen
        split at hopen
        · next hpre =>
          obtain ⟨hcall, hshown, hpayload⟩ := h.openAs_iff.mp hopen
          obtain ⟨rest, hrest⟩ := List.isPrefixOf_iff_prefix.mp hpre
          refine ⟨hcall, htext ?_ hpayload⟩
          rw [← hrest, List.drop_left, ← hshown]
        · cases hopen
  · rintro ⟨hcall, rfl⟩
    have hsize := h.utf8ByteSize_text ⟨idKey, owner, kind, id⟩
    have hlong : ¬(SealCall.text c ⟨idKey, owner, kind, id⟩).utf8ByteSize < MIN_SEALED_LEN := by
      have hmin : MIN_SEALED_LEN = 123 := rfl
      dsimp only at hsize
      omega
    have hlist := SealCall.toList_text (c := c) ⟨idKey, owner, kind, id⟩
    unfold Sealer.«unseal»
    rw [if_neg hlong]
    cases kind with
    | item =>
      dsimp only at hlist ⊢
      rcases keptPrefix_cases id with hnone | ⟨head, hhead, hno, -⟩
      · have hwhole : (Sealer.of c idKey owner).openAs c .item ""
            (SealCall.text c ⟨idKey, owner, .item, id⟩).toList = some id := by
          refine h.openAs_iff.mpr ⟨hcall, hnone.symm, ?_⟩
          rw [hlist, IdKind.shownPrefix, hnone]
          rfl
        cases hsplit : splitUnderscore (SealCall.text c ⟨idKey, owner, .item, id⟩) with
        | none => rw [Option.bind_none, Option.none_or, hwhole]
        | some r =>
          obtain ⟨head, rest⟩ := r
          rw [Option.bind_some, h.openAs_head hnone rfl hsplit, Option.none_or, hwhole]
      · have hopen := h.openAs_iff.mpr ⟨hcall, (hhead.symm : _ = IdKind.shownPrefix .item id), rfl⟩
        rw [IdKind.shownPrefix, hhead, String.toList_ofList, List.append_assoc] at hlist
        rw [splitUnderscore_of_toList hno hlist, Option.bind_some]
        exact congrArg (Option.or · _) hopen
    | call =>
      dsimp only at hlist ⊢
      have hpre : CALL_PREFIX.toList.isPrefixOf
          (SealCall.text c ⟨idKey, owner, .call, id⟩).toList = true := by
        rw [List.isPrefixOf_iff_prefix, hlist]
        exact List.prefix_append _ _
      rw [if_pos hpre]
      refine h.openAs_iff.mpr ⟨hcall, rfl, ?_⟩
      rw [hlist]
      exact List.drop_left

end Opening

/-! ### The remembered seal -/

/-- What is remembered was sealed by the same sealer. -/
def Sealer.Remembers (c : Crypto Key) (s : Sealer Key) : Prop :=
  ∀ kind id sealed, s.last = some (kind, id, sealed) → sealed = s.sealFresh c kind id

/-- **With or without a remembered seal, sealing answers the fresh one.** -/
theorem Sealer.Remembers.seal_eq {c : Crypto Key} {s : Sealer Key} (h : s.Remembers c)
    (kind : IdKind) (id : String) :
    (s.«seal» c kind id).1 = s.sealFresh c kind id ∧ (s.«seal» c kind id).2.Remembers c ∧
      (s.«seal» c kind id).2.keys = s.keys ∧ (s.«seal» c kind id).2.owner = s.owner := by
  have hfresh : Remembers c { s with last := some (kind, id, s.sealFresh c kind id) } := by
    intro kind' id' sealed hlast
    obtain ⟨rfl, rfl, rfl⟩ : kind = kind' ∧ id = id' ∧ s.sealFresh c kind id = sealed := by
      simpa using hlast
    rfl
  unfold Sealer.«seal»
  split
  · next kind' id' sealed hlast =>
    split
    · next hsame =>
      obtain ⟨rfl, rfl⟩ := hsame
      exact ⟨h _ _ _ hlast, h, rfl, rfl⟩
    · exact ⟨rfl, hfresh, rfl, rfl⟩
  · exact ⟨rfl, hfresh, rfl, rfl⟩

end OpaqueId
end Aisix
