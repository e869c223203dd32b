import Aisix.OpaqueId.Sealer
import Aisix.Json

/-!
# Aisix.OpaqueId.Input

The walk that restores the upstream's ids in a Responses request, and which references it lets
through: an item that names a stored item by its id carries, after the walk, an id that was sealed
for the caller (`sealed_ids_isolate`), unless its role is written as null.
-/

namespace Aisix
namespace OpaqueId

open Json

variable {Key : Type}

def itemFieldKind (field : String) : Option IdKind :=
  if field = "id" ∨ field = "approval_request_id" then some .item
  else if field = "call_id" then some .call
  else none

/-- One member of an item, with the ids in it visited. -/
def visitField (visit : IdKind → String → String) (field : String) (value : Value) : Value :=
  match value with
  | .string s =>
    match itemFieldKind field with
    | some kind => .string (visit kind s)
    | none => .string s
  | .object caller =>
    if field = "caller" then
      (Value.object caller).modify "caller_id" fun id =>
        match id with
        | .string s => .string (visit .call s)
        | other => other
    else .object caller
  | other => other

def forEachItemId (visit : IdKind → String → String) (item : Value) : Value :=
  item.mapFields (visitField visit)

def isItemReference (item : Value) : Bool :=
  match item.get "type" with
  | some (.string t) => t == "item_reference"
  | none | some .null => (item.get "role").isNone && (item.get "id").isSome
  | some _ => false

def unsealSlot (c : Crypto Key) (s : Sealer Key) (kind : IdKind) (slot : String) : String :=
  if slot.utf8ByteSize < MIN_SEALED_LEN then slot else (s.«unseal» c kind slot).getD slot

def opened : Option Value → Option Value → Bool
  | some (.string sent), some (.string now) => sent != now
  | _, _ => false

/-- The walk over the items, from `index` on, with the first unopened reference found so far. -/
def unsealItems (c : Crypto Key) (s : Sealer Key) :
    Nat → Option Nat → List Value → Option Nat × List Value
  | _, unopened, [] => (unopened, [])
  | index, unopened, item :: rest =>
    let now := forEachItemId (unsealSlot c s) item
    let unopened :=
      if isItemReference item ∧ opened (item.get "id") (now.get "id") = false ∧
        unopened = none then some index
      else unopened
    let r := unsealItems c s (index + 1) unopened rest
    (r.1, now :: r.2)

/-- The index of the first reference that did not unseal, and the body it leaves. -/
def unsealResponsesInput (c : Crypto Key) (idKey : Key) (owner : Owner) (body : Value) :
    Option Nat × Value :=
  match body.get "input" with
  | some (.array items) =>
    let r := unsealItems c (.of c idKey owner) 0 none items
    (r.1, body.modify "input" fun _ => .array r.2)
  | _ => (none, body)

theorem unsealItems_snd (c : Crypto Key) (s : Sealer Key) (index : Nat) (unopened : Option Nat)
    (items : List Value) :
    (unsealItems c s index unopened items).2 = items.map (forEachItemId (unsealSlot c s)) := by
  induction items generalizing index unopened with
  | nil => rfl
  | cons item rest ih => simp only [unsealItems, List.map_cons, ih]

theorem unsealItems_fst (c : Crypto Key) (s : Sealer Key) (index : Nat) (unopened : Option Nat)
    (items : List Value) :
    (unsealItems c s index unopened items).1 = none ↔
      unopened = none ∧ ∀ item ∈ items, isItemReference item = true →
        opened (item.get "id") ((forEachItemId (unsealSlot c s) item).get "id") = true := by
  induction items generalizing index unopened with
  | nil => simp [unsealItems]
  | cons item rest ih =>
    simp only [unsealItems, ih, List.mem_cons, forall_eq_or_imp]
    by_cases hunopened : unopened = none
    · subst hunopened
      cases href : isItemReference item with
      | false => simp
      | true =>
        cases hopen : opened (item.get "id") ((forEachItemId (unsealSlot c s) item).get "id") with
        | false => simp
        | true => simp
    · simp [hunopened]

section Walk

variable {c : Crypto Key} {s : Sealer Key} {item : Value}

theorem get_type_unsealed : (forEachItemId (unsealSlot c s) item).get "type" = item.get "type" := by
  have hsame : ∀ v, visitField (unsealSlot c s) "type" v = v := by
    intro v
    cases v <;> simp [visitField, itemFieldKind]
  rw [forEachItemId, Value.get_mapFields]
  cases item.get "type" with
  | none => rfl
  | some v => exact congrArg some (hsame v)

theorem get_role_unsealed : (forEachItemId (unsealSlot c s) item).get "role" = item.get "role" := by
  have hsame : ∀ v, visitField (unsealSlot c s) "role" v = v := by
    intro v
    cases v <;> simp [visitField, itemFieldKind]
  rw [forEachItemId, Value.get_mapFields]
  cases item.get "role" with
  | none => rfl
  | some v => exact congrArg some (hsame v)

theorem get_id_unsealed {sent : String} (h : item.get "id" = some (.string sent)) :
    (forEachItemId (unsealSlot c s) item).get "id" =
    some (.string (unsealSlot c s .item sent)) := by
  rw [forEachItemId, Value.get_mapFields, h]
  rfl

theorem get_id_unsealed_of_not_string (h : ∀ sent, item.get "id" ≠ some (.string sent)) :
    (forEachItemId (unsealSlot c s) item).get "id" = item.get "id" := by
  rw [forEachItemId, Value.get_mapFields]
  cases hid : item.get "id" with
  | none => rfl
  | some v =>
    cases v with
    | string sent => exact absurd hid (h sent)
    | _ => rfl

theorem sent_of_get_id {now : String}
    (h : (forEachItemId (unsealSlot c s) item).get "id" = some (.string now)) :
    ∃ sent, item.get "id" = some (.string sent) ∧ now = unsealSlot c s .item sent := by
  by_cases hstring : ∃ sent, item.get "id" = some (.string sent)
  · obtain ⟨sent, hsent⟩ := hstring
    rw [get_id_unsealed hsent, Option.some.injEq, Value.string.injEq] at h
    exact ⟨sent, hsent, h.symm⟩
  · rw [get_id_unsealed_of_not_string (not_exists.mp hstring)] at h
    exact ⟨now, h, absurd ⟨now, h⟩ hstring⟩

end Walk

/-! ### What a reference carries -/

section Isolation

variable (c : Crypto Key) (calls : Set (SealCall Key)) (idKey : Key) (owner : Owner)

/-- A member that is there and is not null. -/
def Given (item : Value) (field : String) : Prop :=
  ∃ v, item.get field = some v ∧ v ≠ .null

/-- The item names a stored item by its id. -/
def ReferenceById (item : Value) : Prop :=
  Given item "id" ∧
    (item.get "type" = some (.string "item_reference") ∨ ¬Given item "type" ∧ ¬Given item "role")

/-- The id is one the gateway sealed for the owner. -/
def CarriesOwn (item : Value) : Prop :=
  ∃ id kind, item.get "id" = some (.string id) ∧ ⟨idKey, owner, kind, id⟩ ∈ calls

/-- The id is what sealing an item id for the owner answered. -/
def SentSealed (item : Value) : Prop :=
  ∃ id, ⟨idKey, owner, .item, id⟩ ∈ calls ∧
    item.get "id" = some (.string (SealCall.text c ⟨idKey, owner, .item, id⟩))

/-- When no refused id is reported, every reference the walk leaves carries an id sealed for the
owner. -/
def OnlyOwnReferences (body : Value) : Prop :=
  (unsealResponsesInput c idKey owner body).1 = none →
    ∀ items, (unsealResponsesInput c idKey owner body).2.get "input" = some (.array items) →
      ∀ item ∈ items, ReferenceById item → CarriesOwn calls idKey owner item

/-- An item that the upstream reads as a reference while its role is written as null. -/
def NullRoleReference (item : Value) : Prop :=
  Given item "id" ∧ ¬Given item "type" ∧ item.get "role" = some .null

/-- Some reference is refused, or every reference whose role is written as null has an id of the
owner. -/
def NullRolesOwn (body : Value) : Prop :=
  ∀ items, body.get "input" = some (.array items) →
    (∃ item ∈ items, isItemReference item = true ∧ ¬SentSealed c calls idKey owner item) ∨
      ∀ item ∈ items, NullRoleReference item →
        SentSealed c calls idKey owner item ∨ CarriesOwn calls idKey owner item

end Isolation

theorem isItemReference_iff (item : Value) :
    isItemReference item = true ↔
      item.get "type" = some (.string "item_reference") ∨
        ¬Given item "type" ∧ item.get "role" = none ∧ (item.get "id").isSome := by
  unfold isItemReference Given
  cases htype : item.get "type" with
  | none => simp
  | some v => cases v <;> simp

/-- A reference is one the code recognises, or one whose role is written as null. -/
theorem referenceById_cases {item : Value} (h : ReferenceById item) :
    isItemReference item = true ∨ NullRoleReference item := by
  obtain ⟨⟨v, hid, hv⟩, htyped | ⟨htype, hrole⟩⟩ := h
  · exact .inl ((isItemReference_iff item).mpr (.inl htyped))
  · cases hr : item.get "role" with
    | none => exact .inl ((isItemReference_iff item).mpr (.inr ⟨htype, hr, by rw [hid]; rfl⟩))
    | some r =>
      by_cases hnull : r = .null
      · exact .inr ⟨⟨v, hid, hv⟩, htype, by rw [hr, hnull]⟩
      · exact absurd ⟨r, hr, hnull⟩ hrole

section Walked

variable {c : Crypto Key} {calls : Set (SealCall Key)} {answers : Set (ResponseSeal Key)}

theorem Ideal.unsealSlot_cases (h : Ideal c calls answers) (idKey : Key) (owner : Owner)
    (sent : String) :
    (∃ id, ⟨idKey, owner, .item, id⟩ ∈ calls ∧ sent = SealCall.text c ⟨idKey, owner, .item, id⟩ ∧
        unsealSlot c (.of c idKey owner) .item sent = id) ∨
      (∀ id, ⟨idKey, owner, .item, id⟩ ∈ calls → sent ≠ SealCall.text c ⟨idKey, owner, .item, id⟩) ∧
        unsealSlot c (.of c idKey owner) .item sent = sent := by
  cases hopen : (Sealer.of c idKey owner).«unseal» c .item sent with
  | some id =>
    obtain ⟨hcall, htext⟩ := h.unseal_iff.mp hopen
    refine .inl ⟨id, hcall, htext, ?_⟩
    have hlong : ¬sent.utf8ByteSize < MIN_SEALED_LEN := by
      intro hshort
      rw [Sealer.«unseal».eq_def, if_pos hshort] at hopen
      cases hopen
    rw [unsealSlot, if_neg hlong, hopen, Option.getD_some]
  | none =>
    refine .inr ⟨fun id hcall htext => ?_, ?_⟩
    · rw [h.unseal_iff.mpr ⟨hcall, htext⟩] at hopen
      cases hopen
    · rw [unsealSlot, hopen, Option.getD_none, ite_self]

theorem Ideal.opened_iff (h : Ideal c calls answers) (idKey : Key) (owner : Owner) (item : Value) :
    opened (item.get "id") ((forEachItemId (unsealSlot c (.of c idKey owner)) item).get "id") =
      true ↔
      SentSealed c calls idKey owner item := by
  constructor
  · intro hopen
    by_cases hstring : ∃ sent, item.get "id" = some (.string sent)
    · obtain ⟨sent, hsent⟩ := hstring
      rcases h.unsealSlot_cases idKey owner sent with
        ⟨id, hcall, htext, -⟩ | ⟨-, hsame⟩
      · exact ⟨id, hcall, htext ▸ hsent⟩
      · rw [get_id_unsealed hsent, hsent, hsame] at hopen
        simp [opened] at hopen
    · have hnever : ∀ v w, (∀ sent, v ≠ some (Value.string sent)) → opened v w = false := by
        intro v w hv
        unfold opened
        split
        · next sent _ => exact absurd rfl (hv sent)
        · rfl
      rw [hnever _ _ (not_exists.mp hstring)] at hopen
      cases hopen
  · rintro ⟨id, hcall, hsent⟩
    rcases h.unsealSlot_cases idKey owner
        (SealCall.text c ⟨idKey, owner, .item, id⟩) with ⟨id', -, htext, hnow⟩ | ⟨hnot, -⟩
    · have hne := h.text_ne_id ⟨idKey, owner, .item, id'⟩
      rw [get_id_unsealed hsent, hsent, hnow]
      simpa [opened, htext] using hne
    · exact absurd rfl (hnot id hcall)

/-- What the walk leaves in an item's id is the owner's own, or what was sent. -/
theorem Ideal.carriesOwn_unsealed_iff (h : Ideal c calls answers) (idKey : Key) (owner : Owner)
    (item : Value) :
    CarriesOwn calls idKey owner (forEachItemId (unsealSlot c (.of c idKey owner)) item) ↔
      SentSealed c calls idKey owner item ∨ CarriesOwn calls idKey owner item := by
  constructor
  · rintro ⟨now, kind, hnow, hcall⟩
    obtain ⟨sent, hsent, rfl⟩ := sent_of_get_id hnow
    rcases h.unsealSlot_cases idKey owner sent with
      ⟨id, hcall', htext, -⟩ | ⟨-, hsame⟩
    · exact .inl ⟨id, hcall', htext ▸ hsent⟩
    · rw [hsame] at hcall
      exact .inr ⟨sent, kind, hsent, hcall⟩
  · rintro (⟨id, hcall, hsent⟩ | ⟨sent, kind, hsent, hcall⟩)
    · rcases h.unsealSlot_cases idKey owner
          (SealCall.text c ⟨idKey, owner, .item, id⟩) with ⟨id', hcall', -, hnow⟩ | ⟨hnot, -⟩
      · exact ⟨id', .item, by rw [get_id_unsealed hsent, hnow], hcall'⟩
      · exact absurd rfl (hnot id hcall)
    · rcases h.unsealSlot_cases idKey owner sent with
        ⟨id, hcall', -, hnow⟩ | ⟨-, hsame⟩
      · exact ⟨id, .item, by rw [get_id_unsealed hsent, hnow], hcall'⟩
      · exact ⟨sent, kind, by rw [get_id_unsealed hsent, hsame], hcall⟩

theorem get_input_unsealed {idKey : Key} {owner : Owner} {body : Value} {items : List Value}
    (h : body.get "input" = some (.array items)) :
    (unsealResponsesInput c idKey owner body).2.get "input" =
      some (.array (items.map (forEachItemId (unsealSlot c (.of c idKey owner))))) := by
  simp only [unsealResponsesInput, h, Value.get_modify, Option.map_some, unsealItems_snd]

theorem referenceById_unsealed_iff {s : Sealer Key} (item : Value) :
    ReferenceById (forEachItemId (unsealSlot c s) item) ↔ ReferenceById item := by
  have hgiven : Given (forEachItemId (unsealSlot c s) item) "id" ↔ Given item "id" := by
    unfold Given
    by_cases hstring : ∃ sent, item.get "id" = some (.string sent)
    · obtain ⟨sent, hsent⟩ := hstring
      rw [get_id_unsealed hsent, hsent]
      simp
    · rw [get_id_unsealed_of_not_string (not_exists.mp hstring)]
  have htype : Given (forEachItemId (unsealSlot c s) item) "type" ↔ Given item "type" := by
    unfold Given
    rw [get_type_unsealed]
  have hrole : Given (forEachItemId (unsealSlot c s) item) "role" ↔ Given item "role" := by
    unfold Given
    rw [get_role_unsealed]
  rw [ReferenceById, ReferenceById, hgiven, htype, hrole, get_type_unsealed]

/-- The walk reports nothing when every reference it recognises was sent sealed. -/
theorem Ideal.reported_iff (h : Ideal c calls answers) {idKey : Key} {owner : Owner} {body : Value}
    {items : List Value} (hitems : body.get "input" = some (.array items)) :
    (unsealResponsesInput c idKey owner body).1 = none ↔
      ∀ item ∈ items, isItemReference item = true → SentSealed c calls idKey owner item := by
  simp only [unsealResponsesInput, hitems, unsealItems_fst, true_and, h.opened_iff]

/-- **The walk lets through only the owner's references exactly when no null role hides another's.**
-/
theorem Ideal.onlyOwnReferences_iff (h : Ideal c calls answers) (idKey : Key) (owner : Owner)
    (body : Value) :
    OnlyOwnReferences c calls idKey owner body ↔ NullRolesOwn c calls idKey owner body := by
  constructor
  · intro hown items hitems
    by_cases hall : ∀ item ∈ items, isItemReference item = true →
      SentSealed c calls idKey owner item
    · refine .inr fun item hitem hnull => ?_
      obtain ⟨hid, htype, hrole⟩ := hnull
      have hreference : ReferenceById item := by
        refine ⟨hid, .inr ⟨htype, ?_⟩⟩
        rintro ⟨r, hr, hne⟩
        rw [hrole, Option.some.injEq] at hr
        exact hne hr.symm
      have hcarries := hown ((h.reported_iff hitems).mpr hall) _ (get_input_unsealed hitems) _
        (List.mem_map_of_mem hitem) ((referenceById_unsealed_iff item).mpr hreference)
      exact (h.carriesOwn_unsealed_iff idKey owner item).mp hcarries
    · push Not at hall
      exact .inl hall
  · intro hnull hnone items hleft item hitem hreference
    cases hinput : body.get "input" with
    | none => simp [unsealResponsesInput, hinput] at hleft
    | some v =>
      cases v with
      | array sent =>
        rw [get_input_unsealed hinput, Option.some.injEq, Value.array.injEq] at hleft
        subst hleft
        obtain ⟨item, hsent, rfl⟩ := List.mem_map.mp hitem
        have hall := (h.reported_iff hinput).mp hnone
        refine (h.carriesOwn_unsealed_iff idKey owner item).mpr ?_
        rcases referenceById_cases
          ((referenceById_unsealed_iff item).mp hreference) with hcode | hhidden
        · exact .inl (hall item hsent hcode)
        · rcases hnull sent hinput with ⟨refused, hmem, hcode, hnot⟩ | hothers
          · exact absurd (hall refused hmem hcode) hnot
          · exact hothers item hsent hhidden
      | _ => simp [unsealResponsesInput, hinput] at hleft

end Walked

/-- A sealer of the tenant, whatever it sealed last. -/
def Sealer.IsFor (c : Crypto Key) (idKey : Key) (owner : Owner) (s : Sealer Key) : Prop :=
  s.keys = (Sealer.of c idKey owner).keys ∧ s.owner = (Sealer.of c idKey owner).owner ∧
    s.Remembers c

theorem Sealer.IsFor.seal_eq {c : Crypto Key} {call : SealCall Key} {s : Sealer Key}
    (h : s.IsFor c call.idKey call.owner) : (s.«seal» c call.kind call.id).1 = call.text c := by
  obtain ⟨hkeys, howner, hremembers⟩ := h
  obtain ⟨keys, owner, last⟩ := s
  obtain rfl : keys = _ := hkeys
  obtain rfl : owner = _ := howner
  exact (hremembers.seal_eq call.kind call.id).1

/-- **Ids open for their owner, nothing unsealed opens, and a reference goes upstream only with an
id of its owner's, exactly when no null role hides another's.** -/
theorem sealed_ids_isolate {c : Crypto Key} {calls : Set (SealCall Key)}
    {answers : Set (ResponseSeal Key)} (h : Ideal c calls answers) :
    (∀ call ∈ calls, ∀ s : Sealer Key, s.IsFor c call.idKey call.owner →
      (call.sealer c).«unseal» c call.kind (s.«seal» c call.kind call.id).1 = some call.id) ∧
    (∀ idKey owner kind s id, (Sealer.of c idKey owner).«unseal» c kind s = some id →
      ⟨idKey, owner, kind, id⟩ ∈ calls ∧ s = SealCall.text c ⟨idKey, owner, kind, id⟩) ∧
    ∀ idKey owner body, OnlyOwnReferences c calls idKey owner body ↔
      NullRolesOwn c calls idKey owner body := by
  refine ⟨?_, fun idKey owner kind s id => h.unseal_iff.mp, h.onlyOwnReferences_iff⟩
  intro call hcall s hs
  rw [hs.seal_eq]
  exact h.unseal_iff.mpr ⟨hcall, rfl⟩

/-! ### A cipher that knows what was sealed -/

/-- Opens a seal by looking it up among the calls. -/
def standIn (calls : List (SealCall (List String))) : Crypto (List String) :=
  let c : Crypto (List String) :=
    { derive := fun k label => label :: k
      mac := fun _ data => (data ++ List.replicate 32 0).take 32
      sealInPlace := fun _ _ _ plain => plain ++ List.replicate MAX_TAG_LEN 0
      openInPlace := fun _ _ _ _ => none }
  { c with
    openInPlace := fun k nonce aad sealed =>
      (calls.find? fun call => decide (k = (call.sealer c).keys.cipher ∧ nonce = call.nonce c ∧
        aad = call.aad c ∧ sealed = pad call.id ++ List.replicate MAX_TAG_LEN 0)).map (pad ·.id) }

theorem ideal_standIn (calls : List (SealCall (List String))) :
    Ideal (standIn calls) {call | call ∈ calls} ∅ where
  derive_inj := by
    intro k k' label label' h
    obtain ⟨hlabel, hkey⟩ := List.cons.inj h
    exact ⟨hkey, hlabel⟩
  mac_length := by
    intro k data
    simp [standIn]
  seal_length := by
    intro k nonce aad plain
    simp [standIn]
  open_iff := by
    intro k nonce aad sealed plain
    simp only [Set.mem_ofPred_eq, Set.mem_empty_iff_false, false_and, exists_false, or_false]
    constructor
    · intro hopen
      obtain ⟨call, hfind, rfl⟩ := Option.map_eq_some_iff.mp hopen
      have hmatch := List.find?_some hfind
      obtain ⟨hkey, hnonce, haad, hsealed⟩ := of_decide_eq_true hmatch
      exact ⟨hsealed, call, List.mem_of_find?_eq_some hfind, hkey, hnonce, haad, rfl⟩
    · rintro ⟨hsealed, call, hcall, hkey, hnonce, haad, rfl⟩
      apply Option.map_eq_some_iff.mpr
      cases hfind : calls.find? fun call' =>
          decide (k = (call'.sealer (standIn calls)).keys.cipher ∧
            nonce = call'.nonce (standIn calls) ∧ aad = call'.aad (standIn calls) ∧
            sealed = pad call'.id ++ List.replicate MAX_TAG_LEN 0) with
      | none =>
        have hnot := List.find?_eq_none.mp hfind call hcall
        exact absurd (decide_eq_true ⟨hkey, hnonce, haad, hsealed⟩) hnot
      | some found =>
        have hmatch := List.find?_some hfind
        replace hmatch := of_decide_eq_true hmatch
        exact ⟨found, hfind, List.append_cancel_right (hmatch.2.2.2.symm.trans hsealed)⟩

def teamA : Owner := ⟨"team:a", by decide⟩

def sealedItem : SealCall (List String) := ⟨[], teamA, .item, "msg_bdrk_1"⟩

theorem sealed_ids_isolate_standIn :
    Ideal (standIn [sealedItem]) {call | call ∈ [sealedItem]} ∅ ∧
      (sealedItem.sealer (standIn [sealedItem])).«unseal» (standIn [sealedItem]) .item
        (sealedItem.text (standIn [sealedItem])) = some "msg_bdrk_1" := by
  have hideal := ideal_standIn [sealedItem]
  have hfor : (sealedItem.sealer (standIn [sealedItem])).IsFor (standIn [sealedItem]) [] teamA :=
    ⟨rfl, rfl, fun _ _ _ hlast => by cases hlast⟩
  have hback := (sealed_ids_isolate hideal).1 sealedItem (by simp) _ hfor
  rw [(hfor : (sealedItem.sealer _).IsFor _ sealedItem.idKey sealedItem.owner).seal_eq] at hback
  exact ⟨hideal, hback⟩

/-- A reference to another tenant's stored item, its role written as null. -/
def nullRoleItem : Value := .object [("role", .null), ("id", .string "msg_bdrk_1")]

def nullRoleBody : Value := .object [("input", .array [nullRoleItem])]

/-- The reference goes through although nothing was ever sealed for the tenant. -/
theorem nullRole_passes :
    Ideal (standIn []) {call | call ∈ ([] : List (SealCall (List String)))} ∅ ∧
      ¬OnlyOwnReferences (standIn []) {call | call ∈ ([] : List (SealCall (List String)))} [] teamA
        nullRoleBody := by
  refine ⟨ideal_standIn [], fun hown => ?_⟩
  have hnone : (unsealResponsesInput (standIn []) [] teamA nullRoleBody).1 = none := by
    decide +kernel
  have hreference : ReferenceById nullRoleItem := by
    refine ⟨⟨_, rfl, by simp⟩, .inr ⟨?_, ?_⟩⟩
    · rintro ⟨v, hv, -⟩
      cases hv
    · rintro ⟨v, hv, hne⟩
      obtain rfl : Value.null = v := Option.some.inj hv
      exact hne rfl
  obtain ⟨id, kind, -, hcall⟩ :=
    hown hnone _ (get_input_unsealed rfl) _ (List.mem_map_of_mem (by simp))
    ((referenceById_unsealed_iff nullRoleItem).mpr hreference)
  cases hcall

end OpaqueId
end Aisix
