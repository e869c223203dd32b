import Aisix.Cache.Key
import Aisix.Utf8

/-!
# Aisix.Cache.KeyBytes

The hashed bytes give the key back. The fixed fields and every string end where they say they do.
The extras do not: nothing in the stream says where their list stops and the policy id begins.
`not_extra` shows that the two continuations differ all the same: what follows the policy id is a
generation and a discriminant, and no string that may stand there as a field's value, or as the name
and value after it, has these bytes.
-/

namespace Aisix
namespace Cache

open Json OpaqueId Delimited CacheKey

section Utf8

theorem asBytes_eq (s : String) : asBytes s = s.toList.flatMap String.utf8EncodeChar := by
  have hbytes : s.toByteArray = s.toList.utf8Encode := by
    rw [← String.toByteArray_ofList, String.ofList_toList]
  rw [asBytes, String.toUTF8, hbytes]
  simp [List.utf8Encode]

/-- A byte of a string is one of its characters, or one that only longer characters have. -/
theorem byte_of_string {s : String} {b : UInt8} (h : b ∈ asBytes s) :
    (∃ c ∈ s.toList, b.toNat = c.toNat ∧ b.toNat < 128) ∨ (128 ≤ b.toNat ∧ b.toNat < 255) := by
  rw [asBytes_eq] at h
  obtain ⟨c, hc, hb⟩ := List.mem_flatMap.1 h
  rcases Utf8.utf8EncodeChar_byte hb with h | h
  · exact .inl ⟨c, hc, h⟩
  · exact .inr h

theorem ff_notMem_asBytes (s : String) : 0xff ∉ asBytes s := by
  intro h
  have hff : (0xff : UInt8).toNat = 255 := rfl
  rcases byte_of_string h with ⟨c, -, -, hlt⟩ | ⟨-, hlt⟩ <;> omega

theorem low_of_printable {s : String} (h : Printable s.toList) : ∀ b ∈ asBytes s, 32 ≤ b.toNat := by
  intro b hb
  rcases byte_of_string hb with ⟨c, hc, heq, -⟩ | hhigh
  · exact heq ▸ h c hc
  · omega

theorem asBytes_ne_nil {s : String} (h : s ≠ "") : asBytes s ≠ [] := fun hnil =>
  h (asBytes_inj (hnil.trans (by decide)))

end Utf8

section Frames

theorem strBytes_inj {s s' : String} {r r' : List UInt8} (h : strBytes s ++ r = strBytes s' ++ r') :
    s = s' ∧ r = r' := by
  simp only [strBytes, List.append_assoc, List.singleton_append] at h
  obtain ⟨hs, hr⟩ := segment_cons_inj (ff_notMem_asBytes s) (ff_notMem_asBytes s') h
  exact ⟨asBytes_inj hs, hr⟩

theorem pairBytes_inj {e e' : String × String} {r r' : List UInt8}
    (h : pairBytes e ++ r = pairBytes e' ++ r') : e = e' ∧ r = r' := by
  simp only [pairBytes, List.append_assoc] at h
  obtain ⟨h1, h⟩ := strBytes_inj h
  obtain ⟨h2, h⟩ := strBytes_inj h
  exact ⟨Prod.ext h1 h2, h⟩

theorem pairs_inj {es es' : List (String × String)}
    (h : es.flatMap pairBytes = es'.flatMap pairBytes) : es = es' := by
  refine flatMap_injective ?_ ?_ h
  · intro e hnil
    simp [pairBytes, strBytes] at hnil
  · rintro e e' ⟨u, hu⟩
    have hword : pairBytes e ++ u = pairBytes e' ++ [] := by rw [hu, List.append_nil]
    exact (pairBytes_inj hword).1

@[simp] theorem length_leBytes (n value : Nat) : (leBytes n value).length = n := by
  induction n generalizing value with
  | zero => rfl
  | succ n ih => rw [leBytes, List.length_cons, ih]

theorem leBytes_inj {n a b : Nat} (ha : a < 256 ^ n) (hb : b < 256 ^ n)
    (h : leBytes n a = leBytes n b) : a = b := by
  induction n generalizing a b with
  | zero => omega
  | succ n ih =>
    obtain ⟨hlow, hhigh⟩ := List.cons.inj h
    have hdiv := ih (Nat.div_lt_of_lt_mul (by rw [Nat.pow_succ] at ha; omega))
      (Nat.div_lt_of_lt_mul (by rw [Nat.pow_succ] at hb; omega)) hhigh
    have hmod : a % 256 = b % 256 := by simpa using congrArg UInt8.toNat hlow
    omega

theorem u32Bytes_inj {a b : UInt32} {r r' : List UInt8}
    (h : leBytes 4 a.toNat ++ r = leBytes 4 b.toNat ++ r') : a = b ∧ r = r' := by
  obtain ⟨hab, hr⟩ := List.append_inj h (by simp)
  have ha := a.toNat_lt
  have hb := b.toNat_lt
  exact ⟨UInt32.toNat_inj.1 (leBytes_inj (by omega) (by omega) hab), hr⟩

theorem disc_ne {r r' : List UInt8} : leBytes 8 0 ++ r ≠ leBytes 8 1 ++ r' := by
  intro h
  exact absurd (List.append_inj h (by simp)).1 (by decide)

theorem optU32Bytes_inj {a b : Option UInt32} {r r' : List UInt8}
    (h : optU32Bytes a ++ r = optU32Bytes b ++ r') : a = b ∧ r = r' := by
  cases a with
  | none =>
    cases b with
    | none => exact ⟨rfl, List.append_cancel_left h⟩
    | some b => exact (disc_ne (by simpa only [optU32Bytes, List.append_assoc] using h)).elim
  | some a =>
    cases b with
    | none => exact (disc_ne (by simpa only [optU32Bytes, List.append_assoc] using h.symm)).elim
    | some b =>
      simp only [optU32Bytes, List.append_assoc] at h
      obtain ⟨rfl, hr⟩ := u32Bytes_inj (List.append_cancel_left h)
      exact ⟨rfl, hr⟩

theorem optStrBytes_inj {a b : Option String} {r r' : List UInt8}
    (h : optStrBytes a ++ r = optStrBytes b ++ r') : a = b ∧ r = r' := by
  cases a with
  | none =>
    cases b with
    | none => exact ⟨rfl, List.append_cancel_left h⟩
    | some b => exact (disc_ne (by simpa only [optStrBytes, List.append_assoc] using h)).elim
  | some a =>
    cases b with
    | none => exact (disc_ne (by simpa only [optStrBytes, List.append_assoc] using h.symm)).elim
    | some b =>
      simp only [optStrBytes, List.append_assoc] at h
      obtain ⟨rfl, hr⟩ := strBytes_inj (List.append_cancel_left h)
      exact ⟨rfl, hr⟩

end Frames

section Shapes

variable {F : FloatText}

/-- The text of some JSON value. -/
def IsJson (F : FloatText) (s : String) : Prop := ∃ v, s = String.ofList (text F v)

/-- The content half of a message's pair: its text, its blocks or its decorated form. -/
def IsContent (s : String) : Prop := ∃ x ∈ ["t:", "b:", "j:"], ∃ rest, s = x ++ rest

/-- A hashed message: its role and its content. -/
def IsMessage (m : String × String) : Prop := (∃ role, m.1 = roleStr role) ∧ IsContent m.2

/-- A caller's field carries JSON; the tags need not. -/
def IsExtra (F : FloatText) (e : String × String) : Prop := e.1 ≠ ROUTING_TAGS → IsJson F e.2

/-- What the key of a request looks like. -/
structure KeyShape (F : FloatText) (k : CacheKey) : Prop where
  extras : ∀ e ∈ k.extras, IsExtra F e
  policy : 0 ∉ asBytes k.policyId
  messages : ∀ m ∈ k.messages, IsMessage m

theorem IsJson.low {s : String} (h : IsJson F s) : ∀ b ∈ asBytes s, 32 ≤ b.toNat := by
  obtain ⟨v, rfl⟩ := h
  exact low_of_printable (by rw [String.toList_ofList]; exact printable_text v)

theorem IsJson.ne_nil {s : String} (h : IsJson F s) : asBytes s ≠ [] := by
  obtain ⟨v, rfl⟩ := h
  refine asBytes_ne_nil fun hnil => text_ne_nil (F := F) v ?_
  rw [← String.toList_ofList (l := text F v), hnil]
  rfl

/-- `true` and `false` are the only texts that begin with a letter the roles and prefixes begin
with. -/
theorem IsJson.ne_of_lead {s : String} {c : Char} {t : List Char} (h : IsJson F s)
    (hc : leadKind c = 7 ∨ (c = 't' ∧ t ≠ "rue".toList) ∨ (c = 'f' ∧ t ≠ "alse".toList)) :
    s.toList ≠ c :: t := by
  obtain ⟨v, rfl⟩ := h
  rw [String.toList_ofList]
  intro h
  rw [← List.append_nil (text F v)] at h
  rcases hc with hc | ⟨rfl, ht⟩ | ⟨rfl, hf⟩
  · exact text_ne_of_leadKind hc h
  · have hkind : kind v = 1 := (kind_of_lead h).trans (by decide)
    match v, hkind with
    | .bool true, _ => exact ht (List.cons.inj h).2.symm
  · have hkind : kind v = 2 := (kind_of_lead h).trans (by decide)
    match v, hkind with
    | .bool false, _ => exact hf (List.cons.inj h).2.symm

theorem IsJson.ne_role {s : String} (h : IsJson F s) (role : Role) : s ≠ roleStr role := by
  rintro rfl
  cases role
  case system => exact h.ne_of_lead (c := 's') (.inl (by decide)) rfl
  case developer => exact h.ne_of_lead (c := 'd') (.inl (by decide)) rfl
  case user => exact h.ne_of_lead (c := 'u') (.inl (by decide)) rfl
  case assistant => exact h.ne_of_lead (c := 'a') (.inl (by decide)) rfl
  case tool => exact h.ne_of_lead (c := 't') (.inr (.inl ⟨rfl, by decide⟩)) rfl
  case function => exact h.ne_of_lead (c := 'f') (.inr (.inr ⟨rfl, by decide⟩)) rfl

theorem IsJson.ne_content {s : String} (h : IsJson F s) : ¬ IsContent s := by
  rintro ⟨x, hx, rest, rfl⟩
  simp only [List.mem_cons, List.not_mem_nil, or_false] at hx
  rcases hx with rfl | rfl | rfl
  · exact h.ne_of_lead (c := 't') (t := ':' :: rest.toList) (.inr (.inl ⟨rfl, by simp⟩))
      (by rw [String.toList_append]; rfl)
  · exact h.ne_of_lead (c := 'b') (t := ':' :: rest.toList) (.inl (by decide))
      (by rw [String.toList_append]; rfl)
  · exact h.ne_of_lead (c := 'j') (t := ':' :: rest.toList) (.inl (by decide))
      (by rw [String.toList_append]; rfl)

theorem role_ne_content (role : Role) : ¬ IsContent (roleStr role) := by
  rintro ⟨x, hx, rest, h⟩
  have hcolon : ∀ role, (roleStr role).toList[1]? ≠ some ':' := by intro role; cases role <;> decide
  refine hcolon role ?_
  rw [h, String.toList_append]
  simp only [List.mem_cons, List.not_mem_nil, or_false] at hx
  rcases hx with rfl | rfl | rfl <;> rfl

theorem role_low (role : Role) : ∀ b ∈ asBytes (roleStr role), 32 ≤ b.toNat :=
  low_of_printable (by cases role <;> decide)

theorem role_ne_nil (role : Role) : asBytes (roleStr role) ≠ [] :=
  asBytes_ne_nil (by cases role <;> decide)

end Shapes

section Extras

variable {F : FloatText}

/-- What stands behind the extras. -/
def restBytes (policyId : String) (generation : UInt32) (scope : Option String)
    (messages : List (String × String)) : List UInt8 :=
  strBytes policyId ++
    (leBytes 4 generation.toNat ++ (optStrBytes scope ++ messages.flatMap pairBytes))

/-- What stands behind the first byte of a discriminant and its seven zeros. -/
def scopeRest (scope : Option String) (messages : List (String × String)) : List UInt8 :=
  (scope.elim [] strBytes) ++ messages.flatMap pairBytes

theorem optStrBytes_eq (scope : Option String) (r : List UInt8) :
    ∃ d : UInt8, d.toNat = (if scope.isSome then 1 else 0) ∧
      optStrBytes scope ++ r = d :: (List.replicate 7 0 ++ (scope.elim [] strBytes ++ r)) := by
  cases scope with
  | none => exact ⟨0, rfl, rfl⟩
  | some s => exact ⟨1, rfl, by simp [optStrBytes, leBytes, List.replicate]⟩

theorem json_ends {j : String} (hj : IsJson F j) {g r z : List UInt8} {d : UInt8}
    (hd : d.toNat < 32)
    (h : strBytes j ++ r = g ++ d :: z) : ∃ g', g'.length + 2 ≤ g.length ∧ r = g' ++ d :: z := by
  have hlow := hj.low
  have hpos := List.length_pos_iff.2 hj.ne_nil
  simp only [strBytes, List.append_assoc, List.singleton_append] at h
  rcases List.append_eq_append_iff.1 h with ⟨u, hu, hr⟩ | ⟨u, hu, hr⟩
  · -- the terminator lies in `g`
    cases u with
    | nil =>
      have hff : (0xff : UInt8) = d := (List.cons.inj hr).1
      rw [← hff] at hd
      exact absurd hd (by decide)
    | cons x u =>
      refine ⟨u, ?_, (List.cons.inj hr).2⟩
      have hlen := congrArg List.length hu
      simp only [List.length_append, List.length_cons] at hlen
      omega
  · -- `d` would be a byte of the text
    cases u with
    | nil =>
      have hff : d = (0xff : UInt8) := (List.cons.inj hr).1
      rw [hff] at hd
      exact absurd hd (by decide)
    | cons x u =>
      obtain rfl : d = x := (List.cons.inj hr).1
      have := hlow d (by rw [hu]; exact List.mem_append_right g List.mem_cons_self)
      omega

theorem pairBytes_append (e : String × String) (r : List UInt8) :
    pairBytes e ++ r = asBytes e.1 ++ 0xff :: (strBytes e.2 ++ r) := by
  simp [pairBytes, strBytes]

theorem message_then {ms : List (String × String)} {w r : List UInt8} {j : String} (hw : 0xff ∉ w)
    (h : ms.flatMap pairBytes = w ++ 0xff :: (strBytes j ++ r)) :
    ∃ m ∈ ms, asBytes m.1 = w ∧ m.2 = j := by
  cases ms with
  | nil => exact absurd (congrArg List.length h) (by simp)
  | cons m ms =>
    rw [List.flatMap_cons, pairBytes_append] at h
    obtain ⟨hrole, h⟩ := segment_cons_inj (ff_notMem_asBytes m.1) hw h
    exact ⟨m, List.mem_cons_self, hrole, (strBytes_inj h).1⟩

theorem role_then {ms : List (String × String)} {r : List UInt8} {j : String}
    (h : ms.flatMap pairBytes = strBytes j ++ r) : ∃ m ∈ ms, m.1 = j := by
  cases ms with
  | nil => exact absurd (congrArg List.length h) (by simp [strBytes])
  | cons m ms =>
    rw [List.flatMap_cons, pairBytes, List.append_assoc] at h
    exact ⟨m, List.mem_cons_self, (strBytes_inj h).1⟩

/-- Neither the content of a first message nor the role after a scope value is a field's value. -/
theorem scopeRest_ne_field {s : Option String} {ms : List (String × String)} {w r : List UInt8}
    {j : String} (hms : ∀ m ∈ ms, IsMessage m) (hj : IsJson F j) (hw : 0xff ∉ w) :
    scopeRest s ms ≠ w ++ 0xff :: (strBytes j ++ r) := by
  intro h
  cases s with
  | none =>
    obtain ⟨m, hm, -, rfl⟩ := message_then hw h
    exact hj.ne_content (hms m hm).2
  | some t =>
    rw [scopeRest, Option.elim_some, strBytes, List.append_assoc] at h
    obtain ⟨m, hm, rfl⟩ := role_then (segment_cons_inj (ff_notMem_asBytes t) hw h).2
    obtain ⟨role, hrole⟩ := (hms m hm).1
    exact hj.ne_role role hrole

theorem scopeRest_ne_zeros {s : Option String} {ms ms' : List (String × String)} {n : Nat}
    (hms : ∀ m ∈ ms, IsMessage m) (hms' : ∀ m ∈ ms', IsMessage m) :
    scopeRest s ms ≠ 0 :: (List.replicate n 0 ++ ms'.flatMap pairBytes) := by
  have hff : (0xff : UInt8) ∉ (0 : UInt8) :: List.replicate n 0 := by
    intro h
    rcases List.mem_cons.1 h with h | h
    · exact absurd h (by decide)
    · exact absurd (List.eq_of_mem_replicate h) (by decide)
  intro h
  cases s with
  | none =>
    cases ms with
    | nil => exact absurd (congrArg List.length h) (by simp [scopeRest])
    | cons m ms =>
      obtain ⟨role, hrole⟩ := (hms m List.mem_cons_self).1
      rw [scopeRest, Option.elim_none, List.nil_append, List.flatMap_cons,
        pairBytes_append, hrole] at h
      cases hb : asBytes (roleStr role) with
      | nil => exact role_ne_nil role hb
      | cons b bs =>
        rw [hb] at h
        have hzero : b = 0 := (List.cons.inj h).1
        have := role_low role b (by rw [hb]; exact List.mem_cons_self)
        rw [hzero] at this
        exact absurd this (by decide)
  | some t =>
    rw [scopeRest, Option.elim_some, strBytes, List.append_assoc, List.singleton_append,
      ← List.cons_append] at h
    obtain ⟨w, ht, h⟩ := segment_split hff h
    have hw : 0xff ∉ w := fun hmem => ff_notMem_asBytes t (ht ▸ List.mem_append_right _ hmem)
    -- the scope value runs over the first role, so the first role of `ms` is a content
    cases ms with
    | nil =>
      cases ms' with
      | nil => exact absurd (congrArg List.length h) (by simp)
      | cons m' ms' =>
        rw [List.flatMap_cons, pairBytes_append] at h
        have hrest := (segment_cons_inj hw (ff_notMem_asBytes m'.1) h).2
        exact absurd (congrArg List.length hrest) (by simp [strBytes])
    | cons m ms =>
      rw [List.flatMap_cons, pairBytes, List.append_assoc] at h
      obtain ⟨m', hm', -, hcontent⟩ := message_then hw h.symm
      obtain ⟨role, hrole⟩ := (hms m List.mem_cons_self).1
      exact role_ne_content role (hrole ▸ hcontent ▸ (hms' m' hm').2)

/-- A generation without a terminator and the discriminant after it are no part of a name. -/
theorem name_ne_generation {es ms : List (String × String)} {γ r : List UInt8} {p : String}
    {d : UInt8} {s : Option String} (hes : ∀ x ∈ es, IsExtra F x) (hp : 0 ∉ asBytes p)
    (hms : ∀ m ∈ ms, IsMessage m) (hd : d.toNat < 32) (hγ : γ.length ≤ 2) (hff : 0xff ∉ γ) :
    es.flatMap pairBytes ++ (strBytes p ++ r) ≠ γ ++ d ::
      (List.replicate 7 0 ++ scopeRest s ms) := by
  have hctl : 0xff ∉ γ ++ d :: List.replicate 7 0 := by
    intro h
    rcases List.mem_append.1 h with h | h
    · exact hff h
    · rcases List.mem_cons.1 h with rfl | h
      · exact absurd hd (by decide)
      · exact absurd (List.eq_of_mem_replicate h) (by decide)
  have hsplit : γ ++ d :: (List.replicate 7 0 ++ scopeRest s ms) =
      γ ++ d :: List.replicate 7 0 ++ scopeRest s ms := by simp
  rw [hsplit]
  intro h
  cases es with
  | nil =>
    rw [List.flatMap_nil, List.nil_append, strBytes, List.append_assoc, List.singleton_append] at h
    obtain ⟨w, hw, -⟩ := segment_split hctl h
    exact hp (by rw [hw]; simp)
  | cons e es =>
    rw [List.flatMap_cons, List.append_assoc (pairBytes e), pairBytes_append] at h
    obtain ⟨w, hw, h⟩ := segment_split hctl h
    have htags : e.1 ≠ ROUTING_TAGS := by
      -- the tags' name has one zero, in front
      intro htags
      have h3 : (asBytes ROUTING_TAGS)[3]? = some 0 := by
        rw [← htags, hw]
        match γ, hγ with
        | [], _ => rfl
        | [x], _ => rfl
        | [x, y], _ => rfl
      exact absurd h3 (by decide)
    have hffw : 0xff ∉ w := fun hmem => ff_notMem_asBytes e.1 (hw ▸ List.mem_append_right _ hmem)
    exact scopeRest_ne_field hms (hes e List.mem_cons_self htags) hffw h.symm

theorem name_ends_not {es ms ms' : List (String × String)} {a b : List UInt8} {p : String}
    {d : UInt8} {g : UInt32} {s s' : Option String} (hes : ∀ x ∈ es, IsExtra F x)
    (hms : ∀ m ∈ ms, IsMessage m) (hms' : ∀ m ∈ ms', IsMessage m) (hd : d.toNat < 32)
    (hlen : a.length + b.length ≤ 1) (hff : 0xff ∉ a) :
    es.flatMap pairBytes ++ restBytes p g s' ms' ≠
      a ++ 0xff :: (b ++ d :: (List.replicate 7 0 ++ scopeRest s ms)) := by
  intro h
  cases es with
  | nil =>
    obtain ⟨d', hd', hopt⟩ := optStrBytes_eq s' (ms'.flatMap pairBytes)
    rw [List.flatMap_nil, List.nil_append, restBytes, hopt, strBytes, List.append_assoc,
      List.singleton_append] at h
    have hgen := (segment_cons_inj (ff_notMem_asBytes p) hff h).2
    have hshift : d' = 0 ∧ ∃ n, scopeRest s ms =
        0 :: (List.replicate n 0 ++ (s'.elim [] strBytes ++ ms'.flatMap pairBytes)) := by
      match b, hlen with
      | [], _ =>
        simp only [leBytes, List.replicate, List.nil_append, List.cons_append,
          List.cons.injEq] at hgen
        exact ⟨hgen.2.2.2.2.1, 3, by simpa [List.replicate] using hgen.2.2.2.2.2.2.2.2.symm⟩
      | [x], _ =>
        simp only [leBytes, List.replicate, List.nil_append, List.cons_append,
          List.cons.injEq] at hgen
        exact ⟨hgen.2.2.2.2.1, 2, by simpa [List.replicate] using hgen.2.2.2.2.2.2.2.2.2.symm⟩
    obtain ⟨rfl, n, hrest⟩ := hshift
    cases s' with
    | none => exact scopeRest_ne_zeros hms hms' hrest
    | some t => exact Nat.zero_ne_one hd'
  | cons e es =>
    rw [List.flatMap_cons, List.append_assoc, pairBytes_append] at h
    obtain ⟨hname, h⟩ := segment_cons_inj (ff_notMem_asBytes e.1) hff h
    have htags : e.1 ≠ ROUTING_TAGS := by
      intro htags
      have hlong := congrArg List.length (htags ▸ hname)
      have : (asBytes ROUTING_TAGS).length = 13 := by decide
      omega
    obtain ⟨u, hu, -⟩ := json_ends (hes e List.mem_cons_self htags) hd h
    omega

theorem not_extra {e : String × String} {es ms ms' : List (String × String)} {p p' : String}
    {g g' : UInt32} {s s' : Option String} (hes : ∀ x ∈ e :: es, IsExtra F x) (hp : 0 ∉ asBytes p)
    (hp' : 0 ∉ asBytes p') (hms : ∀ m ∈ ms, IsMessage m) (hms' : ∀ m ∈ ms', IsMessage m) :
    restBytes p g s ms ≠ pairBytes e ++ (es.flatMap pairBytes ++ restBytes p' g' s' ms') := by
  intro h
  obtain ⟨d, hd, hopt⟩ := optStrBytes_eq s (ms.flatMap pairBytes)
  have hctl : d.toNat < 32 := by rw [hd]; split <;> omega
  rw [restBytes, hopt, pairBytes, List.append_assoc] at h
  obtain ⟨rfl, hvalue⟩ := strBytes_inj h
  have hj : IsJson F e.2 := hes e List.mem_cons_self fun htags => hp (by rw [htags]; decide)
  obtain ⟨γ, hγ, hrest⟩ := json_ends hj hctl hvalue.symm
  rw [length_leBytes] at hγ
  have htail : ∀ x ∈ es, IsExtra F x := fun x hx => hes x (List.mem_cons_of_mem e hx)
  by_cases hff : 0xff ∈ γ
  · obtain ⟨a, b, rfl, ha⟩ := List.eq_append_cons_of_mem hff
    rw [List.length_append, List.length_cons] at hγ
    rw [List.append_assoc, List.cons_append] at hrest
    exact name_ends_not htail hms hms' hctl (by omega) ha hrest
  · exact name_ne_generation htail hp' hms hctl (by omega) hff hrest

theorem extras_inj {es es' ms ms' : List (String × String)} {p p' : String} {g g' : UInt32}
    {s s' : Option String} (hes : ∀ x ∈ es, IsExtra F x) (hes' : ∀ x ∈ es', IsExtra F x)
    (hp : 0 ∉ asBytes p) (hp' : 0 ∉ asBytes p') (hms : ∀ m ∈ ms, IsMessage m)
    (hms' : ∀ m ∈ ms', IsMessage m)
    (h : es.flatMap pairBytes ++ restBytes p g s ms = es'.flatMap pairBytes ++
      restBytes p' g' s' ms') :
    es = es' ∧ p = p' ∧ g = g' ∧ s = s' ∧ ms = ms' := by
  induction es generalizing es' with
  | nil =>
    cases es' with
    | nil =>
      obtain ⟨hp, h⟩ := strBytes_inj h
      obtain ⟨hg, h⟩ := u32Bytes_inj h
      obtain ⟨hs, h⟩ := optStrBytes_inj h
      exact ⟨rfl, hp, hg, hs, pairs_inj h⟩
    | cons e' es' =>
      rw [List.flatMap_nil, List.nil_append, List.flatMap_cons, List.append_assoc] at h
      exact (not_extra hes' hp hp' hms hms' h).elim
  | cons e es ih =>
    cases es' with
    | nil =>
      rw [List.flatMap_nil, List.nil_append, List.flatMap_cons, List.append_assoc] at h
      exact (not_extra hes hp' hp hms' hms h.symm).elim
    | cons e' es' =>
      rw [List.flatMap_cons, List.flatMap_cons, List.append_assoc, List.append_assoc] at h
      obtain ⟨rfl, htail⟩ := pairBytes_inj h
      obtain ⟨rfl, hrest⟩ := ih (fun x hx => hes x (List.mem_cons_of_mem e hx))
        (fun x hx => hes' x (List.mem_cons_of_mem e hx)) htail
      exact ⟨rfl, hrest⟩

end Extras

section Keys

variable {F : FloatText} {k k' : CacheKey}

theorem hash_eq (k : CacheKey) : k.hash = strBytes k.model ++ (optU32Bytes k.temperatureMilli ++
    (optU32Bytes k.topPMilli ++ (optU32Bytes k.maxTokens ++ (k.extras.flatMap pairBytes ++
      restBytes k.policyId k.purgeGeneration k.scopeValue k.messages)))) := by
  simp only [CacheKey.hash, hashScope, restBytes, List.append_assoc]

theorem hash_inj (hk : KeyShape F k) (hk' : KeyShape F k') (h : k.hash = k'.hash) : k = k' := by
  rw [hash_eq, hash_eq] at h
  obtain ⟨hmodel, h⟩ := strBytes_inj h
  obtain ⟨htemperature, h⟩ := optU32Bytes_inj h
  obtain ⟨htopP, h⟩ := optU32Bytes_inj h
  obtain ⟨hmax, h⟩ := optU32Bytes_inj h
  obtain ⟨hextras, hpolicy, hgeneration, hscope, hmessages⟩ :=
    extras_inj hk.extras hk'.extras hk.policy hk'.policy hk.messages hk'.messages h
  cases k
  cases k'
  simp only at hmodel htemperature htopP hmax hextras hpolicy hgeneration hscope hmessages
  subst hmodel htemperature htopP hmax hextras hpolicy hgeneration hscope hmessages
  rfl

/-- The key of the scope is the key of a request without messages. -/
def scopeOf (k : CacheKey) : CacheKey := { k with messages := [] }

theorem hash_scopeOf (k : CacheKey) : (scopeOf k).hash = k.hashScope := by
  simp [CacheKey.hash, hashScope, scopeOf]

theorem KeyShape.scopeOf (hk : KeyShape F k) : KeyShape F (scopeOf k) where
  extras := hk.extras
  policy := hk.policy
  messages := by simp [Cache.scopeOf]

theorem hashScope_inj (hk : KeyShape F k) (hk' : KeyShape F k') (h : k.hashScope = k'.hashScope) :
    scopeOf k = scopeOf k' := by
  rw [← hash_scopeOf, ← hash_scopeOf] at h
  exact hash_inj hk.scopeOf hk'.scopeOf h

end Keys

end Cache
end Aisix
