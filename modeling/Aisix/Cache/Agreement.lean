import Aisix.Cache.KeyBytes

/-!
# Aisix.Cache.Agreement

Which requests share a cache entry. A fingerprint determines the key (`hash_inj`), so what remains
is what the key keeps of a request.

Two things are read in two ways. A message with a name, a tool call id or other fields is hashed
without the prefix that tells its blocks from a text (`BlocksAsText`), and the tags ride under a
name that a field of the request can have (`TagsAsField`).
-/

namespace Aisix
namespace Cache

open Json OpaqueId Delimited CacheKey

/-- A request, the policy it matched and the tags that steer it. -/
structure Lookup where
  req : ChatFormat
  policyId : String
  purgeGeneration : UInt32
  scopeValue : Option String
  tags : Option String

def Lookup.key (F : FloatText) (quantiseMilli : UInt64 → UInt32) (a : Lookup) : CacheKey :=
  ((CacheKey.fromRequest F quantiseMilli a.req).withScope a.policyId a.purgeGeneration
    a.scopeValue).withRoutingTags a.tags

section Messages

/-- The values `serde_json` and the message's type can hold. -/
structure MessageWellFormed (m : ChatMessage) : Prop where
  blocks : ∀ bs ∈ m.contentBlocks, itemsWellFormed bs
  extra : (Value.object m.extra).WellFormed

/-- One content: the same text, or the same blocks. -/
def ContentAgree (m m' : ChatMessage) : Prop :=
  match m.contentBlocks, m'.contentBlocks with
  | some bs, some bs' => itemsSame bs bs'
  | none, none => m.contentStr = m'.contentStr
  | _, _ => False

structure DecorAgree (m m' : ChatMessage) : Prop where
  role : m.role = m'.role
  name : m.name = m'.name
  toolCallId : m.toolCallId = m'.toolCallId
  extra : fieldsSame m.extra m'.extra

def MessageAgree (m m' : ChatMessage) : Prop := DecorAgree m m' ∧ ContentAgree m m'

/-- The text of one message is the JSON of the other's blocks. -/
def BlocksRead (F : FloatText) (m m' : ChatMessage) : Prop :=
  match m.contentBlocks, m'.contentBlocks with
  | some bs, none => canonicalJsonString F (.array bs) = m'.contentStr
  | none, some bs' => m.contentStr = canonicalJsonString F (.array bs')
  | _, _ => False

/-- Two messages that agree but for their content, which is blocks in one and their text in the
other. -/
def BlocksAsText (F : FloatText) (m m' : ChatMessage) : Prop :=
  DecorAgree m m' ∧ plain m = false ∧ BlocksRead F m m'

variable {F : FloatText} {m m' : ChatMessage}

theorem roleStr_inj {r r' : Role} (h : roleStr r = roleStr r') : r = r' := by
  cases r <;> cases r' <;> first | rfl | exact absurd h (by decide)

theorem optString_inj {s s' : Option String} (h : optString s = optString s') : s = s' := by
  cases s <;> cases s' <;> simp_all [optString]

theorem canonicalJsonString_iff {v w : Value} (hv : v.WellFormed) (hw : w.WellFormed) :
    canonicalJsonString F v = canonicalJsonString F w ↔ SameUpToOrder v w := by
  rw [canonicalJsonString, canonicalJsonString, String.ofList_inj, text_canonicalise_iff F hv hw]

theorem contentRepr_iff (hm : MessageWellFormed m) (hm' : MessageWellFormed m') :
    contentRepr F m = contentRepr F m' ↔ ContentAgree m m' ∨ BlocksRead F m m' := by
  unfold contentRepr ContentAgree BlocksRead
  cases hb : m.contentBlocks with
  | none => cases hb' : m'.contentBlocks with
    | none => simp
    | some bs' => simp
  | some bs => cases hb' : m'.contentBlocks with
    | none => simp
    | some bs' =>
      have hbs : (Value.array bs).WellFormed := hm.blocks bs (by rw [hb]; rfl)
      have hbs' : (Value.array bs').WellFormed := hm'.blocks bs' (by rw [hb']; rfl)
      simp [canonicalJsonString_iff hbs hbs', SameUpToOrder]

theorem decorated_wellFormed (hm : MessageWellFormed m) : (decorated F m).WellFormed := by
  have hname : (optString m.name).WellFormed := by cases m.name <;> trivial
  have hid : (optString m.toolCallId).WellFormed := by cases m.toolCallId <;> trivial
  have hextra := canonicalise_wellFormed hm.extra
  rw [decorated, Value.WellFormed]
  have hkeys : ["content", "extra", "name", "tool_call_id"].Nodup := by decide
  exact ⟨hkeys, trivial, hextra, hname, hid, trivial⟩

theorem decorated_iff (hm : MessageWellFormed m) (hm' : MessageWellFormed m') :
    decorated F m = decorated F m' ↔ contentRepr F m = contentRepr F m' ∧ m.name = m'.name ∧
      m.toolCallId = m'.toolCallId ∧ fieldsSame m.extra m'.extra := by
  have hextra := canonicalise_eq_iff hm.extra hm'.extra
  simp only [SameUpToOrder, Value.object.injEq, exists_eq_left'] at hextra
  simp only [decorated, Value.object.injEq, List.cons.injEq, Prod.mk.injEq, true_and, and_true,
    Value.string.injEq, hextra]
  constructor
  · rintro ⟨hrepr, hextra, hname, hid⟩
    exact ⟨hrepr, optString_inj hname, optString_inj hid, hextra⟩
  · rintro ⟨hrepr, hname, hid, hextra⟩
    exact ⟨hrepr, hextra, by rw [hname], by rw [hid]⟩

theorem DecorAgree.plain (h : DecorAgree m m') : plain m = plain m' := by
  have hempty : m.extra.isEmpty = m'.extra.isEmpty := by
    have hlen := h.extra
    cases hm : m.extra with
    | nil =>
      rw [hm, fieldsSame] at hlen
      rw [hlen]
    | cons e fs =>
      obtain ⟨k, v⟩ := e
      rw [hm, fieldsSame] at hlen
      obtain ⟨w, rest, hperm, -⟩ := hlen
      cases hm' : m'.extra with
      | nil => exact absurd (hm' ▸ hperm).length_eq (by simp)
      | cons => rfl
  rw [Cache.plain, Cache.plain, h.name, h.toolCallId, hempty]

theorem decorAgree_of_plain (h : plain m = true) (h' : plain m' = true) (hrole : m.role = m'.role) :
    DecorAgree m m' := by
  simp only [plain, Bool.and_eq_true, Option.isNone_iff_eq_none, List.isEmpty_iff] at h h'
  obtain ⟨⟨hname, hid⟩, hextra⟩ := h
  obtain ⟨⟨hname', hid'⟩, hextra'⟩ := h'
  exact ⟨hrole, hname.trans hname'.symm, hid.trans hid'.symm, by rw [hextra, hextra']; rfl⟩

theorem kind_ne {x y : Char} {s s' : String} (h : x ≠ y) :
    String.ofList [x, ':'] ++ s ≠ String.ofList [y, ':'] ++ s' := by
  intro heq
  have hlist := congrArg String.toList heq
  simp only [String.toList_append, String.toList_ofList, List.cons_append] at hlist
  exact h (List.cons.inj hlist).1

theorem kind_cancel {x s s' : String} : x ++ s = x ++ s' ↔ s = s' := by
  constructor
  · intro h
    have hlist := congrArg String.toList h
    rw [String.toList_append, String.toList_append] at hlist
    exact String.toList_injective (List.append_cancel_left hlist)
  · rintro rfl
    rfl

def kindOf (m : ChatMessage) : String := if m.contentBlocks.isSome then "b:" else "t:"

theorem messagePair_plain (h : plain m = true) :
    messagePair F m = (roleStr m.role, kindOf m ++ contentRepr F m) := by
  rw [messagePair, if_pos h, kindOf]

theorem messagePair_decorated (h : plain m = false) :
    messagePair F m = (roleStr m.role, "j:" ++ String.ofList (text F (decorated F m))) := by
  rw [messagePair, if_neg (by simp [h])]

theorem plain_pair_iff (hm : MessageWellFormed m) (hm' : MessageWellFormed m') :
    kindOf m ++ contentRepr F m = kindOf m' ++ contentRepr F m' ↔ ContentAgree m m' := by
  have hrepr := contentRepr_iff (F := F) hm hm'
  unfold kindOf
  unfold ContentAgree BlocksRead at *
  cases hb : m.contentBlocks with
  | none =>
    cases hb' : m'.contentBlocks with
    | none => simpa [hb, hb', kind_cancel] using hrepr
    | some bs' =>
      simp only [Option.isSome_none, Option.isSome_some, if_true, Bool.false_eq_true,
        if_false, iff_false]
      exact kind_ne (x := 't') (y := 'b') (by decide)
  | some bs =>
    cases hb' : m'.contentBlocks with
    | none =>
      simp only [Option.isSome_none, Option.isSome_some, if_true, Bool.false_eq_true,
        if_false, iff_false]
      exact kind_ne (x := 'b') (y := 't') (by decide)
    | some bs' => simpa [hb, hb', kind_cancel] using hrepr

theorem decorated_pair_iff (hm : MessageWellFormed m) (hm' : MessageWellFormed m') :
    "j:" ++ String.ofList (text F (decorated F m)) = "j:" ++
      String.ofList (text F (decorated F m')) ↔
      (ContentAgree m m' ∨ BlocksRead F m m') ∧ m.name = m'.name ∧ m.toolCallId = m'.toolCallId ∧
        fieldsSame m.extra m'.extra := by
  rw [kind_cancel, String.ofList_inj, ← contentRepr_iff hm hm', ← decorated_iff hm hm']
  exact ⟨text_injective (decorated_wellFormed hm) (decorated_wellFormed hm'), fun h => h ▸ rfl⟩

/-- What is hashed of a message tells it from every other that does not agree with it, but for
blocks and their text. -/
theorem messagePair_iff (hm : MessageWellFormed m) (hm' : MessageWellFormed m') :
    messagePair F m = messagePair F m' ↔ MessageAgree m m' ∨ BlocksAsText F m m' := by
  constructor
  · intro h
    cases hp : plain m with
    | true =>
      cases hp' : plain m' with
      | true =>
        rw [messagePair_plain hp, messagePair_plain hp', Prod.mk.injEq, plain_pair_iff hm hm'] at h
        exact .inl ⟨decorAgree_of_plain hp hp' (roleStr_inj h.1), h.2⟩
      | false =>
        rw [messagePair_plain hp, messagePair_decorated hp', Prod.mk.injEq, kindOf] at h
        split at h
        · exact (kind_ne (x := 'b') (y := 'j') (by decide) h.2).elim
        · exact (kind_ne (x := 't') (y := 'j') (by decide) h.2).elim
    | false =>
      cases hp' : plain m' with
      | true =>
        rw [messagePair_decorated hp, messagePair_plain hp', Prod.mk.injEq, kindOf] at h
        split at h
        · exact (kind_ne (x := 'j') (y := 'b') (by decide) h.2).elim
        · exact (kind_ne (x := 'j') (y := 't') (by decide) h.2).elim
      | false =>
        rw [messagePair_decorated hp, messagePair_decorated hp', Prod.mk.injEq,
          decorated_pair_iff hm hm'] at h
        obtain ⟨hrole, hcontent, hname, hid, hextra⟩ := h
        have hdecor : DecorAgree m m' := ⟨roleStr_inj hrole, hname, hid, hextra⟩
        exact hcontent.imp (⟨hdecor, ·⟩) (⟨hdecor, hp, ·⟩)
  · intro h
    have hdecor : DecorAgree m m' := h.elim And.left And.left
    cases hp : plain m with
    | true =>
      have hcontent : ContentAgree m m' :=
        h.elim And.right fun h => absurd (hp.symm.trans h.2.1) (by decide)
      rw [messagePair_plain hp, messagePair_plain (hdecor.plain ▸ hp), Prod.mk.injEq,
        plain_pair_iff hm hm']
      exact ⟨by rw [hdecor.role], hcontent⟩
    | false =>
      rw [messagePair_decorated hp, messagePair_decorated (hdecor.plain ▸ hp), Prod.mk.injEq,
        decorated_pair_iff hm hm']
      exact ⟨by rw [hdecor.role], h.imp And.right fun h => h.2.2, hdecor.name, hdecor.toolCallId,
        hdecor.extra⟩

end Messages

section Fields

variable {F : FloatText} {fs gs : List (String × Value)}

/-- A field as it is hashed, once its value is canonical. -/
def fieldText (F : FloatText) (e : String × Value) : String × String :=
  (e.1, String.ofList (text F e.2))

theorem canonicalExtras_eq (fs : List (String × Value)) :
    canonicalExtras F fs = (sortFields (canonicaliseFields fs)).map (fieldText F) := by
  have hsort :=
    List.map_insertionSort byKey byKey (fun e : String × Value => (e.1, canonicalise e.2)) fs
    (fun _ _ _ _ => Iff.rfl)
  rw [canonicaliseFields_eq_map, sortFields, ← hsort, List.map_map]
  rfl

theorem map_fieldText_inj (hfs : fieldsWellFormed fs) (hgs : fieldsWellFormed gs)
    (h : fs.map (fieldText F) = gs.map (fieldText F)) : fs = gs := by
  induction fs generalizing gs with
  | nil => exact (List.map_eq_nil_iff.1 h.symm).symm
  | cons e fs ih =>
    cases gs with
    | nil => cases h
    | cons e' gs =>
      obtain ⟨k, v⟩ := e
      obtain ⟨k', v'⟩ := e'
      rw [fieldsWellFormed] at hfs hgs
      rw [List.map_cons, List.map_cons, List.cons.injEq, fieldText, fieldText, Prod.mk.injEq,
        String.ofList_inj] at h
      obtain ⟨⟨rfl, hv⟩, htail⟩ := h
      rw [text_injective hfs.1 hgs.1 hv, ih hfs.2 hgs.2 htail]

theorem canonicalExtras_iff (hfs : (Value.object fs).WellFormed)
    (hgs : (Value.object gs).WellFormed) :
    canonicalExtras F fs = canonicalExtras F gs ↔ fieldsSame fs gs := by
  have hiff := canonicalise_eq_iff hfs hgs
  simp only [SameUpToOrder, Value.object.injEq, exists_eq_left', canonicalise] at hiff
  rw [← hiff, canonicalExtras_eq, canonicalExtras_eq]
  have hwf := canonicalise_wellFormed hfs
  have hwf' := canonicalise_wellFormed hgs
  rw [canonicalise, Value.WellFormed] at hwf hwf'
  exact ⟨map_fieldText_inj hwf.2 hwf'.2, fun h => by rw [h]⟩

theorem mem_keys_canonicalExtras (k : String) :
    k ∈ (canonicalExtras F fs).map Prod.fst ↔ k ∈ fs.map Prod.fst := by
  have hkeys : (canonicalExtras F fs).map Prod.fst = (sortFields fs).map Prod.fst := by
    rw [canonicalExtras, List.map_map]
    rfl
  rw [hkeys]
  exact ((sortFields_perm fs).map Prod.fst).mem_iff

theorem wellFormed_of_perm (hperm : fs.Perm gs) (hfs : (Value.object fs).WellFormed) :
    (Value.object gs).WellFormed := by
  rw [Value.WellFormed, fieldsWellFormed_iff] at *
  exact ⟨(hperm.map Prod.fst).nodup_iff.1 hfs.1, fun e he => hfs.2 e (hperm.mem_iff.2 he)⟩

theorem wellFormed_tail {e : String × Value} (h : (Value.object (e :: fs)).WellFormed) :
    (Value.object fs).WellFormed := by
  rw [Value.WellFormed, fieldsWellFormed_iff] at *
  exact ⟨(List.nodup_cons.1 h.1).2, fun e' he' => h.2 e' (List.mem_cons_of_mem e he')⟩

theorem canonicalExtras_append_iff {k t : String} (hfs : (Value.object fs).WellFormed)
    (hgs : (Value.object gs).WellFormed) :
    canonicalExtras F gs = canonicalExtras F fs ++ [(k, t)] ↔
      ∃ v rest, gs.Perm ((k, v) :: rest) ∧ canonicalJsonString F v = t ∧ fieldsSame fs rest ∧
        ∀ e ∈ fs, e.1 ≤ k := by
  constructor
  · intro h
    rw [canonicalExtras] at h
    obtain ⟨rest, last, hsort, hrest, hlast⟩ := List.map_eq_append_iff.1 h
    obtain ⟨⟨k', v⟩, rfl, heq⟩ := List.map_eq_singleton_iff.1 hlast
    obtain ⟨rfl, hv⟩ := Prod.mk.inj heq
    have hperm : gs.Perm ((k', v) :: rest) :=
      (sortFields_perm gs).symm.trans (hsort ▸ List.perm_append_singleton (k', v) rest)
    have hsorted := List.pairwise_append.1 (hsort ▸ sorted_sortFields gs)
    have hcanonical : canonicalExtras F rest = canonicalExtras F fs := by
      rw [← hrest, canonicalExtras, sortFields, hsorted.1.insertionSort_eq]
    have hsame := (canonicalExtras_iff hfs (wellFormed_tail (wellFormed_of_perm hperm hgs))).1
      hcanonical.symm
    refine ⟨v, rest, hperm, hv, hsame, fun e he => ?_⟩
    have hkey : e.1 ∈ rest.map Prod.fst := by
      rw [← mem_keys_canonicalExtras (F := F), hcanonical, mem_keys_canonicalExtras]
      exact List.mem_map_of_mem he
    obtain ⟨e', he', heq⟩ := List.mem_map.1 hkey
    exact heq ▸ hsorted.2.2 e' he' (k', v) (List.mem_singleton_self _)
  · rintro ⟨v, rest, hperm, rfl, hsame, hle⟩
    have hcons := wellFormed_of_perm hperm hgs
    have hcanonical := (canonicalExtras_iff (F := F) hfs (wellFormed_tail hcons)).2 hsame
    have hsort : sortFields gs = sortFields rest ++ [(k, v)] := by
      have hkeys : (gs.map Prod.fst).Nodup := by rw [Value.WellFormed] at hgs; exact hgs.1
      refine sorted_unique (nodup_sortFields hkeys) ?_ (sorted_sortFields gs) ?_
      · exact (sortFields_perm gs).trans (hperm.trans
          (((sortFields_perm rest).symm.cons (k, v)).trans (List.perm_append_singleton _ _).symm))
      · refine List.pairwise_append.2 ⟨sorted_sortFields rest, List.pairwise_singleton _ _, ?_⟩
        intro e he e' he'
        obtain rfl := List.mem_singleton.1 he'
        have hkey : e.1 ∈ fs.map Prod.fst := by
          rw [← mem_keys_canonicalExtras (F := F), hcanonical, mem_keys_canonicalExtras]
          exact List.mem_map_of_mem ((sortFields_perm rest).mem_iff.1 he)
        obtain ⟨e'', he'', heq⟩ := List.mem_map.1 hkey
        have hkey' : e.1 ≤ k := heq ▸ hle e'' he''
        exact hkey'
    rw [canonicalExtras, hsort, List.map_append, hcanonical]
    rfl

end Fields

section Lookups

/-- The values the request's types can hold, and a policy id as the control plane makes them. -/
structure Lookup.WellFormed (a : Lookup) : Prop where
  extra : (Value.object a.req.extra).WellFormed
  messages : ∀ m ∈ a.req.messages, MessageWellFormed m
  policyId : 0 ∉ asBytes a.policyId

/-- All that scopes an entry but for the other fields and the tags. -/
structure ParamsAgree (quantiseMilli : UInt64 → UInt32) (a b : Lookup) : Prop where
  model : a.req.model = b.req.model
  maxTokens : a.req.maxTokens = b.req.maxTokens
  temperature : a.req.temperature.map quantiseMilli = b.req.temperature.map quantiseMilli
  topP : a.req.topP.map quantiseMilli = b.req.topP.map quantiseMilli
  policyId : a.policyId = b.policyId
  purgeGeneration : a.purgeGeneration = b.purgeGeneration
  scopeValue : a.scopeValue = b.scopeValue

structure ScopeAgree (quantiseMilli : UInt64 → UInt32) (a b : Lookup) : Prop where
  params : ParamsAgree quantiseMilli a b
  extra : fieldsSame a.req.extra b.req.extra
  tags : a.tags = b.tags

/-- Two requests the upstream could not tell apart, under one policy, generation and scope. -/
structure Agree (quantiseMilli : UInt64 → UInt32) (a b : Lookup) : Prop where
  scope : ScopeAgree quantiseMilli a b
  messages : List.Forall₂ MessageAgree a.req.messages b.req.messages

/-- `b` has no tags and a field that reads like those of `a`; no field of `a` has a name behind it.
-/
def TagsAsField (F : FloatText) (a b : Lookup) : Prop :=
  ∃ t v rest, a.tags = some t ∧ b.tags = none ∧ b.req.extra.Perm ((ROUTING_TAGS, v) :: rest) ∧
    canonicalJsonString F v = t ∧ fieldsSame a.req.extra rest ∧
      ∀ e ∈ a.req.extra, e.1 ≤ ROUTING_TAGS

/-- The messages agree, but for one or more whose blocks stand as text in the other request. -/
def MessagesRead (F : FloatText) (ms ms' : List ChatMessage) : Prop :=
  List.Forall₂ (fun m m' => MessageAgree m m' ∨ BlocksAsText F m m') ms ms' ∧
    ∃ m m', (m, m') ∈ ms.zip ms' ∧ BlocksAsText F m m'

/-- The requests differ in the tags only, and one spells them as a field. -/
def ScopeAliased (F : FloatText) (quantiseMilli : UInt64 → UInt32) (a b : Lookup) : Prop :=
  ParamsAgree quantiseMilli a b ∧ (TagsAsField F a b ∨ TagsAsField F b a)

/-- The requests differ in messages only, and those they differ in spell one content as the other.
-/
def MessagesAliased (F : FloatText) (quantiseMilli : UInt64 → UInt32) (a b : Lookup) : Prop :=
  ScopeAgree quantiseMilli a b ∧ MessagesRead F a.req.messages b.req.messages

variable {F : FloatText} {quantiseMilli : UInt64 → UInt32} {a b : Lookup}

/-- The extras of a key: the fields in order, and the tags behind them. -/
def Lookup.extras (F : FloatText) (a : Lookup) : List (String × String) :=
  canonicalExtras F a.req.extra ++ a.tags.toList.map (ROUTING_TAGS, ·)

theorem Lookup.key_eq (a : Lookup) : a.key F quantiseMilli =
    { model := a.req.model, messages := a.req.messages.map (messagePair F),
      temperatureMilli := a.req.temperature.map quantiseMilli,
      topPMilli := a.req.topP.map quantiseMilli,
      maxTokens := a.req.maxTokens, extras := a.extras F, policyId := a.policyId,
      purgeGeneration := a.purgeGeneration, scopeValue := a.scopeValue } := by
  cases ht : a.tags <;>
    simp [Lookup.key, Lookup.extras, ht, fromRequest, withScope, withRoutingTags]

theorem isContent_of_kind {x rest : String} (hx : x ∈ ["t:", "b:", "j:"]) : IsContent (x ++ rest) :=
  ⟨x, hx, rest, rfl⟩

theorem isMessage_messagePair (m : ChatMessage) : IsMessage (messagePair F m) := by
  cases hp : plain m with
  | true =>
    rw [messagePair_plain hp]
    refine ⟨⟨m.role, rfl⟩, isContent_of_kind ?_⟩
    unfold kindOf
    split <;> decide
  | false =>
    rw [messagePair_decorated hp]
    exact ⟨⟨m.role, rfl⟩, isContent_of_kind (by decide)⟩

theorem isExtra_extras (a : Lookup) : ∀ e ∈ a.extras F, IsExtra F e := by
  intro e he hname
  rcases List.mem_append.1 he with he | he
  · obtain ⟨⟨k, v⟩, -, rfl⟩ := List.mem_map.1 he
    exact ⟨canonicalise v, rfl⟩
  · obtain ⟨t, -, rfl⟩ := List.mem_map.1 he
    exact absurd rfl hname

theorem Lookup.WellFormed.keyShape (ha : a.WellFormed) : KeyShape F (a.key F quantiseMilli) := by
  rw [Lookup.key_eq]
  refine ⟨isExtra_extras a, ha.policyId, fun m hm => ?_⟩
  obtain ⟨m', -, rfl⟩ := List.mem_map.1 hm
  exact isMessage_messagePair m'

theorem tagsAsField_iff {t : String} (ha : a.WellFormed) (hb : b.WellFormed) (ht : a.tags = some t)
    (hnone : b.tags = none) :
    canonicalExtras F b.req.extra = canonicalExtras F a.req.extra ++ [(ROUTING_TAGS, t)] ↔
      TagsAsField F a b := by
  rw [canonicalExtras_append_iff ha.extra hb.extra]
  constructor
  · rintro ⟨v, rest, h⟩
    exact ⟨t, v, rest, ht, hnone, h⟩
  · rintro ⟨t', v, rest, ht', -, h⟩
    obtain rfl := Option.some.inj (ht.symm.trans ht')
    exact ⟨v, rest, h⟩

/-- The extras of the key tell fields and tags apart, but for tags spelled as a field. -/
theorem extras_iff (ha : a.WellFormed) (hb : b.WellFormed) :
    a.extras F = b.extras F ↔
      (fieldsSame a.req.extra b.req.extra ∧ a.tags = b.tags) ∨ TagsAsField F a b ∨
      TagsAsField F b a := by
  have hfields := canonicalExtras_iff (F := F) ha.extra hb.extra
  have hsame : ∀ {a b : Lookup}, TagsAsField F a b → a.tags ≠ none ∧ b.tags = none := by
    rintro a b ⟨t, v, rest, ht, hnone, -⟩
    exact ⟨by rw [ht]; exact Option.some_ne_none t, hnone⟩
  rw [Lookup.extras, Lookup.extras]
  cases ht : a.tags with
  | none =>
    cases ht' : b.tags with
    | none =>
      rw [Option.toList_none, List.map_nil, List.append_nil, List.append_nil, hfields]
      exact ⟨fun h => .inl ⟨h, rfl⟩, fun h => h.elim And.left fun h =>
        h.elim (fun h => absurd ht (hsame h).1) fun h => absurd ht' (hsame h).1⟩
    | some t =>
      rw [Option.toList_none, List.map_nil, List.append_nil, Option.toList_some, List.map_singleton,
        tagsAsField_iff hb ha ht' ht]
      refine ⟨fun h => .inr (.inr h), fun h => ?_⟩
      rcases h with ⟨-, h⟩ | h | h
      · cases h
      · exact absurd ht (hsame h).1
      · exact h
  | some t =>
    cases ht' : b.tags with
    | none =>
      rw [Option.toList_none, List.map_nil, List.append_nil, Option.toList_some, List.map_singleton,
        eq_comm, tagsAsField_iff ha hb ht ht']
      refine ⟨fun h => .inr (.inl h), fun h => ?_⟩
      rcases h with ⟨-, h⟩ | h | h
      · cases h
      · exact h
      · exact absurd ht' (hsame h).1
    | some t' =>
      rw [Option.toList_some, Option.toList_some, List.map_singleton, List.map_singleton]
      constructor
      · intro h
        obtain ⟨hextra, htags⟩ := List.append_inj' h rfl
        have htag : t = t' := (Prod.mk.inj (List.cons.inj htags).1).2
        exact .inl ⟨hfields.1 hextra, congrArg some htag⟩
      · rintro (⟨h, ⟨⟩⟩ | h | h)
        · rw [hfields.2 h]
        · exact absurd (ht'.symm.trans (hsame h).2) (Option.some_ne_none t')
        · exact absurd (ht.symm.trans (hsame h).2) (Option.some_ne_none t)

theorem messagePairs_iff {ms ms' : List ChatMessage} (hms : ∀ m ∈ ms, MessageWellFormed m)
    (hms' : ∀ m ∈ ms', MessageWellFormed m) :
    ms.map (messagePair F) = ms'.map (messagePair F) ↔
      List.Forall₂ (fun m m' => MessageAgree m m' ∨ BlocksAsText F m m') ms ms' := by
  induction ms generalizing ms' with
  | nil => cases ms' <;> simp
  | cons m ms ih =>
    cases ms' with
    | nil => simp
    | cons m' ms' =>
      rw [List.map_cons, List.map_cons, List.cons.injEq, List.forall₂_cons,
        messagePair_iff (hms m List.mem_cons_self) (hms' m' List.mem_cons_self),
        ih (fun x hx => hms x (List.mem_cons_of_mem m hx))
          fun x hx => hms' x (List.mem_cons_of_mem m' hx)]

theorem scopeOf_key_iff (ha : a.WellFormed) (hb : b.WellFormed) :
    scopeOf (a.key F quantiseMilli) = scopeOf (b.key F quantiseMilli) ↔
      ScopeAgree quantiseMilli a b ∨ ScopeAliased F quantiseMilli a b := by
  have hextras := extras_iff (F := F) ha hb
  simp only [Lookup.key_eq, scopeOf, CacheKey.mk.injEq]
  constructor
  · rintro ⟨hmodel, -, htemperature, htopP, hmax, hextra, hpolicy, hgeneration, hscope⟩
    have hparams : ParamsAgree quantiseMilli a b :=
      ⟨hmodel, hmax, htemperature, htopP, hpolicy, hgeneration, hscope⟩
    exact (hextras.1 hextra).imp (fun h => ⟨hparams, h.1, h.2⟩) fun h => ⟨hparams, h⟩
  · intro h
    obtain ⟨hmodel, hmax, htemperature, htopP, hpolicy, hgeneration, hscope⟩ :=
      h.elim ScopeAgree.params And.left
    exact ⟨hmodel, trivial, htemperature, htopP, hmax,
      hextras.2 (h.imp (fun h => ⟨h.extra, h.tags⟩) And.right), hpolicy, hgeneration, hscope⟩

theorem key_iff (ha : a.WellFormed) (hb : b.WellFormed) :
    a.key F quantiseMilli = b.key F quantiseMilli ↔
      (ScopeAgree quantiseMilli a b ∨ ScopeAliased F quantiseMilli a b) ∧
        List.Forall₂ (fun m m' => MessageAgree m m' ∨ BlocksAsText F m m') a.req.messages
          b.req.messages := by
  rw [← scopeOf_key_iff ha hb, ← messagePairs_iff ha.messages hb.messages,
    Lookup.key_eq, Lookup.key_eq]
  simp only [scopeOf, CacheKey.mk.injEq]
  constructor
  · rintro ⟨h1, h2, h⟩
    exact ⟨⟨h1, trivial, h⟩, h2⟩
  · rintro ⟨⟨h1, -, h⟩, h2⟩
    exact ⟨h1, h2, h⟩

end Lookups

section Semantic

/-- What the two replacements make of one character. -/
def escapeOne (c : Char) : List Char :=
  if c = '\\' then ['\\', '\\'] else if c = '\n' then ['\\', 'n'] else [c]

theorem escapeLine_eq (text : String) : escapeLine text = text.toList.flatMap escapeOne := by
  rw [escapeLine, List.flatMap_assoc]
  congr 1
  funext c
  unfold escapeOne
  by_cases hb : c = '\\'
  · subst hb; decide
  · by_cases hn : c = '\n'
    · subst hn; decide
    · simp [hb, hn]

theorem escapeOne_prefix {c d : Char} (h : escapeOne c <+: escapeOne d) : c = d := by
  unfold escapeOne at h
  split_ifs at h <;> simp_all

theorem newline_notMem_escapeLine (text : String) : '\n' ∉ escapeLine text := by
  rw [escapeLine_eq]
  intro h
  obtain ⟨c, -, hc⟩ := List.mem_flatMap.1 h
  unfold escapeOne at hc
  split_ifs at hc with hb hn
  · exact absurd hc (by decide)
  · exact absurd hc (by decide)
  · exact hn (List.mem_singleton.1 hc).symm

theorem escapeLine_inj {s s' : String} (h : escapeLine s = escapeLine s') : s = s' := by
  rw [escapeLine_eq, escapeLine_eq] at h
  refine String.toList_injective (flatMap_injective ?_ (fun c d => escapeOne_prefix) h)
  intro c
  unfold escapeOne
  split_ifs <;> simp

theorem colon_notMem_roleStr (role : Role) : ':' ∉ (roleStr role).toList := by
  cases role <;> decide

theorem semanticLine_prefix {x y : Role × String}
    (h : semanticLine x.1 x.2 <+: semanticLine y.1 y.2) : x = y := by
  obtain ⟨u, hu⟩ := h
  simp only [semanticLine, List.append_assoc, List.cons_append, List.nil_append] at hu
  obtain ⟨hrole, hu⟩ := segment_cons_inj (colon_notMem_roleStr x.1) (colon_notMem_roleStr y.1) hu
  obtain ⟨htext, -⟩ :=
    segment_cons_inj (newline_notMem_escapeLine x.2) (newline_notMem_escapeLine y.2)
    (List.cons.inj hu).2
  exact Prod.ext (roleStr_inj (String.toList_injective hrole)) (escapeLine_inj htext)

theorem semanticPromptText_inj {req req' : ChatFormat} {lines lines' : List (Role × String)}
    {t : String} (hlines : semanticLines req = some lines)
    (hlines' : semanticLines req' = some lines') (h : semanticPromptText req = some t)
    (h' : semanticPromptText req' = some t) :
    lines = lines' := by
  have htext : ∀ {req : ChatFormat} {lines}, semanticLines req = some lines →
      semanticPromptText req = some t →
        lines.flatMap (fun l => semanticLine l.1 l.2) = t.toList := by
    intro req lines hlines h
    rw [semanticPromptText, hlines] at h
    dsimp only at h
    split at h
    · cases h
    · rw [← Option.some.inj h, String.toList_ofList]
  refine flatMap_injective ?_ (fun x y => semanticLine_prefix)
    ((htext hlines h).trans (htext hlines' h').symm)
  intro x
  simp [semanticLine]

end Semantic

section Fingerprints

/-- The fingerprints tell two requests apart exactly when the upstream does, and so does the
embedded text for the roles and texts it stands for. -/
structure ToldApart (F : FloatText) (quantiseMilli : UInt64 → UInt32) (digest : List UInt8 → String)
    (a b : Lookup) : Prop where
  fingerprint :
    (a.key F quantiseMilli).fingerprint digest = (b.key F quantiseMilli).fingerprint digest ↔
    Agree quantiseMilli a b
  scope :
    (a.key F quantiseMilli).scopeFingerprint digest =
    (b.key F quantiseMilli).scopeFingerprint digest ↔ ScopeAgree quantiseMilli a b
  semantic : ∀ lines lines' t, semanticLines a.req = some lines →
    semanticLines b.req = some lines' → semanticPromptText a.req = some t →
    semanticPromptText b.req = some t → lines = lines'

variable {F : FloatText} {quantiseMilli : UInt64 → UInt32} {digest : List UInt8 → String}
    {a b : Lookup}

theorem BlocksAsText.not_agree {m m' : ChatMessage} (h : BlocksAsText F m m') :
    ¬ MessageAgree m m' := by
  rintro ⟨-, hagree⟩
  have hread := h.2.2
  unfold BlocksRead at hread
  unfold ContentAgree at hagree
  split at hread <;> simp_all

theorem MessagesRead.not_agree {ms ms' : List ChatMessage} (h : MessagesRead F ms ms') :
    ¬ List.Forall₂ MessageAgree ms ms' := by
  obtain ⟨-, m, m', hmem, hread⟩ := h
  exact fun hagree => hread.not_agree (List.forall₂_zip hagree hmem)

theorem agree_of_not_read {ms ms' : List ChatMessage}
    (h : List.Forall₂ (fun m m' => MessageAgree m m' ∨ BlocksAsText F m m') ms ms')
    (hnot : ¬ MessagesRead F ms ms') : List.Forall₂ MessageAgree ms ms' := by
  refine List.forall₂_iff_zip.2 ⟨h.length_eq, fun {m m'} hmem => ?_⟩
  exact (List.forall₂_zip h hmem).resolve_right fun hread => hnot ⟨h, m, m', hmem, hread⟩

theorem ScopeAliased.not_agree (h : ScopeAliased F quantiseMilli a b) :
    ¬ ScopeAgree quantiseMilli a b := by
  intro hagree
  rcases h.2 with ⟨t, v, rest, ht, hnone, -⟩ | ⟨t, v, rest, ht, hnone, -⟩
  · exact absurd (ht.symm.trans (hagree.tags.trans hnone)) (Option.some_ne_none t)
  · exact absurd (ht.symm.trans (hagree.tags.symm.trans hnone)) (Option.some_ne_none t)

theorem fingerprint_iff (F : FloatText) (quantiseMilli : UInt64 → UInt32)
    (hdigest : Function.Injective digest) (ha : a.WellFormed) (hb : b.WellFormed) :
    (a.key F quantiseMilli).fingerprint digest = (b.key F quantiseMilli).fingerprint digest ↔
      (ScopeAgree quantiseMilli a b ∨ ScopeAliased F quantiseMilli a b) ∧
        List.Forall₂ (fun m m' => MessageAgree m m' ∨ BlocksAsText F m m') a.req.messages
          b.req.messages := by
  rw [← key_iff ha hb, fingerprint, fingerprint, hdigest.eq_iff]
  exact ⟨hash_inj ha.keyShape hb.keyShape, fun h => by rw [h]⟩

theorem scopeFingerprint_iff (F : FloatText) (quantiseMilli : UInt64 → UInt32)
    (hdigest : Function.Injective digest) (ha : a.WellFormed) (hb : b.WellFormed) :
    (a.key F quantiseMilli).scopeFingerprint digest =
    (b.key F quantiseMilli).scopeFingerprint digest ↔
      ScopeAgree quantiseMilli a b ∨ ScopeAliased F quantiseMilli a b := by
  rw [← scopeOf_key_iff ha hb, scopeFingerprint, scopeFingerprint, hdigest.eq_iff]
  exact ⟨hashScope_inj ha.keyShape hb.keyShape, fun h => by rw [← hash_scopeOf, h, hash_scopeOf]⟩

/-- Two requests are told apart exactly when neither spells the other's tags as a field, nor the
other's blocks as a text where the prefix that tells them is missing. -/
theorem requests_told_apart (hdigest : Function.Injective digest) (ha : a.WellFormed)
    (hb : b.WellFormed) : ToldApart F quantiseMilli digest a b ↔
      ¬ ScopeAliased F quantiseMilli a b ∧ ¬ MessagesAliased F quantiseMilli a b := by
  have hfull := fingerprint_iff F quantiseMilli hdigest ha hb
  have hscope := scopeFingerprint_iff F quantiseMilli hdigest ha hb
  constructor
  · intro h
    refine ⟨fun halias => halias.not_agree (h.scope.1 (hscope.2 (.inr halias))), ?_⟩
    rintro ⟨hagree, hread⟩
    exact hread.not_agree (h.fingerprint.1 (hfull.2 ⟨.inl hagree, hread.1⟩)).messages
  · rintro ⟨htags, hmessages⟩
    refine ⟨?_, ?_, fun _ _ _ => semanticPromptText_inj⟩
    · rw [hfull]
      constructor
      · rintro ⟨hagree | halias, hread⟩
        · exact ⟨hagree, agree_of_not_read hread fun h => hmessages ⟨hagree, h⟩⟩
        · exact absurd halias htags
      · intro h
        exact ⟨.inl h.scope, h.messages.imp fun _ _ => .inl⟩
    · rw [hscope]
      exact ⟨fun h => h.resolve_right htags, .inl⟩

/-- The bytes as characters. -/
def spell (bytes : List UInt8) : String := String.ofList (bytes.map fun b => Char.ofNat b.toNat)

theorem spell_injective : Function.Injective spell := by
  intro l l' h
  rw [spell, spell, String.ofList_inj] at h
  refine List.map_injective_iff.2 (fun b b' hb => ?_) h
  have hval : ∀ b : UInt8, (Char.ofNat b.toNat).toNat = b.toNat := by
    intro b
    have hlt := b.toNat_lt
    have hvalid : Nat.isValidChar b.toNat := .inl (by omega)
    rw [Char.ofNat, dif_pos hvalid]
    rfl
  exact UInt8.toNat_inj.1 (by rw [← hval b, ← hval b', hb])

/-- One message of a named user, without other fields. -/
def askedBy (name : String) (content : Option String) (blocks : Option (List Value))
    (tags : Option String) : Lookup where
  req := .new "gpt" [⟨.user, content, blocks, some name, none, []⟩]
  policyId := "p"
  purgeGeneration := 0
  scopeValue := none
  tags := tags

theorem askedBy_wellFormed (name : String) (content : Option String) (blocks : Option (List Value))
    (tags : Option String) (h : ∀ bs ∈ blocks, itemsWellFormed bs) :
    (askedBy name content blocks tags).WellFormed where
  extra := ⟨List.nodup_nil, trivial⟩
  messages := by
    intro m hm
    obtain rfl := List.mem_singleton.1 hm
    exact ⟨h, List.nodup_nil, trivial⟩
  policyId := by
    change 0 ∉ asBytes "p"
    decide

theorem requests_told_apart_tags :
    ToldApart bitsText (fun _ => 0) spell (askedBy "ann" (some "hi") none (some "eu"))
      (askedBy "ann" (some "hi") none (some "us")) := by
  refine (requests_told_apart spell_injective (askedBy_wellFormed _ _ _ _ (by rintro _ ⟨⟩))
    (askedBy_wellFormed _ _ _ _ (by rintro _ ⟨⟩))).2 ⟨?_, ?_⟩
  · rintro ⟨-, ⟨_, _, _, -, ⟨⟩, -⟩ | ⟨_, _, _, -, ⟨⟩, -⟩⟩
  · rintro ⟨hagree, -⟩
    exact absurd hagree.tags (by decide)

/-- The text `hi` as a block, and the JSON of that block as a text. -/
def hiBlocks : List Value := [.object [("type", .string "text"), ("text", .string "hi")]]

def hiText : String :=
  String.ofList ('[' :: '\x7b' :: "\"text\":\"hi\",\"type\":\"text\"".toList ++ ['\x7d', ']'])

theorem requests_share_entry :
    (askedBy "ann" none (some hiBlocks) none).WellFormed ∧
      (askedBy "ann" (some hiText) none none).WellFormed ∧ Function.Injective spell ∧
      ¬ ToldApart bitsText (fun _ => 0) spell (askedBy "ann" none (some hiBlocks) none)
        (askedBy "ann" (some hiText) none none) := by
  refine ⟨askedBy_wellFormed _ _ _ _ ?_, askedBy_wellFormed _ _ _ _ (by rintro _ ⟨⟩),
    spell_injective, ?_⟩
  · rintro bs ⟨⟩
    exact ⟨⟨by decide, trivial, trivial, trivial⟩, trivial⟩
  · intro h
    have hkey : (askedBy "ann" none (some hiBlocks) none).key bitsText (fun _ => 0) =
        (askedBy "ann" (some hiText) none none).key bitsText (fun _ => 0) := by
      decide +kernel
    have hmessages := (h.fingerprint.1 (by rw [hkey])).messages
    exact (List.forall₂_cons.1 hmessages).1.2

end Fingerprints

end Cache
end Aisix
